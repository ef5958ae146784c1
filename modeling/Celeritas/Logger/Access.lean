import Celeritas.Logger.System
import Celeritas.Http.RoundTrip

/-!
# What the log files get to see

`log_access` formats the fields of a request into one message. The parser admits a URI and
header values of 4095 bytes each, a log line has room for 2047, and `log_write` takes the
length it is told for the length it stored. So a record is sound exactly if its message
fits (`RecordOk_iff`), and if every message fits, then nothing but messages ever reaches a
`writev` (`records_sound`): over any run, whatever the ring does with the entries.
-/

set_option autoImplicit false

namespace Celeritas

open CLib Lib

/-! ## `log_access` -/

/-- `%lx` -/
def hexNat (n : ℕ) : Bytes := (Nat.toDigits 16 n).map charByte

/-- The message of `log_access`: `now` is what `l_format_datetime` returns, `latency` the
time taken and `tid` the thread's number. `%d` prints the low half of `body_len`. -/
def accessText (remoteIp now : Bytes) (r : Http1Req) (statusCode bodyLen latency tid : ℕ) : Bytes :=
  remoteIp ++ lit " - - [" ++ now ++ lit "]  \"" ++ r.method ++ lit " " ++ r.uri ++ lit " " ++
    r.version ++ lit "\" " ++ decimalNat statusCode ++ lit " " ++ decimal (intOfSize bodyLen) ++
    lit " [" ++ decimalNat latency ++ lit "μs] - " ++
    (if confirmHeaderExists r (lit "User-Agent") then
      (getHeaderValue r (lit "User-Agent")).getD [] else []) ++
    lit " - tid: 0x" ++ hexNat tid ++ lit "\n"

/-! ## Soundness over runs -/

/-- An entry of the `calloc`ed array that was never written, of which `writev` puts out
nothing, or the record of a message. -/
def LogEntry.Sound (e : LogEntry) : Prop :=
  e = .zeroed ∨ ∃ text, e = logEntry e.target text ∧ RecordOk e text

/-- The vector lies inside a sound entry, and what it puts out is that entry's message. -/
def Iovec.Sound (v : Iovec) : Prop := ∃ e : LogEntry, v = e.iov ∧ e.Sound

theorem LogEntry.sound_logEntry {t : LogTarget} {text : Bytes}
    (h : text.length ≤ LOG_LINE_MAX - 1) : (logEntry t text).Sound :=
  .inr ⟨text, rfl, (RecordOk_iff t text).mpr h⟩

theorem sound_of_mem_iovFor {t : LogTarget} {b : List LogEntry} (h : ∀ e ∈ b, e.Sound) :
    ∀ v ∈ iovFor t b, v.Sound := by
  intro v hv
  obtain ⟨e, he, rfl⟩ := List.mem_map.mp hv
  exact ⟨e, rfl, h e (List.mem_filter.mp he).1⟩

/-- The message an action hands to `log_write`. -/
def LogAction.text {ι : Type*} : LogAction ι → Option Bytes
  | .call _ _ text => some text
  | .warnCall text => some text
  | _ => none

/-- The copying loop copies what the array holds, and writes nothing to it. -/
theorem Logger.entries_grab : ∀ (room : ℕ) (L : Logger),
    (L.grab room).2.ring.entries = L.ring.entries ∧
      ∀ e ∈ (L.grab room).1, ∃ i, e = L.ring.entries i := by
  intro room
  induction room with
  | zero =>
    intro L
    exact ⟨rfl, fun e he => absurd he List.not_mem_nil⟩
  | succ room ih =>
    intro L
    by_cases hne : L.ring.head ≠ L.ring.tail
    · obtain ⟨hent, hmem⟩ :=
        ih { L with ring := { L.ring with head := L.masked (L.ring.head + 1) } }
      rw [Logger.grab, if_pos hne]
      refine ⟨hent, fun e he => ?_⟩
      rcases List.mem_cons.mp he with rfl | he
      · exact ⟨_, rfl⟩
      · exact hmem e he
    · rw [Logger.grab, if_neg hne]
      exact ⟨rfl, by simp⟩

/-- A pass of `log_write` leaves the logger as it is or stores its entry. -/
theorem Logger.stores_or_not {L : Logger} {e : LogEntry} {r : WriteExit × Logger}
    (h : r = L.logWrite e ∨ ∃ n, r = L.waitNotFull e n) : r.2 = L ∨ ∃ n, r.2 = L.store e n := by
  rcases h with rfl | ⟨n, rfl⟩
  · rcases L.logWrite_cases e with ⟨h, _⟩ | ⟨h, _⟩ | ⟨h, _⟩ | ⟨h, _⟩ <;> rw [h]
    · exact .inr ⟨_, rfl⟩
    all_goals exact .inl rfl
  · rcases L.waitNotFull_cases e n with ⟨h, _⟩ | ⟨h, _⟩ | ⟨h, _⟩ <;> rw [h]
    · exact .inl rfl
    · exact .inl rfl
    · exact .inr ⟨_, rfl⟩

namespace LogSys

variable {ι : Type*}

/-- The step logs no message, or one that fits a line. -/
def Short (_ : LogSys ι) (a : LogAction ι) (_ : LogSys ι) : Prop :=
  ∀ text, a.text = some text → text.length ≤ LOG_LINE_MAX - 1

/-- The entries `logger_thread` has copied out and not yet written. -/
def batch (s : LogSys ι) : List LogEntry :=
  match s.thread with
  | .writeAccess b => b
  | .writeEvent b => b
  | _ => []

/-- Every entry the system holds is sound, and so is every vector of every `writev` it has
made. -/
structure Sound (s : LogSys ι) : Prop where
  entries : ∀ i, (s.log.ring.entries i).Sound
  producer : ∀ i e n, s.producer i = .waiting e n → e.Sound
  batch : ∀ e ∈ s.batch, e.Sound
  warn : ∀ e n, s.thread = .warnWaiting e n → e.Sound
  writevs : ∀ w ∈ s.writevs, ∀ v ∈ w.iov, v.Sound

theorem sound_init (ringSize : ℕ) : (LogSys.init ringSize : LogSys ι).Sound where
  entries _ := .inl rfl
  producer _ _ _ h := by simp [LogSys.init] at h
  batch _ h := by simp [LogSys.init, LogSys.batch] at h
  warn _ _ h := by simp [LogSys.init] at h
  writevs _ h := by simp [LogSys.init] at h

/-- What `settle` leaves alone. -/
theorem settle_frame (s : LogSys ι) (e : LogEntry) (r : WriteExit × Logger) :
    (s.settle e r).log = r.2 ∧ (s.settle e r).producer = s.producer ∧
      (s.settle e r).thread = s.thread ∧ (s.settle e r).writevs = s.writevs := by
  obtain ⟨exit, L⟩ := r
  cases exit <;> exact ⟨rfl, rfl, rfl, rfl⟩

/-- The array after a pass of `log_write` with a sound entry. -/
theorem Sound.entries_settle {s : LogSys ι} (h : s.Sound) {e : LogEntry} (he : e.Sound)
    {r : WriteExit × Logger} (hr : r = s.log.logWrite e ∨ ∃ n, r = s.log.waitNotFull e n) :
    ∀ i, ((s.settle e r).log.ring.entries i).Sound := by
  intro i
  rw [(s.settle_frame e r).1]
  rcases Logger.stores_or_not hr with hL | ⟨n, hL⟩ <;> rw [hL]
  · exact h.entries i
  · by_cases hi : i = s.log.ring.tail
    · subst hi
      simpa [Logger.store] using he
    · simpa [Logger.store, Function.update_of_ne hi] using h.entries i

theorem Sound.producerStep [DecidableEq ι] {s : LogSys ι} (h : s.Sound) (i : ι) {e : LogEntry}
    (he : e.Sound) {r : WriteExit × Logger}
    (hr : r = s.log.logWrite e ∨ ∃ n, r = s.log.waitNotFull e n) :
    (s.producerStep i e r).Sound := by
  obtain ⟨-, hprod, hthr, hw⟩ := s.settle_frame e r
  refine ⟨h.entries_settle he hr, fun j e' n hj => ?_, ?_, fun e' n ht => ?_, ?_⟩
  · by_cases hji : j = i
    · subst hji
      obtain ⟨exit, L⟩ := r
      cases exit <;> simp [LogSys.producerStep, WriteExit.producerPc] at hj
      exact hj.1 ▸ he
    · apply h.producer j e' n
      simpa [LogSys.producerStep, Function.update_of_ne hji, hprod] using hj
  · have hb : (s.producerStep i e r).batch = s.batch := by
      simp only [LogSys.batch, LogSys.producerStep, hthr]
    exact hb ▸ h.batch
  · exact h.warn e' n (hthr ▸ ht)
  · exact fun w hm => h.writevs w (hw ▸ hm)

theorem Sound.warnStep {s : LogSys ι} (h : s.Sound) {e : LogEntry} (he : e.Sound)
    {r : WriteExit × Logger} (hr : r = s.log.logWrite e ∨ ∃ n, r = s.log.waitNotFull e n) :
    (s.warnStep e r).Sound := by
  obtain ⟨-, hprod, -, hw⟩ := s.settle_frame e r
  refine ⟨h.entries_settle he hr, fun j e' n hj => ?_, fun e' hm => ?_, fun e' n ht => ?_, ?_⟩
  · exact h.producer j e' n (hprod ▸ hj)
  · obtain ⟨exit, L⟩ := r
    cases exit <;> simp [LogSys.batch, LogSys.warnStep, WriteExit.loggerPc] at hm
  · obtain ⟨exit, L⟩ := r
    cases exit <;> simp [LogSys.warnStep, WriteExit.loggerPc] at ht
    exact ht.1 ▸ he
  · exact fun w hm => h.writevs w (hw ▸ hm)

theorem Sound.drainStep {s : LogSys ι} (h : s.Sound) : s.drainStep.Sound := by
  obtain ⟨hent, hmem⟩ := s.log.entries_grab BATCH_SIZE
  rcases s.log.drain_cases with ⟨hd | hd, -⟩ | hd <;> rw [LogSys.drainStep, hd]
  · exact ⟨h.entries, h.producer, by simp [LogSys.batch], by simp, h.writevs⟩
  · exact ⟨h.entries, h.producer, by simp [LogSys.batch], by simp, h.writevs⟩
  · refine ⟨fun i => ?_, h.producer, fun e he => ?_, by simp, h.writevs⟩
    · exact congrFun hent i ▸ h.entries i
    · obtain ⟨i, rfl⟩ := hmem e he
      exact h.entries i

/-- A `writev` of the batch, after which the batch is kept or given up. -/
theorem Sound.writevStep {s : LogSys ι} (h : s.Sound) (t : LogTarget) {b : List LogEntry}
    (hb : ∀ e ∈ b, e.Sound) (ok : Bool) {next : LoggerPc}
    (hnext : next = .writeEvent b ∨ next = .top) : (s.writevStep t b ok next).Sound := by
  have hbatch : ∀ s' : LogSys ι, s'.thread = next ∨ s'.thread = .warn →
      (∀ e ∈ s'.batch, e.Sound) ∧ ∀ e n, s'.thread = .warnWaiting e n → e.Sound := by
    intro s' ht
    rcases hnext with rfl | rfl <;> rcases ht with ht | ht <;> simp [LogSys.batch, ht]
    exact hb
  unfold LogSys.writevStep
  split
  · obtain ⟨hb', hw'⟩ := hbatch { s with thread := next } (.inl rfl)
    exact ⟨h.entries, h.producer, hb', hw', h.writevs⟩
  · obtain ⟨hb', hw'⟩ := hbatch { s with
      thread := if ok then next else .warn
      writevs := s.writevs ++ [⟨t, iovFor t b, ok⟩] } (by cases ok <;> simp)
    refine ⟨h.entries, h.producer, hb', hw', fun w hm => ?_⟩
    rcases List.mem_append.mp hm with hm | hm
    · exact h.writevs w hm
    · rw [List.mem_singleton.mp hm]
      exact sound_of_mem_iovFor hb

theorem Sound.step [DecidableEq ι] {s s' : LogSys ι} {a : LogAction ι} (h : s.Sound)
    (hs : s.step a = some s') (hc : s.Short a s') : s'.Sound := by
  cases a with
  | call i t text =>
    simp only [LogSys.step] at hs
    split at hs
    · cases hs
      exact h.producerStep i (LogEntry.sound_logEntry (hc text rfl)) (.inl rfl)
    · cases hs
  | wake i =>
    simp only [LogSys.step] at hs
    split at hs
    next e n hw =>
      cases hs
      exact h.producerStep i (h.producer i e n hw) (.inr ⟨n, rfl⟩)
    · cases hs
  | drain =>
    simp only [LogSys.step] at hs
    split at hs
    · cases hs; exact h.drainStep
    · cases hs; exact h.drainStep
    · cases hs
  | writev ok =>
    simp only [LogSys.step] at hs
    split at hs
    next b hb =>
      cases hs
      exact h.writevStep _ (fun e he => h.batch e (by simpa [LogSys.batch, hb] using he)) ok
        (.inl rfl)
    next b hb =>
      cases hs
      exact h.writevStep _ (fun e he => h.batch e (by simpa [LogSys.batch, hb] using he)) ok
        (.inr rfl)
    · cases hs
  | warnCall text =>
    simp only [LogSys.step] at hs
    split at hs
    · cases hs
      exact h.warnStep (LogEntry.sound_logEntry (hc text rfl)) (.inl rfl)
    · cases hs
  | warnWake =>
    simp only [LogSys.step] at hs
    split at hs
    next e n hw =>
      cases hs
      exact h.warnStep (h.warn e n hw) (.inr ⟨n, rfl⟩)
    · cases hs
  | shutdown =>
    cases hs
    exact ⟨h.entries, h.producer, h.batch, h.warn, h.writevs⟩

/-- **A record is sound if and only if its message fits the line**, for every target and
every message; **and as long as every message does, every vector of every `writev` lies
inside its entry and puts out that entry's message**, for every number of threads, ring
size and schedule. -/
theorem records_sound [DecidableEq ι] (ringSize : ℕ) (as : List (LogAction ι)) :
    (∀ t text, RecordOk (logEntry t text) text ↔ text.length ≤ LOG_LINE_MAX - 1) ∧
      (EachStep LogSys.step Short (LogSys.init ringSize : LogSys ι) as →
        Along LogSys.step Sound (LogSys.init ringSize : LogSys ι) as) :=
  ⟨RecordOk_iff, EachStep.along (fun _ _ _ hs ht hc => hs.step ht hc) (sound_init ringSize)⟩

/-- A message for each log. The thread takes both out at once and writes one after the other. -/
def helloRun : List (LogAction ℕ) :=
  [.call 0 .event (lit "hello"), .call 1 .access (lit "GET /"), .drain, .writev true,
    .writev true]

theorem records_sound_hello : ∃ s,
    run LogSys.step (LogSys.init 4 : LogSys ℕ) helloRun = some s ∧
      s.writevs.map (fun w => w.iov.map fun v => v.emitted) =
        [[(lit "GET /").map some], [(lit "hello").map some]] ∧ s.Sound := by
  have hc : EachStep LogSys.step Short (LogSys.init 4 : LogSys ℕ) helloRun := by
    have hshort : ∀ a ∈ helloRun, ∀ text, LogAction.text a = some text → text.length ≤ 5 := by
      intro a ha text ht
      simp only [helloRun, List.mem_cons, List.not_mem_nil, or_false] at ha
      rcases ha with rfl | rfl | rfl | rfl | rfl <;> cases ht <;> decide
    refine (EachStep.of_forall_mem hshort _).mono ?_
    intro s a s' h text ht
    exact (h text ht).trans (by decide)
  exact ⟨_, rfl, by decide +kernel, ((records_sound 4 helloRun).2 hc).last rfl⟩

end LogSys

/-! ## A long URI

The parser keeps up to 4095 bytes of the URI and all of them go into the access message. -/

theorem uri_infix_accessText (remoteIp now : Bytes) (r : Http1Req)
    (statusCode bodyLen latency tid : ℕ) :
    r.uri <:+: accessText remoteIp now r statusCode bodyLen latency tid := by
  unfold accessText
  simp only [List.append_assoc]
  iterate 6 refine List.IsInfix.trans ?_ (List.suffix_append _ _).isInfix
  exact (List.prefix_append _ _).isInfix

/-- A message two bytes too long has `writev` put out memory the program never wrote. -/
theorem logEntry_leaks {t : LogTarget} {text : Bytes} (h : LOG_LINE_MAX < text.length) :
    none ∈ (logEntry t text).iov.emitted := by
  have hlen : LOG_LINE_MAX < (logEntry t text).len := by
    rcases Nat.lt_or_ge intMax text.length with hbig | hle
    · rw [logEntry_len_overflow hbig]
      decide
    · rwa [logEntry_len hle]
  have hline : (logEntry t text).line.length ≤ LOG_LINE_MAX := by
    simp only [logEntry, snprintfStored, List.length_append, List.length_take,
      List.length_singleton]
    unfold LOG_LINE_MAX
    omega
  exact List.mem_map.mpr ⟨LOG_LINE_MAX, List.mem_range.mpr hlen, List.getElem?_eq_none hline⟩

/-- `GET` of the path that is a slash and `u`. -/
def getPath (u : Bytes) : Http1Req where
  method := lit "GET"
  uri := lit "/" ++ u
  version := lit "HTTP/1.1"
  headers := [⟨lit "Host", lit "h"⟩]

theorem getPath_wf {u : Bytes} (hu : ∀ c ∈ u, c ≠ charByte ' ' ∧ c ≠ charByte '\r')
    (hl : u.length ≤ 4094) : (getPath u).Wf where
  method_len := (by decide : (lit "GET").length ≤ 15)
  method_sep := forall_mem_of_all (m := lit "GET") (by decide)
  uri_len := by
    have hslash : (lit "/").length = 1 := by decide
    simp only [getPath, List.length_append, hslash]
    omega
  uri_sep c hc := by
    have hslash : ∀ c ∈ lit "/", c ≠ charByte ' ' ∧ c ≠ charByte '\r' :=
      forall_mem_of_all (by decide)
    rcases List.mem_append.mp hc with hc | hc
    · exact hslash c hc
    · exact hu c hc
  version_len := (by decide : (lit "HTTP/1.1").length ≤ 15)
  version_sep := forall_mem_of_all (m := lit "HTTP/1.1") (by decide)
  headers_len := (by decide : 1 ≤ 128)
  headers h hm := by
    rw [List.mem_singleton.mp hm]
    exact ⟨by decide, forall_mem_of_all (by decide), by decide, forall_mem_of_all (by decide),
      by decide⟩

theorem length_render_getPath (u : Bytes) : (getPath u).render.length = u.length + 27 := by
  have hhost : (List.flatMap Header.render [⟨lit "Host", lit "h"⟩]).length = 9 := by decide
  have hversion : (lit "HTTP/1.1").length = 8 := by decide
  have hget : (lit "GET").length = 3 := by decide
  have hslash : (lit "/").length = 1 := by decide
  have hspace : (lit " ").length = 1 := by decide
  simp only [Http1Req.render, getPath, List.length_append, hhost, hversion, hget, hslash, hspace,
    crlf, List.length_cons, List.length_nil]
  omega

/-- **The server accepts such a request and its access record is unsound**, as soon as the
path alone is longer than a line. -/
theorem getPath_unsound {u : Bytes} (hu : ∀ c ∈ u, c ≠ charByte ' ' ∧ c ≠ charByte '\r')
    (h0 : 0 ∉ u) (hl : u.length ≤ 4094) (hlong : LOG_LINE_MAX ≤ u.length)
    (remoteIp now : Bytes) (statusCode bodyLen latency tid : ℕ) :
    readHttpHeaders [] [.data (getPath u).render] =
        (.complete (getPath u).render (getPath u).render.length 0, []) ∧
      parseHttp1 .http11 (getPath u).render = (0, getPath u, .http11) ∧
      ¬ RecordOk
        (logEntry .access (accessText remoteIp now (getPath u) statusCode bodyLen latency tid))
        (accessText remoteIp now (getPath u) statusCode bodyLen latency tid) ∧
      none ∈ (logEntry .access
        (accessText remoteIp now (getPath u) statusCode bodyLen latency tid)).iov.emitted := by
  have hwf := getPath_wf hu hl
  have hlen := length_render_getPath u
  have hz : (0 : UInt8) ∉ (getPath u).render := by
    simp only [Http1Req.render, getPath, List.mem_append, not_or, h0, not_false_eq_true]
    decide
  have hblock : IsHeaderBlock (getPath u).render :=
    isHeaderBlock_render hwf hz (by rw [hlen]; unfold MAX_HEADER_SIZE; omega)
  have hmsg : LOG_LINE_MAX <
      (accessText remoteIp now (getPath u) statusCode bodyLen latency tid).length := by
    have huri : (getPath u).uri.length = u.length + 1 := by
      have hslash : (lit "/").length = 1 := by decide
      simp only [getPath, List.length_append, hslash]
      omega
    have := (uri_infix_accessText remoteIp now (getPath u) statusCode bodyLen latency tid).length_le
    omega
  refine ⟨?_, ?_, fun hok => ?_, logEntry_leaks hmsg⟩
  · have hne : (getPath u).render ≠ [] := fun h => by rw [h, List.length_nil] at hlen; omega
    have harr : arrived (getPath u).render.length [.data (getPath u).render] =
        some (getPath u).render.length := by simp [arrived, hne]
    rw [readHttpHeaders_render hblock (by simp [pending]) harr]
    simp [discard, hne]
  · have hup : upgradesToH2c (getPath u) = false :=
      (by decide : ([⟨lit "Host", lit "h"⟩] : List Header).any (fun h =>
        strcasecmpEq h.key (lit "Upgrade") && (strstr h.value (lit "h2c")).isSome) = false)
    have hversion : strcasecmpEq (getPath u).version (lit "HTTP/1.0") = false :=
      (by decide : strcasecmpEq (lit "HTTP/1.1") (lit "HTTP/1.0") = false)
    simp only [parseHttp1, parseFields_render hwf, hup, hversion, Bool.false_eq_true, if_false]
  · have := (RecordOk_iff _ _).mp hok
    omega

/-- `GET` of a path of 2101 bytes: what goes to the access log contains bytes nobody wrote. -/
theorem longUri_unsound :
    let u : Bytes := List.replicate 2100 97
    let text := accessText (lit "127.0.0.1") (lit "01/Jan/1970:00:00:00 +0000") (getPath u) 404 0
      120 1
    readHttpHeaders [] [.data (getPath u).render] =
        (.complete (getPath u).render (getPath u).render.length 0, []) ∧
      parseHttp1 .http11 (getPath u).render = (0, getPath u, .http11) ∧
      ¬ RecordOk (logEntry .access text) text ∧
      none ∈ (logEntry .access text).iov.emitted := by
  have hmem : ∀ c ∈ List.replicate 2100 (97 : UInt8), c = 97 :=
    fun c hc => List.eq_of_mem_replicate hc
  refine getPath_unsound (fun c hc => ?_) (fun h0 => ?_) ?_ ?_ _ _ 404 0 120 1
  · rw [hmem c hc]
    decide
  · exact absurd (hmem 0 h0) (by decide)
  · rw [List.length_replicate]
    decide
  · rw [List.length_replicate]
    decide

end Celeritas
