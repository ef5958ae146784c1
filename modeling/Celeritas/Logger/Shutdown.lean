import Celeritas.Logger.Batch
import Celeritas.Logger.Fifo
import Celeritas.Logger.Warn
import Celeritas.Lib.Rank

/-!
# Shutting the logger down

`logger_shutdown` sets its flag and then waits for `logger_thread`, which leaves its loop only
when it finds the ring empty. By then everything that was committed has been handed to
`writev` (`shutdown_complete`).

Whether it ever finds the ring empty is another matter. Each pass of its loop takes at least
one entry out, but a `writev` that fails puts one in, the warning that it failed. So the
thread takes a number of steps that is bounded by what is in the ring and by how often
`writev` fails (`shutdown_bounded`), and if it never succeeds again there is no end
(`shutdown_hangs`).
-/

set_option autoImplicit false

namespace Celeritas

open CLib Lib

namespace LogSys

variable {ι : Type*}

/-! ## The ring of a logger that is shut down -/

theorem length_contents (L : Logger) :
    L.contents.length = span L.ringSize L.ring.head L.ring.tail := by
  rw [Logger.contents, length_window]

theorem contents_eq_nil {L : Logger} (h : L.Wf) : L.contents = [] ↔ L.ring.tail = L.ring.head := by
  rw [← List.length_eq_zero_iff, length_contents, span_eq_zero h.head_lt h.tail_lt]

/-- The critical section of `logger_thread`: it does not sleep any more. -/
theorem drain_shutdown {L : Logger} (h : L.Wf) (hsd : L.shutdown = true) :
    (L.contents = [] ∧ L.drain = (.finished, L)) ∨
      ∃ b L', b ≠ [] ∧ L.contents = b ++ L'.contents ∧ L.drain = (.batch b, L') ∧
        L'.Wf ∧ L'.shutdown = true := by
  by_cases hempty : L.ring.tail = L.ring.head
  · exact .inl ⟨(contents_eq_nil h).mpr hempty, by simp [Logger.drain, hempty, hsd]⟩
  · obtain ⟨hw, hc, -, -, hs⟩ := Logger.grab_spec BATCH_SIZE h
    refine .inr ⟨_, _, ?_, hc, by simp [Logger.drain, hempty], hw, hs.trans hsd⟩
    rw [BATCH_SIZE, Logger.grab, if_pos (Ne.symm hempty)]
    exact List.cons_ne_nil _ _

/-- `l_warn` stores its message, or finds the ring full and gives up. -/
theorem logWrite_shutdown {L : Logger} (h : L.Wf) (hsd : L.shutdown = true) (text : Bytes) :
    (∃ L', L.logWrite (logEntry .event text) = (.stored, L') ∧
        L'.contents = L.contents ++ [logEntry .event text] ∧ L'.shutdown = true) ∨
      (L.logWrite (logEntry .event text) = (.bailed, L) ∧ L.contents ≠ []) := by
  by_cases hfull : L.nextTail = L.ring.head
  · refine .inr ⟨by simp [Logger.logWrite, Logger.waitNotFull, hfull, hsd], ?_⟩
    rw [Ne, contents_eq_nil h]
    intro hempty
    -- a ring of one slot would be full and empty at once
    obtain ⟨k, hk⟩ := h.size_pow
    have htwo : 2 ≤ L.ringSize := by
      rw [hk, pow_succ]
      have := Nat.two_pow_pos k
      omega
    rw [Logger.nextTail, h.mask, ← hempty] at hfull
    have hlt := h.tail_lt
    rcases Nat.lt_or_ge (L.ring.tail + 1) L.ringSize with hnext | hwrap
    · rw [Nat.mod_eq_of_lt hnext] at hfull
      omega
    · have heq : L.ring.tail + 1 = L.ringSize := by omega
      rw [heq, Nat.mod_self] at hfull
      omega
  · exact .inl ⟨_, by rw [Logger.logWrite, if_neg hfull], L.contents_store h _ hfull, hsd⟩

theorem waitNotFull_shutdown {L : Logger} (hsd : L.shutdown = true) (e : LogEntry) (n : ℕ) :
    L.waitNotFull e n = (.bailed, L) := by
  simp [Logger.waitNotFull, hsd]

/-! ## The steps of the thread -/

/-- The thread is at the `writev` for `t`, and at `next` when it has been done. -/
def Writing (s : LogSys ι) (t : LogTarget) (b : List LogEntry) (next : LoggerPc) : Prop :=
  match t with
  | .access => s.thread = .writeAccess b ∧ next = .writeEvent b
  | .event => s.thread = .writeEvent b ∧ next = .top

/-- What `logger_thread` does when the flag is set. -/
inductive OwnMove (s : LogSys ι) : LogAction ι → LogSys ι → Prop
  | finish (hpc : s.thread = .top ∨ s.thread = .asleep) (hnil : s.log.contents = []) :
      OwnMove s .drain { s with thread := .finished }
  | took (b : List LogEntry) (L : Logger) (hpc : s.thread = .top ∨ s.thread = .asleep)
      (hb : b ≠ []) (hc : s.log.contents = b ++ L.contents) (hsd : L.shutdown = true) :
      OwnMove s .drain { s with log := L, thread := .writeAccess b, removed := s.removed ++ b }
  | nothing (t : LogTarget) (b : List LogEntry) (next : LoggerPc) (ok : Bool)
      (hpc : s.Writing t b next) (hnil : iovFor t b = []) :
      OwnMove s (.writev ok) { s with thread := next }
  | wrote (t : LogTarget) (b : List LogEntry) (next : LoggerPc) (hpc : s.Writing t b next) :
      OwnMove s (.writev true)
        { s with thread := next, writevs := s.writevs ++ [⟨t, iovFor t b, true⟩] }
  | failed (t : LogTarget) (b : List LogEntry) (next : LoggerPc) (hpc : s.Writing t b next) :
      OwnMove s (.writev false)
        { s with thread := .warn, writevs := s.writevs ++ [⟨t, iovFor t b, false⟩] }
  | warned (text : Bytes) (L : Logger) (hpc : s.thread = .warn)
      (hc : L.contents = s.log.contents ++ [logEntry .event text]) (hsd : L.shutdown = true) :
      OwnMove s (.warnCall text)
        { s with log := L, committed := s.committed ++ [logEntry .event text], thread := .top }
  | gaveUp (text : Bytes) (hpc : s.thread = .warn) (hne : s.log.contents ≠ []) :
      OwnMove s (.warnCall text)
        { s with bailed := s.bailed ++ [logEntry .event text], thread := .top }
  | woke (e : LogEntry) (n : ℕ) (hpc : s.thread = .warnWaiting e n) :
      OwnMove s .warnWake { s with bailed := s.bailed ++ [e], thread := .top }

/-- An action of `logger_thread`. -/
def Own : LogAction ι → Prop
  | .drain | .writev _ | .warnCall _ | .warnWake => True
  | .call _ _ _ | .wake _ | .shutdown => False

theorem writevStep_move {s : LogSys ι} {t : LogTarget} {b : List LogEntry} {next : LoggerPc}
    (hpc : s.Writing t b next) (ok : Bool) :
    OwnMove s (.writev ok) (s.writevStep t b ok next) := by
  unfold writevStep
  split
  · exact .nothing t b next ok hpc ‹_›
  · cases ok with
    | true => exact .wrote t b next hpc
    | false => exact .failed t b next hpc

variable [DecidableEq ι]

theorem own_move {s s' : LogSys ι} {a : LogAction ι} (hw : s.log.Wf)
    (hsd : s.log.shutdown = true) (ha : Own a) (hs : s.step a = some s') : OwnMove s a s' := by
  cases a with
  | call i target text => exact ha.elim
  | wake i => exact ha.elim
  | shutdown => exact ha.elim
  | drain =>
    have hpc : s.thread = .top ∨ s.thread = .asleep := by
      cases ht : s.thread <;> simp [step, ht] at hs
      · exact .inl rfl
      · exact .inr rfl
    have hdrain : s' = s.drainStep := by
      rcases hpc with ht | ht
      · simpa [step, ht] using hs.symm
      · simpa [step, ht] using hs.symm
    subst hdrain
    rcases drain_shutdown hw hsd with ⟨hnil, hd⟩ | ⟨b, L, hb, hc, hd, -, hL⟩
    · rw [drainStep, hd]
      exact .finish hpc hnil
    · rw [drainStep, hd]
      exact .took b L hpc hb hc hL
  | writev ok =>
    cases ht : s.thread <;> simp only [step, ht, Option.some.injEq, reduceCtorEq] at hs
    case writeAccess b => exact hs ▸ writevStep_move (t := .access) ⟨ht, rfl⟩ ok
    case writeEvent b => exact hs ▸ writevStep_move (t := .event) ⟨ht, rfl⟩ ok
  | warnCall text =>
    cases ht : s.thread <;> simp only [step, ht, Option.some.injEq, reduceCtorEq] at hs
    subst hs
    rcases logWrite_shutdown hw hsd text with ⟨L, hlog, hc, hL⟩ | ⟨hlog, hne⟩
    · rw [hlog]
      exact .warned text L ht hc hL
    · rw [hlog]
      exact .gaveUp text ht hne
  | warnWake =>
    cases ht : s.thread <;> simp only [step, ht, Option.some.injEq, reduceCtorEq] at hs
    rename_i e n
    subst hs
    rw [waitNotFull_shutdown hsd]
    exact .woke e n ht

omit [DecidableEq ι] in
theorem OwnMove.shutdown {s s' : LogSys ι} {a : LogAction ι} (h : OwnMove s a s')
    (hsd : s.log.shutdown = true) : s'.log.shutdown = true := by
  cases h <;> assumption

/-! ## How long it takes -/

/-- The calls of `writev` that have failed. -/
def failures (s : LogSys ι) : ℕ := s.writevs.countP fun w => !w.ok

/-- What is left to do, if no `writev` fails: three steps for each entry, and those of the
pass the thread is in. -/
def rank (s : LogSys ι) : ℕ :=
  3 * s.log.contents.length +
    match s.thread with
    | .finished => 0
    | .top | .asleep => 1
    | .warnWaiting _ _ => 2
    | .writeEvent _ => 2
    | .writeAccess _ => 3
    | .warn => 5

omit [DecidableEq ι] in
/-- A step brings the end nearer, unless it is a `writev` that fails. -/
theorem OwnMove.rank_lt {s s' : LogSys ι} {a : LogAction ι} (h : OwnMove s a s') :
    s'.rank + 1 + 4 * s.failures ≤ s.rank + 4 * s'.failures := by
  cases h with
  | finish hpc hnil =>
    rcases hpc with hpc | hpc <;> simp only [rank, failures, hpc] <;> omega
  | took b L hpc hb hc hsd =>
    have hpos : 0 < b.length := List.length_pos_iff.mpr hb
    have hlen : s.log.contents.length = b.length + L.contents.length := by
      rw [hc, List.length_append]
    rcases hpc with hpc | hpc <;> simp only [rank, failures, hpc] <;> omega
  | nothing t b next ok hpc hnil =>
    cases t with
    | access =>
      obtain ⟨hpc, rfl⟩ := hpc
      simp only [rank, failures, hpc]
      omega
    | event =>
      obtain ⟨hpc, rfl⟩ := hpc
      simp only [rank, failures, hpc]
      omega
  | wrote t b next hpc =>
    cases t with
    | access =>
      obtain ⟨hpc, rfl⟩ := hpc
      simp [rank, failures, hpc]
    | event =>
      obtain ⟨hpc, rfl⟩ := hpc
      simp [rank, failures, hpc]
  | failed t b next hpc =>
    cases t with
    | access =>
      obtain ⟨hpc, -⟩ := hpc
      simp [rank, failures, hpc]
      omega
    | event =>
      obtain ⟨hpc, -⟩ := hpc
      simp [rank, failures, hpc]
      omega
  | warned text L hpc hc hsd =>
    simp only [rank, failures, hpc, hc, List.length_append, List.length_singleton]
    omega
  | gaveUp text hpc hne =>
    simp only [rank, failures, hpc]
    omega
  | woke e n hpc =>
    simp only [rank, failures, hpc]
    omega

omit [DecidableEq ι] in
theorem rank_le (s : LogSys ι) : s.rank ≤ 3 * s.log.contents.length + 5 := by
  unfold rank
  split <;> omega

/-- Until it has finished there is something it can do. -/
theorem exists_own_step {s : LogSys ι} (h : s.thread ≠ .finished) :
    ∃ a : LogAction ι, Own a ∧ a ≠ .writev true ∧ (s.step a).isSome = true := by
  cases ht : s.thread with
  | top => exact ⟨.drain, trivial, by simp, by simp [step, ht]⟩
  | asleep => exact ⟨.drain, trivial, by simp, by simp [step, ht]⟩
  | writeAccess b => exact ⟨.writev false, trivial, by simp, by simp [step, ht]⟩
  | writeEvent b => exact ⟨.writev false, trivial, by simp, by simp [step, ht]⟩
  | warn => exact ⟨.warnCall [], trivial, by simp, by simp [step, ht]⟩
  | warnWaiting e n => exact ⟨.warnWake, trivial, by simp, by simp [step, ht]⟩
  | finished => exact absurd ht h

theorem wf_of_run {k : ℕ} {as : List (LogAction ι)} {s : LogSys ι}
    (h : run step (init (2 ^ (k + 1))) as = some s) : s.Wf :=
  (along_of_inv (fun _ _ _ hw hs => hw.step hs) as (init_wf k)).last h

/-- What the two theorems about the end of the thread start from. -/
theorem own_step_inv {s s' : LogSys ι} {a : LogAction ι}
    (h : s.Wf ∧ s.log.shutdown = true) (ha : Own a) (hs : s.step a = some s') :
    s'.Wf ∧ s'.log.shutdown = true :=
  ⟨h.1.step hs, (own_move h.1.log h.2 ha hs).shutdown h.2⟩

/-- **`logger_thread` ends unless `writev` keeps failing.** In every state in which
`logger_shutdown` waits for it, it takes at most three steps for each entry in the ring, five
more, and four for each `writev` that fails; and until it has finished it can take one. -/
theorem shutdown_bounded (k : ℕ) (before as : List (LogAction ι)) {s t : LogSys ι}
    (hbefore : run step (init (2 ^ (k + 1))) before = some s) (hsd : s.log.shutdown = true)
    (hown : ∀ a ∈ as, Own a) (h : run step s as = some t) :
    as.length ≤ 3 * s.log.contents.length + 5 + 4 * (t.failures - s.failures) ∧
      (t.thread ≠ .finished → ∃ a : LogAction ι, Own a ∧ (t.step a).isSome = true) := by
  constructor
  · have hpaid : ∀ (u : LogSys ι) a u', u.Wf ∧ u.log.shutdown = true → Own a →
        u.step a = some u' → u'.rank + 1 + 4 * u.failures ≤ u.rank + 4 * u'.failures :=
      fun _ _ _ hi ha hs => (own_move hi.1.log hi.2 ha hs).rank_lt
    have hlen := length_le_of_rank (fun _ _ _ => own_step_inv) hpaid hown
      ⟨wf_of_run hbefore, hsd⟩ h
    have hrank := s.rank_le
    omega
  · intro hpc
    obtain ⟨a, ha, -, hs⟩ := exists_own_step hpc
    exact ⟨a, ha, hs⟩

/-- One entry, and the flag is set. -/
def lastWords : List (LogAction Bool) := [.call true .event [97], .shutdown]

/-- Its write fails once, and the warning is written. -/
def failOnce : List (LogAction Bool) :=
  [.drain, .writev true, .writev false, .warnCall [98], .drain, .writev true, .writev true, .drain]

theorem shutdown_bounded_failOnce : ∃ s t : LogSys Bool,
    run step (init (2 ^ 1)) lastWords = some s ∧ run step s failOnce = some t ∧
      t.thread = .finished ∧ t.failures = 1 ∧
      failOnce.length ≤ 3 * s.log.contents.length + 5 + 4 * (t.failures - s.failures) ∧
      (t.thread ≠ .finished → ∃ a : LogAction Bool, Own a ∧ (t.step a).isSome = true) :=
  ⟨_, _, rfl, rfl, rfl, rfl, shutdown_bounded 0 lastWords failOnce rfl rfl
    (by simp [failOnce, Own]) rfl⟩

/-! ## When every write fails -/

/-- There is something to write, or to say about a write that failed. -/
structure Unwritten (s : LogSys ι) : Prop where
  running : s.thread ≠ .finished
  something : s.log.contents ≠ [] ∨ s.thread = .warn ∨
    (∃ b, s.thread = .writeAccess b ∧ b ≠ []) ∨
    ∃ b, s.thread = .writeEvent b ∧ iovFor .event b ≠ []

omit [DecidableEq ι] in
/-- Each entry is for one of the logs. -/
theorem iovFor_ne_nil {b : List LogEntry} (hb : b ≠ []) (h : iovFor .access b = []) :
    iovFor .event b ≠ [] := by
  cases b with
  | nil => exact absurd rfl hb
  | cons e b =>
    obtain ⟨target, len, line⟩ := e
    cases target with
    | access => simp [iovFor] at h
    | event => simp [iovFor]

omit [DecidableEq ι] in
theorem OwnMove.unwritten {s s' : LogSys ι} {a : LogAction ι} (hm : OwnMove s a s')
    (ha : a ≠ .writev true) (h : s.Unwritten) : s'.Unwritten := by
  obtain ⟨-, hsome⟩ := h
  cases hm with
  | finish hpc hnil =>
    rcases hpc with hpc | hpc <;> simp [hpc, hnil] at hsome
  | took b L hpc hb hc hsd => exact ⟨by simp, .inr (.inr (.inl ⟨b, rfl, hb⟩))⟩
  | nothing t b next ok hpc hnil =>
    cases t with
    | access =>
      obtain ⟨hpc, rfl⟩ := hpc
      refine ⟨by simp, ?_⟩
      rcases hsome with hne | hwarn | ⟨b', hb', hne⟩ | ⟨b', hb', -⟩
      · exact .inl hne
      · simp [hpc] at hwarn
      · obtain rfl := LoggerPc.writeAccess.inj (hpc.symm.trans hb')
        exact .inr (.inr (.inr ⟨b, rfl, iovFor_ne_nil hne hnil⟩))
      · simp [hpc] at hb'
    | event =>
      obtain ⟨hpc, rfl⟩ := hpc
      refine ⟨by simp, ?_⟩
      rcases hsome with hne | hwarn | ⟨b', hb', -⟩ | ⟨b', hb', hne⟩
      · exact .inl hne
      · simp [hpc] at hwarn
      · simp [hpc] at hb'
      · obtain rfl := LoggerPc.writeEvent.inj (hpc.symm.trans hb')
        exact absurd hnil hne
  | wrote t b next hpc => exact absurd rfl ha
  | failed t b next hpc => exact ⟨by simp, .inr (.inl rfl)⟩
  | warned text L hpc hc hsd => exact ⟨by simp, .inl (by simp [hc])⟩
  | gaveUp text hpc hne => exact ⟨by simp, .inl hne⟩
  | woke e n hpc =>
    refine ⟨by simp, .inl ?_⟩
    simpa [hpc] using hsome

/-- **It never ends if no write succeeds**, and the ring was not empty when the flag was set:
each warning that a write has failed is the next entry to be written. -/
theorem shutdown_hangs (k : ℕ) (before as : List (LogAction ι)) {s t : LogSys ι}
    (hbefore : run step (init (2 ^ (k + 1))) before = some s) (hsd : s.log.shutdown = true)
    (hne : s.log.contents ≠ []) (hpc : s.thread ≠ .finished)
    (hown : ∀ a ∈ as, Own a ∧ a ≠ .writev true) (h : run step s as = some t) :
    t.thread ≠ .finished ∧
      ∃ a : LogAction ι, Own a ∧ a ≠ .writev true ∧ (t.step a).isSome = true := by
  have hinv : (t.Wf ∧ t.log.shutdown = true) ∧ t.Unwritten := by
    refine inv_of_run (I := fun s => (s.Wf ∧ s.log.shutdown = true) ∧ s.Unwritten) ?_ hown
      ⟨⟨wf_of_run hbefore, hsd⟩, hpc, .inl hne⟩ h
    rintro u a u' ⟨hi, hu⟩ ⟨ha, hfail⟩ hs
    exact ⟨own_step_inv hi ha hs, (own_move hi.1.log hi.2 ha hs).unwritten hfail hu⟩
  exact ⟨hinv.2.running, exists_own_step hinv.2.running⟩

/-- The warning that the write failed is not written either. -/
def failTwice : List (LogAction Bool) :=
  [.drain, .writev false, .writev false, .warnCall [98], .drain, .writev false, .writev false]

theorem shutdown_hangs_failTwice : ∃ s t : LogSys Bool,
    run step (init (2 ^ 1)) lastWords = some s ∧ run step s failTwice = some t ∧
      t.thread ≠ .finished ∧
      ∃ a : LogAction Bool, Own a ∧ a ≠ .writev true ∧ (t.step a).isSome = true :=
  ⟨_, _, rfl, rfl, shutdown_hangs 0 lastWords failTwice rfl rfl (by decide) (by decide)
    (by simp [failTwice, Own]) rfl⟩

/-! ## What has been written when it ends -/

/-- The other threads do not log any more once it has ended. -/
def Silent (s : LogSys ι) (a : LogAction ι) (_ : LogSys ι) : Prop :=
  s.thread = .finished → ∀ i target text, a ≠ .call i target text

/-- It ends with an empty ring, which stays empty. -/
def Emptied (s : LogSys ι) : Prop :=
  s.thread = .finished → s.log.contents = [] ∧ s.log.shutdown = true

omit [DecidableEq ι] in
theorem Emptied.of_thread {s : LogSys ι} (h : s.thread ≠ .finished) : s.Emptied :=
  fun hpc => absurd hpc h

theorem Emptied.step {s s' : LogSys ι} {a : LogAction ι} (h : s.Emptied) (hw : s.Wf)
    (hsilent : s.Silent a s') (hs : s.step a = some s') : s'.Emptied := by
  cases a with
  | call i target text =>
    -- nobody calls any more, and before that the thread has not finished
    have hpc : s.thread ≠ .finished := fun hpc => hsilent hpc i target text rfl
    cases hp : s.producer i <;> simp only [LogSys.step, hp, Option.some.injEq, reduceCtorEq] at hs
    subst hs
    exact .of_thread ((s.settle_records _ _).2.2.trans_ne hpc)
  | wake i =>
    cases hp : s.producer i <;> simp only [LogSys.step, hp, Option.some.injEq, reduceCtorEq] at hs
    rename_i e n
    subst hs
    intro hpc
    obtain ⟨hnil, hsd⟩ := h ((s.settle_records _ _).2.2.symm.trans hpc)
    -- who was asleep gives up
    rw [waitNotFull_shutdown hsd]
    exact ⟨hnil, hsd⟩
  | drain =>
    cases hsd : s.log.shutdown with
    | true =>
      cases own_move hw.log hsd (show Own (.drain : LogAction ι) from trivial) hs with
      | finish hpc hnil => exact fun _ => ⟨hnil, hsd⟩
      | took b L hpc hb hc hL => exact .of_thread (by simp)
    | false =>
      have hdrain : s' = s.drainStep := by
        cases ht : s.thread <;> simp [LogSys.step, ht] at hs <;> exact hs.symm
      subst hdrain
      unfold drainStep
      rcases s.log.drain_cases with ⟨hd | hd, hempty⟩ | hd
      · rw [hd]
        exact .of_thread (by simp)
      · simp [Logger.drain, hempty, hsd] at hd
      · rw [hd]
        exact .of_thread (by simp)
  | writev ok =>
    cases ht : s.thread <;> simp only [LogSys.step, ht, Option.some.injEq, reduceCtorEq] at hs
    · subst hs
      apply Emptied.of_thread
      rw [thread_writevStep]
      split <;> simp
    · subst hs
      apply Emptied.of_thread
      rw [thread_writevStep]
      split <;> simp
  | warnCall text =>
    cases ht : s.thread <;> simp only [LogSys.step, ht, Option.some.injEq, reduceCtorEq] at hs
    subst hs
    apply Emptied.of_thread
    cases hx : (s.log.logWrite (logEntry .event text)).1 <;>
      simp [warnStep, WriteExit.loggerPc, hx]
  | warnWake =>
    cases ht : s.thread <;> simp only [LogSys.step, ht, Option.some.injEq, reduceCtorEq] at hs
    rename_i e n
    subst hs
    apply Emptied.of_thread
    cases hx : (s.log.waitNotFull e n).1 <;> simp [warnStep, WriteExit.loggerPc, hx]
  | shutdown =>
    obtain rfl := Option.some.inj hs
    exact fun hpc => ⟨(h hpc).1, rfl⟩

/-- **When `logger_thread` has ended, everything that was committed has been handed to
`writev`**, for each log in its order: in every run in which no sleeper stores with an old
`next_tail`, no write to the access log takes event messages with it, and nobody logs after
the thread has ended. -/
theorem shutdown_complete (k : ℕ) (as : List (LogAction ι))
    (hfresh : EachStep step Fresh (init (2 ^ (k + 1)) : LogSys ι) as)
    (hspared : EachStep step EventsSpared (init (2 ^ (k + 1)) : LogSys ι) as)
    (hsilent : EachStep step Silent (init (2 ^ (k + 1)) : LogSys ι) as) :
    Along step (fun s => s.thread = .finished → ∀ t, s.handed t = iovFor t s.committed)
      (init (2 ^ (k + 1)) : LogSys ι) as := by
  let P (s : LogSys ι) : Prop :=
    s.Wf ∧ s.removed ++ s.log.contents = s.committed ∧ s.Complete ∧ s.Emptied
  have hinit : P (init (2 ^ (k + 1))) := by
    refine ⟨init_wf k, ?_, ?_, .of_thread (by simp [init])⟩
    · rw [show (init (2 ^ (k + 1)) : LogSys ι).log = Logger.init (2 ^ (k + 1)) from rfl,
        Logger.contents_init _ (Nat.two_pow_pos _)]
      rfl
    · intro t
      cases t <;> rfl
  have hstep : ∀ s a s', P s → s.step a = some s' →
      (s.Fresh a s' ∧ s.EventsSpared a s') ∧ s.Silent a s' → P s' := by
    rintro s a s' ⟨hw, hfifo, hcomplete, hemptied⟩ hs ⟨⟨hf, he⟩, hsil⟩
    exact ⟨hw.step hs, (fifo_step_iff hw hfifo hs).mpr hf, (complete_step_iff hcomplete hs).mpr he,
      hemptied.step hw hsil hs⟩
  refine ((hfresh.and hspared).and hsilent |>.along hstep hinit).mono ?_
  rintro s ⟨-, hfifo, hcomplete, hemptied⟩ hpc t
  have ht := hcomplete t
  rw [pending_eq_nil (by simp [hpc]) (by simp [hpc]), List.append_nil] at ht
  rw [ht, ← hfifo, (hemptied hpc).1, List.append_nil]

/-- Two threads log to both logs. -/
def threeMessages : List (LogAction Bool) :=
  [.call true .event [97], .call false .access [98], .call true .event [99]]

/-- The entries are written, and the ring is found empty. -/
def cleanEnd : List (LogAction Bool) :=
  threeMessages ++ [.shutdown, .drain, .writev true, .writev true, .drain]

theorem shutdown_complete_cleanEnd : ∃ s : LogSys Bool,
    run step (init (2 ^ 2)) cleanEnd = some s ∧ s.thread = .finished ∧
      s.committed = [logEntry .event [97], logEntry .access [98], logEntry .event [99]] ∧
      ∀ t, s.handed t = iovFor t s.committed := by
  have hfresh : EachStep step Fresh (init (2 ^ 2) : LogSys Bool) cleanEnd := by
    have hnone : ∀ a ∈ cleanEnd, ∀ s : LogSys Bool, s.sleeper a = none := by
      simp [cleanEnd, threeMessages, sleeper]
    refine (EachStep.of_forall_mem hnone _).mono ?_
    intro s a s' hnone e n he
    rw [hnone s] at he
    cases he
  have hspared : EachStep step EventsSpared (init (2 ^ 2) : LogSys Bool) cleanEnd := by
    have hne : ∀ a ∈ cleanEnd, a ≠ .writev false := by
      simp [cleanEnd, threeMessages]
    refine (EachStep.of_forall_mem hne _).mono ?_
    exact fun s a s' hne b ha => absurd ha hne
  have hsilent : EachStep step Silent (init (2 ^ 2) : LogSys Bool) cleanEnd := by
    -- the thread does not run before the last message, and nobody logs after it
    intro s₁ h₁
    obtain rfl := Option.some.inj h₁
    refine ⟨fun hpc => absurd hpc (by decide), fun s₂ h₂ => ?_⟩
    obtain rfl := Option.some.inj h₂
    refine ⟨fun hpc => absurd hpc (by decide), fun s₃ h₃ => ?_⟩
    refine ⟨fun hpc => absurd hpc (by decide), ?_⟩
    refine EachStep.mono (C := fun _ a _ => ∀ i target text, a ≠ .call i target text) ?_
      (EachStep.of_forall_mem (by simp) _)
    exact fun s a s' hne _ => hne
  refine ⟨_, rfl, rfl, rfl, ?_⟩
  exact (shutdown_complete 1 _ hfresh hspared hsilent).last rfl rfl

end LogSys

end Celeritas
