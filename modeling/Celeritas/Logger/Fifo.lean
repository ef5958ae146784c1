import Celeritas.Logger.System

/-!
# The log ring as a queue

What the ring is for: the entries `logger_thread` has removed, followed by those in the
ring, are the entries committed, in order (`RingFaithful`).

It is so as long as a `log_write` that slept stores into a ring whose tail has not moved
meanwhile (`Fresh`), and no longer: a sleeper that comes back with the `next_tail` of an
older tail writes its entry to the present tail's slot and then sets the tail to the old
one's successor. The number of entries between head and tail no longer grows by one, so
its own entry, or one committed while it slept, is in no place the logger will look at.
`ringFaithful_iff_fresh` says both halves at once, over every run.
-/

set_option autoImplicit false

namespace Celeritas

open CLib Lib

variable {ι : Type*}

/-! ## Every step has one of three effects -/

/-- The effect of a step does not depend on the program counters it leaves behind. -/
theorem LogSys.Effect.congr {s s' s'' : LogSys ι} {a : LogAction ι} (h : s.Effect a s')
    (hlog : s''.log = s'.log) (hcom : s''.committed = s'.committed)
    (hrem : s''.removed = s'.removed) : s.Effect a s'' := by
  cases h with
  | quiet h₀ h₁ h₂ h₃ h₄ =>
    exact .quiet (by rw [hlog, h₀]) (by rw [hlog, h₁]) (by rw [hcom, h₂]) (by rw [hrem, h₃]) h₄
  | stored e n h₀ h₁ h₂ h₃ h₄ h₅ =>
    exact .stored e n (by rw [hlog, h₀]) (by rw [hlog, h₁]) (by rw [hcom, h₂])
      (by rw [hrem, h₃]) h₄ h₅
  | took b h₁ h₂ h₃ h₄ =>
    exact .took b (by rw [hlog, h₁]) (by rw [hcom, h₂]) (by rw [hrem, h₃]) h₄

theorem LogSys.effect_logWrite {s : LogSys ι} {a : LogAction ι} (e : LogEntry)
    (ha : s.sleeper a = none) : s.Effect a (s.settle e (s.log.logWrite e)) := by
  rcases s.log.logWrite_cases e with ⟨h, hne⟩ | ⟨h, _⟩ | ⟨h, _⟩ | ⟨h, _⟩ <;> rw [h]
  · exact .stored e s.log.nextTail rfl rfl rfl rfl hne (.inl ⟨rfl, ha⟩)
  all_goals exact .quiet rfl rfl rfl rfl (by simp [ha])

theorem LogSys.effect_waitNotFull {s : LogSys ι} {a : LogAction ι} {e : LogEntry} {n : ℕ}
    (ha : s.sleeper a = some (e, n)) : s.Effect a (s.settle e (s.log.waitNotFull e n)) := by
  rcases s.log.waitNotFull_cases e n with ⟨h, hn⟩ | ⟨h, hs⟩ | ⟨h, hne, hs⟩ <;> rw [h]
  · refine .quiet rfl rfl rfl rfl fun e' n' h' => ?_
    rw [ha, Option.some.injEq, Prod.mk.injEq] at h'
    exact .inl (h'.2 ▸ hn)
  · exact .quiet rfl rfl rfl rfl fun _ _ _ => .inr hs
  · exact .stored e n rfl rfl rfl rfl hne (.inr ⟨hs, ha⟩)

theorem LogSys.effect_drain {s : LogSys ι} {a : LogAction ι} (ha : s.sleeper a = none) :
    s.Effect a s.drainStep := by
  unfold LogSys.drainStep
  rcases s.log.drain_cases with ⟨h | h, _⟩ | h <;> rw [h]
  · exact .quiet rfl rfl rfl rfl (by simp [ha])
  · exact .quiet rfl rfl rfl rfl (by simp [ha])
  · exact .took _ rfl rfl rfl ha

variable [DecidableEq ι]

theorem LogSys.step_effect {s s' : LogSys ι} {a : LogAction ι} (h : s.step a = some s') :
    s.Effect a s' := by
  cases a with
  | call i target text =>
    cases hp : s.producer i <;> simp only [LogSys.step, hp, Option.some.injEq, reduceCtorEq] at h
    exact h ▸ (LogSys.effect_logWrite _ rfl).congr rfl rfl rfl
  | wake i =>
    cases hp : s.producer i <;> simp only [LogSys.step, hp, Option.some.injEq, reduceCtorEq] at h
    exact h ▸ (LogSys.effect_waitNotFull (by simp [LogSys.sleeper, hp])).congr rfl rfl rfl
  | drain =>
    cases ht : s.thread <;> simp only [LogSys.step, ht, Option.some.injEq, reduceCtorEq] at h <;>
      exact h ▸ LogSys.effect_drain rfl
  | writev ok =>
    cases ht : s.thread <;> simp only [LogSys.step, ht, Option.some.injEq, reduceCtorEq] at h
    all_goals
      subst h
      unfold LogSys.writevStep
      split <;> exact .quiet rfl rfl rfl rfl (by simp [LogSys.sleeper])
  | warnCall text =>
    cases ht : s.thread <;> simp only [LogSys.step, ht, Option.some.injEq, reduceCtorEq] at h
    exact h ▸ (LogSys.effect_logWrite _ rfl).congr rfl rfl rfl
  | warnWake =>
    cases ht : s.thread <;> simp only [LogSys.step, ht, Option.some.injEq, reduceCtorEq] at h
    exact h ▸ (LogSys.effect_waitNotFull (by simp [LogSys.sleeper, ht])).congr rfl rfl rfl
  | shutdown =>
    simp only [LogSys.step, Option.some.injEq] at h
    exact h ▸ .quiet rfl rfl rfl rfl (by simp [LogSys.sleeper])

/-! ## Indices and bookkeeping that hold on every run -/

/-- What no schedule can break: indices stay inside the array, those of the sleepers
included, only access messages are dropped, and before a shutdown nobody bails out. -/
structure LogSys.Wf (s : LogSys ι) : Prop where
  log : s.log.Wf
  sleeper_lt : ∀ a e n, s.sleeper a = some (e, n) → n < s.log.ringSize
  dropped_access : ∀ e ∈ s.dropped, e.target = .access
  none_bailed : s.log.shutdown = false → s.bailed = []

omit [DecidableEq ι] in
theorem LogSys.Wf.producer_lt {s : LogSys ι} (h : s.Wf) {i : ι} {e : LogEntry} {n : ℕ}
    (hp : s.producer i = .waiting e n) : n < s.log.ringSize :=
  h.sleeper_lt (.wake i) e n (by simp [LogSys.sleeper, hp])

omit [DecidableEq ι] in
theorem LogSys.Wf.thread_lt {s : LogSys ι} (h : s.Wf) {e : LogEntry} {n : ℕ}
    (ht : s.thread = .warnWaiting e n) : n < s.log.ringSize :=
  h.sleeper_lt .warnWake e n (by simp [LogSys.sleeper, ht])

omit [DecidableEq ι] in
theorem LogSys.Wf.of_parts {s : LogSys ι} (hlog : s.log.Wf)
    (hp : ∀ i e n, s.producer i = .waiting e n → n < s.log.ringSize)
    (ht : ∀ e n, s.thread = .warnWaiting e n → n < s.log.ringSize)
    (hd : ∀ e ∈ s.dropped, e.target = .access)
    (hb : s.log.shutdown = false → s.bailed = []) : s.Wf := by
  refine ⟨hlog, fun a e n ha => ?_, hd, hb⟩
  cases a with
  | wake i =>
    cases hi : s.producer i with
    | idle => simp [LogSys.sleeper, hi] at ha
    | waiting e' n' =>
      simp only [LogSys.sleeper, hi, Option.some.injEq, Prod.mk.injEq] at ha
      exact hp i e n (by rw [hi, ha.1, ha.2])
  | warnWake =>
    cases hth : s.thread with
    | warnWaiting e' n' =>
      simp only [LogSys.sleeper, hth, Option.some.injEq, Prod.mk.injEq] at ha
      exact ht e n (by rw [hth, ha.1, ha.2])
    | _ => simp [LogSys.sleeper, hth] at ha
  | _ => simp [LogSys.sleeper] at ha

omit [DecidableEq ι] in
theorem LogSys.init_wf (k : ℕ) : (LogSys.init (2 ^ (k + 1)) : LogSys ι).Wf :=
  .of_parts (Logger.init_wf k) (fun _ _ _ h => by simp [LogSys.init] at h)
    (fun _ _ h => by simp [LogSys.init] at h) (fun _ h => by simp [LogSys.init] at h)
    (fun _ => rfl)

/-- What an exit of `log_write` may be, with the `next_tail` it was tested against. -/
structure WriteOk (L : Logger) (e : LogEntry) (r : WriteExit × Logger) : Prop where
  log : r.2.Wf
  size : r.2.ringSize = L.ringSize
  shutdown : r.2.shutdown = L.shutdown
  waiting : ∀ n, r.1 = .waiting n → n < L.ringSize
  dropped : r.1 = .dropped → e.target = .access
  bailed : r.1 = .bailed → L.shutdown = true

theorem Logger.waitNotFull_ok {L : Logger} (h : L.Wf) (e : LogEntry) {n : ℕ}
    (hn : n < L.ringSize) : WriteOk L e (L.waitNotFull e n) := by
  rcases L.waitNotFull_cases e n with ⟨hr, _⟩ | ⟨hr, hs⟩ | ⟨hr, _⟩ <;> rw [hr]
  · exact ⟨h, rfl, rfl, fun m hm => by cases hm; exact hn, by simp, by simp⟩
  · exact ⟨h, rfl, rfl, by simp, by simp, fun _ => hs⟩
  · exact ⟨h.store e hn, rfl, rfl, by simp, by simp, by simp⟩

theorem Logger.logWrite_ok {L : Logger} (h : L.Wf) (e : LogEntry) :
    WriteOk L e (L.logWrite e) := by
  rcases L.logWrite_cases e with ⟨hr, _⟩ | ⟨hr, _, ht⟩ | ⟨hr, hs⟩ | ⟨hr, _⟩ <;> rw [hr]
  · exact ⟨h.store e h.nextTail_lt, rfl, rfl, by simp, by simp, by simp⟩
  · exact ⟨h, rfl, rfl, by simp, fun _ => ht, by simp⟩
  · exact ⟨h, rfl, rfl, by simp, by simp, fun _ => hs⟩
  · exact ⟨h, rfl, rfl, fun m hm => by cases hm; exact h.nextTail_lt, by simp, by simp⟩

omit [DecidableEq ι] in
/-- Recording the exit keeps everything but the program counter of the thread that made
it, which `of_parts` is given separately. -/
theorem LogSys.Wf.settle {s : LogSys ι} (h : s.Wf) {e : LogEntry} {r : WriteExit × Logger}
    (hr : WriteOk s.log e r) : (s.settle e r).Wf := by
  obtain ⟨x, L⟩ := r
  have hp : ∀ i e n, s.producer i = .waiting e n → n < L.ringSize :=
    fun i e n hi => hr.size ▸ h.producer_lt hi
  have ht : ∀ e n, s.thread = .warnWaiting e n → n < L.ringSize :=
    fun e n hi => hr.size ▸ h.thread_lt hi
  have hb : L.shutdown = false → s.bailed = [] := fun hs => h.none_bailed (hr.shutdown ▸ hs)
  cases x with
  | stored => exact .of_parts hr.log hp ht h.dropped_access hb
  | dropped =>
    refine .of_parts hr.log hp ht (fun e' he => ?_) hb
    rcases List.mem_append.mp he with he | he
    · exact h.dropped_access e' he
    · rw [List.mem_singleton.mp he]
      exact hr.dropped rfl
  | bailed =>
    refine .of_parts hr.log hp ht h.dropped_access fun hs => ?_
    have : L.shutdown = true := hr.shutdown.trans (hr.bailed rfl)
    exact absurd (hs.symm.trans this) (by simp)
  | waiting n => exact .of_parts hr.log hp ht h.dropped_access hb

theorem LogSys.Wf.producerStep {s : LogSys ι} (h : s.Wf) {i : ι} {e : LogEntry}
    {r : WriteExit × Logger} (hr : WriteOk s.log e r) : (s.producerStep i e r).Wf := by
  have hw := h.settle hr
  have hlog : (s.settle e r).log = r.2 := by cases hx : r.1 <;> simp [LogSys.settle, hx]
  refine .of_parts hw.log (fun j e' n hj => ?_) (fun e' n ht => hw.thread_lt ht)
    hw.dropped_access hw.none_bailed
  change n < (s.settle e r).log.ringSize
  by_cases hji : j = i
  · subst hji
    change Function.update _ j _ j = _ at hj
    rw [Function.update_self] at hj
    cases hx : r.1 <;> simp only [hx, WriteExit.producerPc, reduceCtorEq,
      ProducerPc.waiting.injEq] at hj
    rw [hlog, hr.size, ← hj.2]
    exact hr.waiting _ hx
  · change Function.update _ i _ j = _ at hj
    rw [Function.update_of_ne hji] at hj
    exact hlog ▸ hr.size ▸ h.producer_lt hj

omit [DecidableEq ι] in
theorem LogSys.Wf.warnStep {s : LogSys ι} (h : s.Wf) {e : LogEntry}
    {r : WriteExit × Logger} (hr : WriteOk s.log e r) : (s.warnStep e r).Wf := by
  have hw := h.settle hr
  have hlog : (s.settle e r).log = r.2 := by cases hx : r.1 <;> simp [LogSys.settle, hx]
  refine .of_parts hw.log (fun j e' n hj => hw.producer_lt hj) (fun e' n ht => ?_)
    hw.dropped_access hw.none_bailed
  change n < (s.settle e r).log.ringSize
  change r.1.loggerPc e = _ at ht
  cases hx : r.1 <;> simp only [hx, WriteExit.loggerPc, reduceCtorEq,
    LoggerPc.warnWaiting.injEq] at ht
  rw [hlog, hr.size, ← ht.2]
  exact hr.waiting _ hx

omit [DecidableEq ι] in
theorem LogSys.Wf.drainStep {s : LogSys ι} (h : s.Wf) : s.drainStep.Wf := by
  unfold LogSys.drainStep
  rcases s.log.drain_cases with ⟨hd | hd, _⟩ | hd <;> rw [hd]
  · exact .of_parts h.log (fun _ _ _ hi => h.producer_lt hi) (by simp) h.dropped_access
      h.none_bailed
  · exact .of_parts h.log (fun _ _ _ hi => h.producer_lt hi) (by simp) h.dropped_access
      h.none_bailed
  · obtain ⟨hw, _, _, hsize, hsd⟩ := Logger.grab_spec BATCH_SIZE h.log
    exact .of_parts hw (fun _ _ _ hi => hsize ▸ h.producer_lt hi) (by simp) h.dropped_access
      (fun hf => h.none_bailed (hsd ▸ hf))

omit [DecidableEq ι] in
theorem LogSys.Wf.writevStep {s : LogSys ι} (h : s.Wf) {t : LogTarget} {b : List LogEntry}
    {ok : Bool} {next : LoggerPc} (hnext : ∀ e n, next ≠ .warnWaiting e n) :
    (s.writevStep t b ok next).Wf := by
  unfold LogSys.writevStep
  split
  · exact .of_parts h.log (fun _ _ _ hi => h.producer_lt hi)
      (fun e n ht => absurd ht (hnext e n)) h.dropped_access h.none_bailed
  · refine .of_parts h.log (fun _ _ _ hi => h.producer_lt hi) (fun e n ht => ?_)
      h.dropped_access h.none_bailed
    cases ok
    · simp at ht
    · exact absurd ht (hnext e n)

theorem LogSys.Wf.step {s s' : LogSys ι} {a : LogAction ι} (h : s.Wf)
    (hs : s.step a = some s') : s'.Wf := by
  cases a with
  | call i target text =>
    cases hp : s.producer i <;> simp only [LogSys.step, hp, Option.some.injEq, reduceCtorEq] at hs
    exact hs ▸ h.producerStep (Logger.logWrite_ok h.log _)
  | wake i =>
    cases hp : s.producer i <;> simp only [LogSys.step, hp, Option.some.injEq, reduceCtorEq] at hs
    exact hs ▸ h.producerStep (Logger.waitNotFull_ok h.log _ (h.producer_lt hp))
  | drain =>
    cases ht : s.thread <;> simp only [LogSys.step, ht, Option.some.injEq, reduceCtorEq] at hs <;>
      exact hs ▸ h.drainStep
  | writev ok =>
    cases ht : s.thread <;> simp only [LogSys.step, ht, Option.some.injEq, reduceCtorEq] at hs
    all_goals exact hs ▸ h.writevStep (by simp)
  | warnCall text =>
    cases ht : s.thread <;> simp only [LogSys.step, ht, Option.some.injEq, reduceCtorEq] at hs
    exact hs ▸ h.warnStep (Logger.logWrite_ok h.log _)
  | warnWake =>
    cases ht : s.thread <;> simp only [LogSys.step, ht, Option.some.injEq, reduceCtorEq] at hs
    exact hs ▸ h.warnStep (Logger.waitNotFull_ok h.log _ (h.thread_lt ht))
  | shutdown =>
    simp only [LogSys.step, Option.some.injEq] at hs
    subst hs
    exact .of_parts ⟨h.log.size_pow, h.log.head_lt, h.log.tail_lt⟩
      (fun _ _ _ hi => h.producer_lt hi) (fun _ _ ht => h.thread_lt ht) h.dropped_access
      (fun hf => absurd hf (by simp))

/-! ## The refinement -/

omit [DecidableEq ι] in
/-- What the ring is for, in one state. -/
structure LogSys.RingFaithful (s : LogSys ι) : Prop where
  fifo : s.removed ++ s.log.contents = s.committed
  dropped_access : ∀ e ∈ s.dropped, e.target = .access
  none_bailed : s.log.shutdown = false → s.bailed = []

/-- What the ring is for, in one step: the tail stays or moves to the slot after it, and a
message is dropped only if that slot was the head and it was an access message. -/
structure LogSys.StepFaithful (s : LogSys ι) (_ : LogAction ι) (s' : LogSys ι) : Prop where
  tail : s'.log.ring.tail = s.log.ring.tail ∨
    (s'.log.ring.tail = s.log.nextTail ∧ s.log.nextTail ≠ s.log.ring.head)
  dropped : s'.dropped = s.dropped ∨ ∃ e, s'.dropped = s.dropped ++ [e] ∧
    e.target = .access ∧ s.log.nextTail = s.log.ring.head

/-- A sleeper of `log_write` that is about to store still has the slot after the tail as
its `next_tail`: the tail is where it was when it went to sleep. -/
def LogSys.Fresh (s : LogSys ι) (a : LogAction ι) (_ : LogSys ι) : Prop :=
  ∀ e n, s.sleeper a = some (e, n) → n ≠ s.log.ring.head → s.log.shutdown = false →
    n = s.log.nextTail

/-- **One step of the refinement**: from a state in which the ring is a queue, the next
one is again, if and only if the step is fresh. -/
theorem LogSys.fifo_step_iff {s s' : LogSys ι} {a : LogAction ι} (h : s.Wf)
    (hf : s.removed ++ s.log.contents = s.committed) (hs : s.step a = some s') :
    s'.removed ++ s'.log.contents = s'.committed ↔ s.Fresh a s' := by
  cases LogSys.step_effect hs with
  | quiet hsize hring hcom hrem hsl =>
    refine iff_of_true ?_ fun e n ha hne hsd => ?_
    · rw [hrem, hcom, ← hf, Logger.contents, Logger.contents, hring, hsize]
    · rcases hsl e n ha with hn | hn
      · exact absurd hn hne
      · exact absurd (hsd.symm.trans hn) (by simp)
  | stored e n hsize hring hcom hrem hne hn =>
    have hcont : s'.log.contents = (s.log.store e n).contents := by
      rw [Logger.contents, Logger.contents, hring, hsize]; rfl
    have hlt : n < s.log.ringSize := by
      rcases hn with ⟨hn, _⟩ | ⟨_, ha⟩
      · exact hn ▸ h.log.nextTail_lt
      · exact h.sleeper_lt a e n ha
    rw [hrem, hcom, hcont, ← hf, List.append_assoc, List.append_cancel_left_eq]
    constructor
    · -- the counts alone decide: one entry more means that `n` follows the tail
      intro hc e' n' ha' _ _
      have hlen := congrArg List.length hc
      rw [Logger.length_contents_store, List.length_append, List.length_singleton,
        Logger.contents, length_window] at hlen
      have hnt : n = s.log.nextTail := by
        rw [span_eq_succ h.log.head_lt h.log.tail_lt hlt hlen, Logger.nextTail, h.log.mask]
      rcases hn with ⟨_, ha⟩ | ⟨_, ha⟩
      · rw [ha] at ha'; exact absurd ha' (by simp)
      · rw [ha, Option.some.injEq, Prod.mk.injEq] at ha'
        exact ha'.2 ▸ hnt
    · intro hfr
      have hnt : n = s.log.nextTail := by
        rcases hn with ⟨hn, _⟩ | ⟨hsd, ha⟩
        · exact hn
        · exact hfr e n ha hne hsd
      subst hnt
      exact Logger.contents_store h.log e hne
  | took b hgrab hcom hrem hsl =>
    obtain ⟨_, hc, _⟩ := Logger.grab_spec BATCH_SIZE h.log
    rw [hgrab] at hc
    refine iff_of_true ?_ fun e n ha => absurd (hsl.symm.trans ha) (by simp)
    rw [hrem, hcom, ← hf, hc, List.append_assoc]

omit [DecidableEq ι] in
/-- A pass of `log_write` that does not begin with a wait drops nothing or drops its own
entry, and then for want of room. -/
theorem LogSys.dropped_logWrite (s : LogSys ι) (e : LogEntry) :
    (s.settle e (s.log.logWrite e)).dropped = s.dropped ∨
      ((s.settle e (s.log.logWrite e)).dropped = s.dropped ++ [e] ∧ e.target = .access ∧
        s.log.nextTail = s.log.ring.head) := by
  rcases s.log.logWrite_cases e with ⟨h, _⟩ | ⟨h, hn, ht⟩ | ⟨h, _⟩ | ⟨h, _⟩ <;> rw [h]
  · exact .inl rfl
  · exact .inr ⟨rfl, ht, hn⟩
  · exact .inl rfl
  · exact .inl rfl

omit [DecidableEq ι] in
theorem LogSys.dropped_waitNotFull (s : LogSys ι) (e : LogEntry) (n : ℕ) :
    (s.settle e (s.log.waitNotFull e n)).dropped = s.dropped := by
  rcases s.log.waitNotFull_cases e n with ⟨h, _⟩ | ⟨h, _⟩ | ⟨h, _⟩ <;> rw [h] <;> rfl

theorem LogSys.dropped_step {s s' : LogSys ι} {a : LogAction ι} (h : s.step a = some s') :
    s'.dropped = s.dropped ∨ ∃ e, s'.dropped = s.dropped ++ [e] ∧
      e.target = .access ∧ s.log.nextTail = s.log.ring.head := by
  cases a with
  | call i target text =>
    cases hp : s.producer i <;> simp only [LogSys.step, hp, Option.some.injEq, reduceCtorEq] at h
    exact h ▸ (s.dropped_logWrite _).imp id fun hd => ⟨_, hd⟩
  | wake i =>
    cases hp : s.producer i <;> simp only [LogSys.step, hp, Option.some.injEq, reduceCtorEq] at h
    exact h ▸ .inl (s.dropped_waitNotFull _ _)
  | drain =>
    left
    cases ht : s.thread <;> simp only [LogSys.step, ht, Option.some.injEq, reduceCtorEq] at h
    all_goals
      rw [← h, LogSys.drainStep]
      split <;> rfl
  | writev ok =>
    left
    cases ht : s.thread <;> simp only [LogSys.step, ht, Option.some.injEq, reduceCtorEq] at h
    all_goals
      rw [← h, LogSys.writevStep]
      split <;> rfl
  | warnCall text =>
    cases ht : s.thread <;> simp only [LogSys.step, ht, Option.some.injEq, reduceCtorEq] at h
    exact h ▸ (s.dropped_logWrite _).imp id fun hd => ⟨_, hd⟩
  | warnWake =>
    cases ht : s.thread <;> simp only [LogSys.step, ht, Option.some.injEq, reduceCtorEq] at h
    exact h ▸ .inl (s.dropped_waitNotFull _ _)
  | shutdown =>
    simp only [LogSys.step, Option.some.injEq] at h
    exact h ▸ .inl rfl

/-- A fresh step moves the tail and drops messages only as it should. -/
theorem LogSys.stepFaithful_of_fresh {s s' : LogSys ι} {a : LogAction ι} (h : s.Wf)
    (hs : s.step a = some s') (hfr : s.Fresh a s') : s.StepFaithful a s' := by
  refine ⟨?_, LogSys.dropped_step hs⟩
  cases LogSys.step_effect hs with
  | quiet _ hring => exact .inl (by rw [hring])
  | stored e n _ hring _ _ hne hn =>
    have htail : s'.log.ring.tail = n := by rw [hring]; rfl
    have hnt : n = s.log.nextTail := by
      rcases hn with ⟨hn, _⟩ | ⟨hsd, ha⟩
      · exact hn
      · exact hfr e n ha hne hsd
    exact .inr ⟨htail.trans hnt, hnt ▸ hne⟩
  | took b hgrab =>
    obtain ⟨_, _, ht, _⟩ := Logger.grab_spec BATCH_SIZE h.log
    rw [hgrab] at ht
    exact .inl ht

/-- **The log ring is a queue exactly as long as no sleeper of `log_write` stores with an
old `next_tail`.** For every ring size that is a power of two and at least two, any threads
and any schedule. -/
theorem LogSys.ringFaithful_iff_fresh (k : ℕ) (as : List (LogAction ι)) :
    (Along LogSys.step LogSys.RingFaithful (LogSys.init (2 ^ (k + 1)) : LogSys ι) as ∧
      EachStep LogSys.step LogSys.StepFaithful (LogSys.init (2 ^ (k + 1)) : LogSys ι) as) ↔
    EachStep LogSys.step LogSys.Fresh (LogSys.init (2 ^ (k + 1)) : LogSys ι) as := by
  have hw : (LogSys.init (2 ^ (k + 1)) : LogSys ι).Wf := LogSys.init_wf k
  have hJ : ∀ (s : LogSys ι) a s', s.Wf → s.step a = some s' → s'.Wf :=
    fun _ _ _ hs ht => hs.step ht
  have h₀ : (LogSys.init (2 ^ (k + 1)) : LogSys ι).removed ++
      (LogSys.init (2 ^ (k + 1)) : LogSys ι).log.contents =
        (LogSys.init (2 ^ (k + 1)) : LogSys ι).committed := by
    rw [show (LogSys.init (2 ^ (k + 1)) : LogSys ι).log = Logger.init (2 ^ (k + 1)) from rfl,
      Logger.contents_init _ (Nat.two_pow_pos _)]
    rfl
  have hiff := along_iff_eachStep (P := fun s => s.removed ++ s.log.contents = s.committed)
    hJ (fun _ _ _ hs hf ht => LogSys.fifo_step_iff hs hf ht) as hw h₀
  constructor
  · rintro ⟨h, _⟩
    exact hiff.mp (h.mono fun s hs => hs.fifo)
  · intro h
    have hall := (hiff.mpr h).and (along_of_inv hJ as hw)
    refine ⟨hall.mono fun s hs => ⟨hs.1, hs.2.dropped_access, hs.2.none_bailed⟩, ?_⟩
    refine EachStep.imp (fun s a s' hs ht _ => hJ s a s' hs ht) ?_ as hw h
    intro s a s' hs ht hfr
    exact LogSys.stepFaithful_of_fresh hs ht hfr

/-! ## The schedule that breaks it

A ring of two slots holds one entry. Thread `0` fills it, threads `1` and `2` go to sleep
with the same `next_tail`, the logger takes the entry, and both wake. -/

def staleTail : List (LogAction (Fin 3)) :=
  [.call 0 .event [97], .call 1 .event [98], .call 2 .event [99], .drain, .wake 1, .wake 2]

/-- All three calls have returned and nobody has asked for a shutdown, but the third
message is neither removed nor in the ring. -/
theorem LogSys.staleTail_loses_entry : ∃ s : LogSys (Fin 3),
    run LogSys.step (LogSys.init (2 ^ 1)) staleTail = some s ∧ s.log.shutdown = false ∧
      (∀ i, s.producer i = .idle) ∧
      s.committed = [logEntry .event [97], logEntry .event [98], logEntry .event [99]] ∧
      s.removed ++ s.log.contents = [logEntry .event [97], logEntry .event [98]] ∧
      ¬ s.RingFaithful :=
  ⟨_, rfl, rfl, by decide, rfl, by decide, fun h => absurd h.fifo (by decide)⟩

end Celeritas
