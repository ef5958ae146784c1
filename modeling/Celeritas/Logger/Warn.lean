import Celeritas.Logger.System

/-!
# The logger's own messages

`logger_thread` calls `log_write` itself when a `writev` has failed, and it is the only
thread that frees slots of the ring. If it goes to sleep on `not_full` there, nobody will
wake it but a shutdown. It made room before it wrote, but it did so with the mutex released
since, and how far the others have filled the ring by then is nothing it has checked: that
there is a free slot left is the whole condition (`never_waits_iff`).
-/

set_option autoImplicit false

namespace Celeritas

open CLib Lib

namespace LogSys

variable {ι : Type*}

/-- `logger_thread` waits on `not_full` only for the end. -/
def NeverWaits (s : LogSys ι) : Prop :=
  ∀ e n, s.thread = .warnWaiting e n → s.log.shutdown = true

/-- When `logger_thread` warns of a failed `writev` it finds a free slot, or is shut down. -/
def RoomToWarn (s : LogSys ι) (a : LogAction ι) (_ : LogSys ι) : Prop :=
  ∀ text, a = .warnCall text → s.log.nextTail = s.log.ring.head → s.log.shutdown = true

/-- A pass of `log_write` says nothing about the shutdown. -/
theorem shutdown_logWrite (L : Logger) (e : LogEntry) :
    (L.logWrite e).2.shutdown = L.shutdown := by
  rcases L.logWrite_cases e with ⟨h, -⟩ | ⟨h, -⟩ | ⟨h, -⟩ | ⟨h, -⟩
  · rw [h]
    rfl
  · rw [h]
  · rw [h]
  · rw [h]

theorem shutdown_waitNotFull (L : Logger) (e : LogEntry) (n : ℕ) :
    (L.waitNotFull e n).2.shutdown = L.shutdown := by
  rcases L.waitNotFull_cases e n with ⟨h, -⟩ | ⟨h, -⟩ | ⟨h, -⟩
  · rw [h]
  · rw [h]
  · rw [h]
    rfl

theorem settle_shutdown (s : LogSys ι) (e : LogEntry) (r : WriteExit × Logger) :
    (s.settle e r).log.shutdown = r.2.shutdown ∧ (s.settle e r).thread = s.thread := by
  obtain ⟨exit, L⟩ := r
  cases exit with
  | stored => exact ⟨rfl, rfl⟩
  | dropped => exact ⟨rfl, rfl⟩
  | bailed => exact ⟨rfl, rfl⟩
  | waiting n => exact ⟨rfl, rfl⟩

/-- Where the pass of `l_warn` leaves the thread. -/
theorem warnWaiting_of_loggerPc {e e' : LogEntry} {n : ℕ} {exit : WriteExit}
    (h : exit.loggerPc e = .warnWaiting e' n) : exit = .waiting n := by
  cases exit with
  | waiting m =>
    obtain ⟨-, rfl⟩ := LoggerPc.warnWaiting.inj h
    rfl
  | _ => cases h

/-- Steps of the others leave `logger_thread` where it is. -/
theorem NeverWaits.of_same {s s' : LogSys ι} (h : s.NeverWaits) (hthread : s'.thread = s.thread)
    (hshutdown : s.log.shutdown = true → s'.log.shutdown = true) : s'.NeverWaits := by
  intro e n he
  exact hshutdown (h e n (hthread ▸ he))

/-- The first pass of `l_warn`. -/
theorem neverWaits_warnCall (s : LogSys ι) (text : Bytes) :
    (s.warnStep (logEntry .event text) (s.log.logWrite (logEntry .event text))).NeverWaits ↔
      (s.log.nextTail = s.log.ring.head → s.log.shutdown = true) := by
  have hflag : (s.warnStep (logEntry .event text)
      (s.log.logWrite (logEntry .event text))).log.shutdown = s.log.shutdown :=
    (s.settle_shutdown _ _).1.trans (shutdown_logWrite _ _)
  constructor
  · intro h hfull
    by_contra hno
    have hrunning : s.log.shutdown = false := Bool.eq_false_of_not_eq_true hno
    have hwait : (s.log.logWrite (logEntry .event text)).1 = .waiting s.log.nextTail := by
      simp [Logger.logWrite, Logger.waitNotFull, hfull, hrunning]
    have hthread : (s.warnStep (logEntry .event text)
        (s.log.logWrite (logEntry .event text))).thread =
          .warnWaiting (logEntry .event text) s.log.nextTail := by
      rw [warnStep, hwait]
      rfl
    exact hno (hflag ▸ h _ _ hthread)
  · intro h e n hthread
    rw [hflag]
    have hwait := warnWaiting_of_loggerPc hthread
    rcases s.log.logWrite_cases (logEntry .event text) with
      ⟨hr, -⟩ | ⟨hr, -⟩ | ⟨hr, -⟩ | ⟨hr, hfull⟩
    · rw [hr] at hwait
      cases hwait
    · rw [hr] at hwait
      cases hwait
    · rw [hr] at hwait
      cases hwait
    · exact h hfull

variable [DecidableEq ι]

/-- What a step makes of it. -/
theorem neverWaits_step {s s' : LogSys ι} {a : LogAction ι} (h : s.NeverWaits)
    (hs : s.step a = some s') : s'.NeverWaits ↔ s.RoomToWarn a s' := by
  cases a with
  | call i target text =>
    refine iff_of_true ?_ (fun _ ha => nomatch ha)
    cases hp : s.producer i <;> simp only [step, hp, Option.some.injEq, reduceCtorEq] at hs
    subst hs
    apply h.of_same (s.settle_shutdown _ _).2
    intro hsd
    exact ((s.settle_shutdown _ _).1.trans (shutdown_logWrite _ _)).trans hsd
  | wake i =>
    refine iff_of_true ?_ (fun _ ha => nomatch ha)
    cases hp : s.producer i <;> simp only [step, hp, Option.some.injEq, reduceCtorEq] at hs
    subst hs
    apply h.of_same (s.settle_shutdown _ _).2
    intro hsd
    exact ((s.settle_shutdown _ _).1.trans (shutdown_waitNotFull _ _ _)).trans hsd
  | drain =>
    refine iff_of_true (fun e n he => ?_) (fun _ ha => nomatch ha)
    have hnot : s.drainStep.thread ≠ .warnWaiting e n := by
      unfold drainStep
      rcases s.log.drain with ⟨exit, L⟩
      cases exit <;> simp
    cases ht : s.thread <;> simp only [step, ht, Option.some.injEq, reduceCtorEq] at hs
    · exact absurd (hs ▸ he) hnot
    · exact absurd (hs ▸ he) hnot
  | writev ok =>
    refine iff_of_true (fun e n he => ?_) (fun _ ha => nomatch ha)
    have hnot : ∀ target b next, next ≠ .warnWaiting e n →
        (s.writevStep target b ok next).thread ≠ .warnWaiting e n := by
      intro target b next hne
      unfold writevStep
      split_ifs
      · exact hne
      · exact hne
      · simp
    cases ht : s.thread <;> simp only [step, ht, Option.some.injEq, reduceCtorEq] at hs
    · exact absurd (hs ▸ he) (hnot _ _ _ (by simp))
    · exact absurd (hs ▸ he) (hnot _ _ _ (by simp))
  | warnCall text =>
    cases ht : s.thread <;> simp only [step, ht, Option.some.injEq, reduceCtorEq] at hs
    subst hs
    rw [neverWaits_warnCall]
    constructor
    · rintro hroom text' -
      exact hroom
    · intro hroom
      exact hroom text rfl
  | warnWake =>
    refine iff_of_true (fun e n he => ?_) (fun _ ha => nomatch ha)
    cases ht : s.thread <;> simp only [step, ht, Option.some.injEq, reduceCtorEq] at hs
    rename_i e' n'
    subst hs
    -- it was waiting already, and so it has been shut down
    exact ((s.settle_shutdown _ _).1.trans (shutdown_waitNotFull _ _ _)).trans (h _ _ ht)
  | shutdown =>
    refine iff_of_true ?_ (fun _ ha => nomatch ha)
    simp only [step, Option.some.injEq] at hs
    subst hs
    exact fun _ _ _ => rfl

/-- **`logger_thread` never blocks on itself exactly if it always finds room to warn.** For
every ring, any threads, any schedule and any results of `writev`. -/
theorem never_waits_iff (ringSize : ℕ) (as : List (LogAction ι)) :
    Along step NeverWaits (init ringSize : LogSys ι) as ↔
      EachStep step RoomToWarn (init ringSize : LogSys ι) as := by
  have hinit : (init ringSize : LogSys ι).NeverWaits := by
    intro e n he
    cases he
  exact along_iff_eachStep (J := fun _ => True) (fun _ _ _ _ _ => trivial)
    (fun _ _ _ _ h hs => neverWaits_step h hs) as trivial hinit

/-- Thread `0` logs a message, and thread `1` one more while it is written; the `writev`
fails. -/
def warnRun : List (LogAction (Fin 2)) :=
  [.call 0 .event [97], .drain, .call 1 .event [98], .writev true, .writev false,
    .warnCall (lit "event log write failed")]

/-- In a ring of two slots the logger then waits for itself. -/
theorem warnRun_waits : ∃ s : LogSys (Fin 2), run step (init 2) warnRun = some s ∧
    s.log.shutdown = false ∧ s.thread =
      .warnWaiting (logEntry .event (lit "event log write failed")) s.log.ring.head ∧
    ¬ Along step NeverWaits (init 2 : LogSys (Fin 2)) warnRun := by
  refine ⟨_, rfl, rfl, rfl, fun h => ?_⟩
  have hlast := h.last (t := _) rfl
  exact Bool.false_ne_true (hlast _ _ rfl)

end LogSys

end Celeritas
