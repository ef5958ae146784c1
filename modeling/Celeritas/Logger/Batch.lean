import Celeritas.Logger.System

/-!
# What becomes of a batch

`logger_thread` has taken a batch out of the ring before it writes it, so that an entry it
does not hand to `writev` then is lost. It sorts the batch into two vectors and writes the
one for the access log first; if that fails, its `continue` goes past the other
(`complete_iff_eventsSpared`).
-/

set_option autoImplicit false

namespace Celeritas

open CLib Lib

/-! ## The partition loop -/

/-- One pass of the loop, over the two arrays up to their counts. -/
def partitionStep (iov : List Iovec × List Iovec) (e : LogEntry) : List Iovec × List Iovec :=
  if e.target = .access then (iov.1 ++ [e.iov], iov.2) else (iov.1, iov.2 ++ [e.iov])

/-- `iov_access` and `iov_event` after the loop. -/
def partitionBatch (b : List LogEntry) : List Iovec × List Iovec := b.foldl partitionStep ([], [])

theorem iovFor_append (t : LogTarget) (b c : List LogEntry) :
    iovFor t (b ++ c) = iovFor t b ++ iovFor t c := by
  simp [iovFor]

/-- **The loop keeps the order**: each array holds the entries for its log, as they stand in
the batch. -/
theorem partitionBatch_eq (b : List LogEntry) :
    partitionBatch b = (iovFor .access b, iovFor .event b) := by
  have hfold : ∀ iov : List Iovec × List Iovec, b.foldl partitionStep iov =
      (iov.1 ++ iovFor .access b, iov.2 ++ iovFor .event b) := by
    induction b with
    | nil => simp [iovFor]
    | cons e b ih =>
      intro iov
      rw [List.foldl_cons, ih]
      obtain ⟨target, len, line⟩ := e
      cases target <;> simp [partitionStep, iovFor]
  exact hfold ([], [])

namespace LogSys

variable {ι : Type*}

/-- The vectors handed to `writev` for a log so far, in order. -/
def handed (s : LogSys ι) (t : LogTarget) : List Iovec :=
  (s.writevs.filter fun w => w.target == t).flatMap WritevCall.iov

/-- The part of the current batch that `logger_thread` has yet to hand over. -/
def pending (s : LogSys ι) : LogTarget → List Iovec
  | .access => match s.thread with
    | .writeAccess b => iovFor .access b
    | _ => []
  | .event => match s.thread with
    | .writeAccess b => iovFor .event b
    | .writeEvent b => iovFor .event b
    | _ => []

/-- Of the entries taken out of the ring, those for each log have been handed to `writev`
for it, or are about to be: all of them, in ring order, with their own line and length. -/
def Complete (s : LogSys ι) : Prop := ∀ t, s.handed t ++ s.pending t = iovFor t s.removed

/-- A failing write to the access log is for a batch without event messages. -/
def EventsSpared (s : LogSys ι) (a : LogAction ι) (_ : LogSys ι) : Prop :=
  ∀ b, a = .writev false → s.thread = .writeAccess b →
    iovFor .access b = [] ∨ iovFor .event b = []

/-! ## The steps -/

theorem Complete.of_same {s s' : LogSys ι} (h : s.Complete) (hw : s'.writevs = s.writevs)
    (hr : s'.removed = s.removed) (hp : ∀ t, s'.pending t = s.pending t) : s'.Complete := by
  intro t
  rw [hp t, hr, handed, hw]
  exact h t

/-- What `log_write` does, in whichever thread, touches neither record. -/
theorem settle_records (s : LogSys ι) (e : LogEntry) (r : WriteExit × Logger) :
    (s.settle e r).writevs = s.writevs ∧ (s.settle e r).removed = s.removed ∧
      (s.settle e r).thread = s.thread := by
  obtain ⟨exit, L⟩ := r
  cases exit <;> exact ⟨rfl, rfl, rfl⟩

theorem pending_congr {s s' : LogSys ι} (h : s'.thread = s.thread) (t : LogTarget) :
    s'.pending t = s.pending t := by
  cases t <;> simp only [pending, h]

/-- Away from the two `writev` calls nothing is pending. -/
theorem pending_eq_nil {s : LogSys ι} (ha : ∀ b, s.thread ≠ .writeAccess b)
    (he : ∀ b, s.thread ≠ .writeEvent b) (t : LogTarget) : s.pending t = [] := by
  cases t <;> cases ht : s.thread <;> simp_all [pending]

theorem Complete.producerStep [DecidableEq ι] {s : LogSys ι} (h : s.Complete) (i : ι)
    (e : LogEntry) (r : WriteExit × Logger) : (s.producerStep i e r).Complete := by
  obtain ⟨hw, hr, ht⟩ := s.settle_records e r
  have hp : ∀ t, (s.producerStep i e r).pending t = s.pending t := pending_congr ht
  exact h.of_same hw hr hp

/-- `l_warn` is called when nothing is pending, and leaves it so. -/
theorem Complete.warnStep {s : LogSys ι} (h : s.Complete) (hp : ∀ t, s.pending t = [])
    (e : LogEntry) (r : WriteExit × Logger) : (s.warnStep e r).Complete := by
  obtain ⟨hw, hr, -⟩ := s.settle_records e r
  have hout : ∀ t, (s.warnStep e r).pending t = [] := by
    obtain ⟨exit, L⟩ := r
    apply pending_eq_nil
    · cases exit <;> simp [LogSys.warnStep, WriteExit.loggerPc]
    · cases exit <;> simp [LogSys.warnStep, WriteExit.loggerPc]
  have hsame : ∀ t, (s.warnStep e r).pending t = s.pending t := fun t => by rw [hout t, hp t]
  exact h.of_same hw hr hsame

theorem Complete.drainStep {s : LogSys ι} (h : s.Complete) (hp : ∀ t, s.pending t = []) :
    s.drainStep.Complete := by
  intro t
  have ht := h t
  rw [hp t] at ht
  rcases s.log.drain_cases with ⟨hd | hd, -⟩ | hd <;> rw [LogSys.drainStep, hd]
  · cases t <;> exact ht
  · cases t <;> exact ht
  · -- the batch is pending now, and it is what was removed
    rw [iovFor_append, ← ht, List.append_nil]
    cases t <;> rfl

theorem handed_writevStep (s : LogSys ι) (t : LogTarget) (b : List LogEntry) (ok : Bool)
    (next : LoggerPc) (t' : LogTarget) :
    (s.writevStep t b ok next).handed t' =
      s.handed t' ++ if t = t' then iovFor t b else [] := by
  unfold LogSys.writevStep
  by_cases hnil : iovFor t b = []
  · simp [hnil, handed]
  · rw [if_neg hnil]
    by_cases ht : t = t' <;> simp [handed, ht]

theorem removed_writevStep (s : LogSys ι) (t : LogTarget) (b : List LogEntry) (ok : Bool)
    (next : LoggerPc) : (s.writevStep t b ok next).removed = s.removed := by
  unfold LogSys.writevStep
  split <;> rfl

theorem thread_writevStep (s : LogSys ι) (t : LogTarget) (b : List LogEntry) (ok : Bool)
    (next : LoggerPc) : (s.writevStep t b ok next).thread =
      if iovFor t b = [] ∨ ok = true then next else .warn := by
  unfold LogSys.writevStep
  by_cases hnil : iovFor t b = []
  · simp [hnil]
  · cases ok <;> simp [hnil]

/-- The first `writev`: what is lost is the other half of the batch, if it fails. -/
theorem complete_writeAccess_iff {s : LogSys ι} {b : List LogEntry} (h : s.Complete)
    (hb : s.thread = .writeAccess b) (ok : Bool) :
    (s.writevStep .access b ok (.writeEvent b)).Complete ↔
      iovFor .access b = [] ∨ ok = true ∨ iovFor .event b = [] := by
  have hacc := h .access
  have hev := h .event
  simp only [pending, hb] at hacc hev
  have hthr := s.thread_writevStep .access b ok (.writeEvent b)
  constructor
  · intro hc
    by_contra hne
    simp only [not_or] at hne
    have hev' := hc .event
    rw [if_neg (by simp [hne.1, hne.2.1])] at hthr
    rw [handed_writevStep, removed_writevStep, if_neg (by decide), List.append_nil,
      pending_eq_nil (by simp [hthr]) (by simp [hthr]), List.append_nil, ← hev] at hev'
    exact hne.2.2 (List.self_eq_append_right.mp hev')
  · intro hc t
    rw [handed_writevStep, removed_writevStep]
    by_cases hgo : iovFor .access b = [] ∨ ok = true
    · rw [if_pos hgo] at hthr
      cases t with
      | access => simpa [pending, hthr] using hacc
      | event => simpa [pending, hthr] using hev
    · rw [if_neg hgo] at hthr
      rw [pending_eq_nil (by simp [hthr]) (by simp [hthr])]
      cases t with
      | access => simpa using hacc
      | event => simpa [(or_assoc.mpr hc).resolve_left hgo] using hev

theorem Complete.writeEvent {s : LogSys ι} {b : List LogEntry} (h : s.Complete)
    (hb : s.thread = .writeEvent b) (ok : Bool) : (s.writevStep .event b ok .top).Complete := by
  have hthr := s.thread_writevStep .event b ok .top
  have hout : ∀ t, (s.writevStep .event b ok .top).pending t = [] := by
    apply pending_eq_nil
    · rw [hthr]; split <;> simp
    · rw [hthr]; split <;> simp
  intro t
  have ht := h t
  rw [handed_writevStep, removed_writevStep, hout t]
  cases t <;> simpa [pending, hb] using ht

variable [DecidableEq ι]

theorem complete_step_iff {s s' : LogSys ι} {a : LogAction ι} (h : s.Complete)
    (hs : s.step a = some s') : s'.Complete ↔ s.EventsSpared a s' := by
  cases a with
  | call i target text =>
    refine iff_of_true ?_ (fun b ha => nomatch ha)
    cases hp : s.producer i <;> simp only [step, hp, Option.some.injEq, reduceCtorEq] at hs
    exact hs ▸ h.producerStep i _ _
  | wake i =>
    refine iff_of_true ?_ (fun b ha => nomatch ha)
    cases hp : s.producer i <;> simp only [step, hp, Option.some.injEq, reduceCtorEq] at hs
    exact hs ▸ h.producerStep i _ _
  | drain =>
    refine iff_of_true ?_ (fun b ha => nomatch ha)
    cases ht : s.thread <;> simp only [step, ht, Option.some.injEq, reduceCtorEq] at hs
    · exact hs ▸ h.drainStep (pending_eq_nil (by simp [ht]) (by simp [ht]))
    · exact hs ▸ h.drainStep (pending_eq_nil (by simp [ht]) (by simp [ht]))
  | writev ok =>
    cases ht : s.thread <;> simp only [step, ht, Option.some.injEq, reduceCtorEq] at hs
    · rename_i b
      subst hs
      rw [complete_writeAccess_iff h ht]
      constructor
      · rintro hc b' ha hb'
        obtain rfl : b = b' := LoggerPc.writeAccess.inj (ht.symm.trans hb')
        obtain rfl : ok = false := LogAction.writev.inj ha
        simpa using hc
      · intro hc
        cases ok with
        | true => exact .inr (.inl rfl)
        | false => simpa using hc b rfl ht
    · rename_i b
      subst hs
      refine iff_of_true (h.writeEvent ht ok) fun b' _ hb' => ?_
      rw [ht] at hb'
      cases hb'
  | warnCall text =>
    refine iff_of_true ?_ (fun b ha => nomatch ha)
    cases ht : s.thread <;> simp only [step, ht, Option.some.injEq, reduceCtorEq] at hs
    exact hs ▸ h.warnStep (pending_eq_nil (by simp [ht]) (by simp [ht])) _ _
  | warnWake =>
    refine iff_of_true ?_ (fun b ha => nomatch ha)
    cases ht : s.thread <;> simp only [step, ht, Option.some.injEq, reduceCtorEq] at hs
    exact hs ▸ h.warnStep (pending_eq_nil (by simp [ht]) (by simp [ht])) _ _
  | shutdown =>
    refine iff_of_true ?_ (fun b ha => nomatch ha)
    simp only [step, Option.some.injEq] at hs
    subst hs
    exact h.of_same rfl rfl (pending_congr rfl)

/-- **No batch loses an entry if and only if no write to the access log fails for a batch
with event messages**: for every ring, any threads, any schedule and any results of
`writev`. -/
theorem complete_iff_eventsSpared (ringSize : ℕ) (as : List (LogAction ι)) :
    Along step Complete (init ringSize : LogSys ι) as ↔
      EachStep step EventsSpared (init ringSize : LogSys ι) as := by
  have hinit : (init ringSize : LogSys ι).Complete := by
    intro t
    cases t <;> rfl
  exact along_iff_eachStep (J := fun _ => True) (fun _ _ _ _ _ => trivial)
    (fun _ _ _ _ h hs => complete_step_iff h hs) as trivial hinit

/-! ## A full disk under the access log -/

/-- One message for each log, taken in one batch. -/
def mixedBatchRun : List (LogAction Bool) :=
  [.call true .access [97], .call false .event [98], .drain, .writev false]

/-- The event message was taken out of the ring and is handed to nobody. -/
theorem mixedBatchRun_loses : ∃ s : LogSys Bool,
    run step (init 4) mixedBatchRun = some s ∧
      s.removed = [logEntry .access [97], logEntry .event [98]] ∧
      s.writevs.map WritevCall.iov = [[(logEntry .access [97]).iov]] ∧ s.thread = .warn ∧
      ¬ Along step Complete (init 4 : LogSys Bool) mixedBatchRun := by
  refine ⟨_, rfl, rfl, rfl, rfl, fun h => ?_⟩
  have hlast := h.last (t := _) rfl .event
  exact absurd hlast (by decide)

end LogSys

end Celeritas
