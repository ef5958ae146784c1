import Celeritas.Http.Pipeline
import Celeritas.Lib.Memory

/-!
# What one iteration of a worker holds

The body of the loop of `worker_thread`, as far as it acquires and releases memory: the
context from `calloc`, and the body a handler attaches, from `malloc` or from `mmap`. The
code after the label `cleanup` releases both. Two of the ways out of the loop body go past
it: the `continue` of a connection that is kept alive, and the `break` at shutdown
(`settles_iff`).
-/

set_option autoImplicit false

namespace Celeritas

open CLib Lib

/-- `body_data`, `body_len` and `is_mmap` of the response. -/
structure Body where
  data : Option ℕ := none
  len : ℕ := 0
  isMmap : Bool := false

/-! ## The handlers -/

/-- `handle_error` -/
def attachError (statusCode : ℕ) (m : Memory) : Body × Memory :=
  let (p, m) := m.alloc
  (⟨some p, sizeOfInt (snprintfRet (errorBody statusCode)), false⟩, m)

/-- `resp_map_file_to_ctx` -/
def attachFile (file : FileOutcome) (b : Body) (m : Memory) : Body × Memory :=
  if ¬ file.opens then (b, m)
  else if ¬ file.maps then ({ b with data := none, len := 0 }, m)
  else
    let (p, m) := m.map b.len
    ({ b with data := some p }, m)

/-- `handle_get_head`, which sets `is_mmap` whether or not the mapping succeeded. -/
def attachGetHead (env : Env) (method : HttpMethod) (uri : Bytes) (m : Memory) : Body × Memory :=
  let file := env.files (resolvePath (strncpy env.docRoot PATH_MAX) uri)
  match file.stat with
  | none => attachError 404 m
  | some (size, _) =>
    if method = .get ∧ size > 0 then
      let (b, m) := attachFile file { len := size } m
      ({ b with isMmap := true }, m)
    else ({ len := size }, m)

/-- `validate_request`, `route_request` and the handler. -/
def attach (env : Env) (protocol : Protocol) (r : Http1Req) (m : Memory) : Body × Memory :=
  let (method, statusCode) := validateRequest protocol r
  if statusCode ≥ 400 then attachError statusCode m
  else
    match method with
    | .get | .head => attachGetHead env method r.uri m
    | _ => ({}, m)

/-- `cleanup_request_resources`; `none` is a release of what is not held. -/
def cleanupRequestResources (b : Body) (m : Memory) : Option Memory :=
  match b.data with
  | none => some m
  | some p => if b.isMmap then m.unmap p b.len else m.free p

/-! ## The iteration -/

/-- What an iteration is told: the result of `perform_tls_handshake`, where it is called,
what the socket delivers, the file system and the like, the result of `send_response`, and
the flag. -/
structure Serve where
  handshake : Option ℤ
  protocol : Protocol
  evs : List SockEvent
  env : Env
  sent : ℤ
  shuttingDown : Bool

def Serve.handshakeFailed (s : Serve) : Bool := s.handshake.any (· != 0)

/-- How the loop body is left. -/
inductive LoopExit
  /-- past the label `cleanup`, to the next pop -/
  | next
  /-- by `continue`, to the next pop -/
  | kept
  /-- by `break` -/
  | left
  deriving DecidableEq

/-- The code after the label `cleanup`. -/
def cleanup (ctx : ℕ) (b : Body) (m : Memory) : Option (LoopExit × Memory) :=
  ((cleanupRequestResources b m).bind fun m => m.free ctx).map fun m => (.next, m)

/-- The loop body of `worker_thread`. -/
def workerIteration (s : Serve) (m : Memory) : Option (LoopExit × Memory) :=
  let (ctx, m) := m.alloc
  if s.handshakeFailed then cleanup ctx {} m
  else
    let i := (processIngress s.protocol s.evs).1
    if ¬ i.ok then cleanup ctx {} m
    else
      let (b, m) := attach s.env i.protocol i.req m
      if s.sent = 0 ∧
          shouldKeepAlive i.protocol i.req (respond s.env i.protocol i.req).2.headers then
        some (.kept, m)
      else if s.shuttingDown then some (.left, m)
      else cleanup ctx b m

/-! ## What is released -/

/-- The iteration releases whatever it acquires, once and by the call that fits. -/
def Serve.Settles (s : Serve) (m : Memory) : Prop :=
  ∃ x m', workerIteration s m = some (x, m') ∧ m'.live = m.live

/-- A request was read and answered. -/
def Serve.answered (s : Serve) : Bool :=
  !s.handshakeFailed && (processIngress s.protocol s.evs).1.ok

/-- What `should_keep_alive` says of the request and its response. -/
def Serve.keepAlive (s : Serve) : Bool :=
  let i := (processIngress s.protocol s.evs).1
  shouldKeepAlive i.protocol i.req (respond s.env i.protocol i.req).2.headers

/-- The loop body is left neither by `continue` nor by `break`. -/
def Serve.ReachesCleanup (s : Serve) : Prop :=
  s.answered = true → ¬ (s.sent = 0 ∧ s.keepAlive = true) ∧ s.shuttingDown = false

/-- The block behind `body_data`, as the other two fields describe it. -/
def Body.block (b : Body) : Option Block :=
  b.data.map fun p => if b.isMmap then .mapping p b.len else .heap p

/-- A handler has attached a body, or none, and acquired nothing else. -/
def Attached (m : Memory) (r : Body × Memory) : Prop := r.2.live = r.1.block.toList ++ m.live

theorem attached_error (statusCode : ℕ) (m : Memory) : Attached m (attachError statusCode m) := rfl

theorem attached_getHead (env : Env) (method : HttpMethod) (uri : Bytes) (m : Memory) :
    Attached m (attachGetHead env method uri m) := by
  unfold attachGetHead
  generalize env.files (resolvePath (strncpy env.docRoot PATH_MAX) uri) = file
  cases hst : file.stat with
  | none =>
    simp only [hst]
    exact attached_error 404 m
  | some st =>
    by_cases hget : method = .get ∧ st.1 > 0
    · simp only [hst, if_pos hget, attachFile]
      cases file.opens <;> cases file.maps <;> rfl
    · simp only [hst, if_neg hget]
      rfl

/-- **The flags a handler leaves describe the block it acquired.** -/
theorem attached_attach (env : Env) (protocol : Protocol) (r : Http1Req) (m : Memory) :
    Attached m (attach env protocol r m) := by
  unfold attach
  generalize validateRequest protocol r = v
  obtain ⟨method, statusCode⟩ := v
  by_cases hst : statusCode ≥ 400
  · simp only [if_pos hst]
    exact attached_error statusCode m
  · simp only [if_neg hst]
    cases method with
    | get => exact attached_getHead env .get r.uri m
    | head => exact attached_getHead env .head r.uri m
    | _ => rfl

theorem cleanupRequestResources_live {b : Body} {m : Memory} {bs : List Block}
    (h : m.live = b.block.toList ++ bs) :
    ∃ m', cleanupRequestResources b m = some m' ∧ m'.live = bs := by
  unfold cleanupRequestResources
  unfold Body.block at h
  cases hd : b.data with
  | none =>
    rw [hd] at h
    exact ⟨m, rfl, h⟩
  | some p =>
    rw [hd] at h
    cases hm : b.isMmap with
    | false =>
      rw [hm] at h
      exact m.release_head h
    | true =>
      rw [hm] at h
      exact m.release_head h

theorem cleanup_live {ctx : ℕ} {b : Body} {m : Memory} {bs : List Block}
    (h : m.live = b.block.toList ++ .heap ctx :: bs) :
    ∃ m', cleanup ctx b m = some (.next, m') ∧ m'.live = bs := by
  obtain ⟨m₁, h₁, hl₁⟩ := cleanupRequestResources_live h
  obtain ⟨m₂, h₂, hl₂⟩ := m₁.release_head hl₁
  refine ⟨m₂, ?_, hl₂⟩
  rw [cleanup, h₁]
  exact congrArg (Option.map fun m => (LoopExit.next, m)) h₂

theorem workerIteration_of_not_answered {s : Serve} (h : s.answered = false) (m : Memory) :
    workerIteration s m = cleanup m.alloc.1 {} m.alloc.2 := by
  unfold workerIteration
  unfold Serve.answered at h
  cases hh : s.handshakeFailed with
  | true => simp only [if_true]
  | false =>
    simp only [hh, Bool.not_false, Bool.true_and] at h
    simp [h]

theorem workerIteration_of_answered {s : Serve} (h : s.answered = true) (m : Memory) :
    ∃ b m₁, Attached m.alloc.2 (b, m₁) ∧ workerIteration s m =
      if s.sent = 0 ∧ s.keepAlive = true then some (.kept, m₁)
      else if s.shuttingDown then some (.left, m₁)
      else cleanup m.alloc.1 b m₁ := by
  simp only [Serve.answered, Bool.and_eq_true, Bool.not_eq_true'] at h
  refine ⟨_, _, attached_attach s.env (processIngress s.protocol s.evs).1.protocol
    (processIngress s.protocol s.evs).1.req m.alloc.2, ?_⟩
  unfold workerIteration
  simp only [h.1, h.2, not_true_eq_false, Bool.false_eq_true, if_false]
  rfl

/-- **One iteration**: it runs through, what was held before is still held, and more than
that is exactly if it goes past the label. -/
theorem workerIteration_spec (s : Serve) (m : Memory) : ∃ x m' extra,
    workerIteration s m = some (x, m') ∧ m'.live = extra ++ m.live ∧
      (extra = [] ↔ s.ReachesCleanup) := by
  cases hans : s.answered with
  | false =>
    have hr : s.ReachesCleanup := fun h => absurd (hans.symm.trans h) (by simp)
    have hctx : m.alloc.2.live = ({} : Body).block.toList ++ .heap m.alloc.1 :: m.live := rfl
    obtain ⟨m', hc, hl⟩ := cleanup_live hctx
    rw [workerIteration_of_not_answered hans]
    exact ⟨.next, m', [], hc, hl, iff_of_true rfl hr⟩
  | true =>
    obtain ⟨b, m₁, hbody, hrun⟩ := workerIteration_of_answered hans m
    have hl : m₁.live = (b.block.toList ++ [.heap m.next]) ++ m.live := by
      rw [List.append_assoc]
      exact hbody
    have hne : b.block.toList ++ [.heap m.next] ≠ [] := by simp
    rw [hrun]
    by_cases hkeep : s.sent = 0 ∧ s.keepAlive = true
    · have hr : ¬ s.ReachesCleanup := fun h => (h hans).1 hkeep
      rw [if_pos hkeep]
      exact ⟨.kept, m₁, _, rfl, hl, iff_of_false hne hr⟩
    rw [if_neg hkeep]
    by_cases hdown : s.shuttingDown = true
    · have hr : ¬ s.ReachesCleanup := fun h => absurd (hdown.symm.trans (h hans).2) (by simp)
      rw [if_pos hdown]
      exact ⟨.left, m₁, _, rfl, hl, iff_of_false hne hr⟩
    · have hr : s.ReachesCleanup := fun _ => ⟨hkeep, Bool.eq_false_iff.mpr hdown⟩
      obtain ⟨m', hc, hl'⟩ := cleanup_live hbody
      rw [if_neg hdown]
      exact ⟨.next, m', [], hc, hl', iff_of_true rfl hr⟩

/-- **An iteration releases what it acquires if and only if it does not leave by `continue`
or `break`.** -/
theorem settles_iff (s : Serve) (m : Memory) : s.Settles m ↔ s.ReachesCleanup := by
  obtain ⟨x, m', extra, hrun, hlive, hiff⟩ := workerIteration_spec s m
  rw [← hiff]
  constructor
  · rintro ⟨x', m'', hrun', hlive'⟩
    obtain ⟨-, rfl⟩ := Prod.mk.inj (Option.some.inj (hrun.symm.trans hrun'))
    simpa using hlive.symm.trans hlive'
  · rintro rfl
    exact ⟨x, m', hrun, hlive⟩

/-! ## A request on a connection that is kept alive -/

def keptAlive : Serve where
  handshake := none
  protocol := .http11
  evs := [.data getA.block]
  env := plainVisit.env
  sent := 0
  shuttingDown := false

/-- The context and the mapping of the file are still held at the next pop. -/
theorem keptAlive_leaks :
    (workerIteration keptAlive .empty).map (fun r => (r.1, r.2.live)) =
        some (.kept, [.mapping 1 12, .heap 0]) ∧
      ¬ keptAlive.Settles .empty := by
  have hrun : (workerIteration keptAlive .empty).map (fun r => (r.1, r.2.live)) =
      some (.kept, [.mapping 1 12, .heap 0]) := by decide
  refine ⟨hrun, ?_⟩
  rintro ⟨x, m', hit, hlive⟩
  rw [hit] at hrun
  have := (Prod.mk.inj (Option.some.inj hrun)).2
  rw [hlive] at this
  exact absurd this (by decide)

end Celeritas
