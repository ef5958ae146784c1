import Celeritas.Net.Owner

/-!
# The thread pool: schedules

A number `M` of descriptors is what decides whether the queues can fill up: `Admits M` is
the step condition that `accept` succeeds only while fewer than `M` accepted descriptors
are open. The first part of the file is what follows from it; the second part builds runs
that make the most of it. `Filling` describes the states they go through, in which the
wait-room thread does nothing and everything else is for the schedule to decide.
-/

set_option autoImplicit false

namespace Celeritas

open Lib

namespace Net

variable {p : Params} {M : ℕ}

/-- At most `M` accepted descriptors are open at once. -/
def Admits (M : ℕ) (s : Net p) (a : NetAction p) (_ : Net p) : Prop :=
  ∀ tls fd remoteIp t, a = .accept tls (.accepted fd remoteIp t) → s.fds.length < M

/-- A connection can only be opened by an `accept`. -/
theorem length_fds_step {s s' : Net p} {a : NetAction p} (hs : s.step a = some s') :
    s'.fds.length ≤ s.fds.length ∨
      (s'.fds.length = s.fds.length + 1 ∧
        ∃ tls fd remoteIp t, a = .accept tls (.accepted fd remoteIp t)) := by
  cases step_cases hs with
  | listener tls _ _ hm =>
    cases hm with
    | accepted rv conn remoteIp t => exact .inr ⟨rfl, tls, conn.fd, remoteIp, t, rfl⟩
    | closed rv conn => exact .inl (List.length_filter_le _ _)
    | _ => exact .inl (Nat.le_refl _)
  | worker w _ _ hm =>
    left
    cases hm with
    | close conn last => exact List.length_filter_le _ _
    | _ => exact Nat.le_refl _
  | waitRoom _ _ hm =>
    left
    cases hm with
    | close conn k => exact List.length_filter_le _ _
    | resume conn k => cases k <;> exact Nat.le_refl _
    | _ => exact Nat.le_refl _
  | server hm => exact .inl (by rw [(serverStep_frame hm).fds])

theorem Admits.length_fds_le {s s' : Net p} {a : NetAction p} (h : s.fds.length ≤ M)
    (hs : s.step a = some s') (hc : Admits M s a s') : s'.fds.length ≤ M := by
  rcases length_fds_step hs with hle | ⟨heq, tls, fd, remoteIp, t, rfl⟩
  · exact hle.trans h
  · have := hc tls fd remoteIp t rfl
    omega

theorem length_fds_le_of_reach {s : Net p} {mem : ℕ → Conn} {conn : Conn}
    (h : Reach Net.step (Admits M) (Net.init p mem conn) s) : s.fds.length ≤ M :=
  h.inv (Nat.zero_le _) fun _ _ _ hle hs hc => hc.length_fds_le hle hs

/-! ## Runs that fill the queues -/

theorem admits_of_ne {s s' : Net p} {a : NetAction p}
    (h : ∀ tls r, a ≠ .accept tls r) : Admits M s a s' := fun tls _ _ _ ha => absurd ha (h tls _)

/-- A run that accepts nothing. -/
theorem reach_of_run (as : List (NetAction p)) {s s' : Net p} (h : run Net.step s as = some s')
    (ha : ∀ a ∈ as, ∀ tls r, a ≠ .accept tls r) : Reach Net.step (Admits M) s s' := by
  induction as generalizing s with
  | nil =>
    obtain rfl := Option.some.inj h
    exact .refl
  | cons a as ih =>
    obtain ⟨t, hs, hr⟩ := Option.bind_eq_some_iff.mp h
    have hrest := ih hr fun b hb => ha b (List.mem_cons_of_mem _ hb)
    exact .head a hs (admits_of_ne (ha a List.mem_cons_self)) hrest

/-- `k` connections have been accepted, of which `a` are in the work queue and `b` in the
wait queue; the first `j` workers wait for room in the wait queue, the others for work. -/
structure Filling (s : Net p) (k a b j : ℕ) (waitRoom : WaitRoomPc) : Prop where
  fds_lt : ∀ x ∈ s.fds, x.1 < s.nextId
  length_fds : s.fds.length = k
  listening : s.listening false = true
  running : s.server = .running
  shuttingDown : s.shuttingDown = false
  listener : ∀ tls, s.listener tls = .top
  work_count : s.work.count = a
  work_capacity : s.work.capacity = p.capacity
  work_flag : s.work.shuttingDown = false
  wait_count : s.wait.count = b
  wait_capacity : s.wait.capacity = p.capacity
  wait_flag : s.wait.shuttingDown = false
  pushing : ∀ w : Fin p.nWorkers, w.val < j → ∃ conn, s.worker w = .pushing conn
  popping : ∀ w : Fin p.nWorkers, j ≤ w.val → s.worker w = .popping
  waitRoom : s.waitRoom = waitRoom
  pool : s.pool.items = [] ∧ s.pool.capacity = p.poolSize

/-- The plain connection that is accepted with its own number for a descriptor. -/
def plain (id : ℕ) : Conn := { id, fd := id }

/-- The HTTP listener accepts a connection and queues it. -/
theorem Filling.arrive {s : Net p} {k a b j : ℕ} {wr : WaitRoomPc} (h : Filling s k a b j wr)
    (hk : k < M) (ha : a < p.capacity) :
    ∃ s', Reach Net.step (Admits M) s s' ∧ Filling s' (k + 1) (a + 1) b j wr := by
  have hroom : s.work.count ≠ s.work.capacity := by
    rw [h.work_count, h.work_capacity]
    exact ha.ne
  have hfresh : s.nextId ∉ s.fds.map Prod.fst := by
    intro hm
    obtain ⟨x, hx, hxid⟩ := List.mem_map.mp hm
    have := h.fds_lt x hx
    omega
  let s₁ := s.setListener false .accepting
  let s₂ := ({ s₁ with fds := (s.nextId, s.nextId) :: s.fds, nextId := s.nextId + 1 } :
    Net p).setListener false (.checking 0 (plain s.nextId))
  let s₃ := s₂.setListener false (.pushing (plain s.nextId))
  let s₄ := ({ s₃ with work := s.work.enqueue (plain s.nextId) hroom } : Net p).setListener false
    .top
  have h₁ : s.step (.listen false) = some s₁ := by
    simp [step, listenStep, h.listener, h.shuttingDown, s₁]
  have h₂ : s₁.step (.accept false (.accepted s.nextId [] .ok)) = some s₂ := by
    simp [step, acceptStep, setListener, acceptConnection, plain, h.listening, hfresh, s₁, s₂]
  have h₃ : s₂.step (.listen false) = some s₃ := by
    simp [step, listenStep, setListener, h.shuttingDown, s₁, s₂, s₃]
  have h₄ : s₃.step (.listen false) = some s₄ := by
    simp [step, listenStep, setListener, queuePush, hroom, s₁, s₂, s₃, s₄]
  refine ⟨s₄, .head _ h₁ (admits_of_ne (by simp)) <| .head _ h₂ ?_ <|
    .head _ h₃ (admits_of_ne (by simp)) <| .single _ h₄ (admits_of_ne (by simp)), ?_⟩
  · intro _ _ _ _ _
    exact h.length_fds ▸ hk
  · refine ⟨?_, congrArg (· + 1) h.length_fds, h.listening, h.running, h.shuttingDown, ?_,
      congrArg (· + 1) h.work_count, h.work_capacity, h.work_flag, h.wait_count,
      h.wait_capacity, h.wait_flag, h.pushing, h.popping, h.waitRoom, h.pool⟩
    · intro x hx
      rcases List.mem_cons.mp hx with rfl | hx
      · exact Nat.lt_succ_self _
      · exact Nat.lt_succ_of_lt (h.fds_lt x hx)
    · intro tls
      cases tls
      · simp [setListener, s₄]
      · simp [setListener, h.listener, s₁, s₂, s₃, s₄]

/-- A worker takes a connection from the work queue, answers it, and keeps it. -/
theorem Filling.serve {s : Net p} {k a b j : ℕ} {wr : WaitRoomPc}
    (h : Filling s k (a + 1) b j wr) (w : Fin p.nWorkers) (hw : w.val = j) :
    ∃ s', Reach Net.step (Admits M) s s' ∧ Filling s' k a b (j + 1) wr := by
  have hne : s.work.count ≠ 0 := by
    rw [h.work_count]
    exact Nat.succ_ne_zero a
  let conn := s.work.buf s.work.head
  let s₁ := ({ s with work := s.work.dequeue hne } : Net p).setWorker w (.serving conn)
  let s₂ := s₁.setWorker w ((ServeOutcome.keepAlive .http11 0).next conn)
  have h₁ : s.step (.work w) = some s₁ := by
    simp [step, workStep, h.popping w hw.ge, queuePop, hne, s₁, conn]
  have h₂ : s₁.step (.serve w (.keepAlive .http11 0)) = some s₂ := by
    simp [step, serveStep, setWorker, s₁, s₂]
  refine ⟨s₂, .head _ h₁ (admits_of_ne (by simp)) <| .single _ h₂ (admits_of_ne (by simp)), ?_⟩
  refine ⟨h.fds_lt, h.length_fds, h.listening, h.running, h.shuttingDown, h.listener, ?_,
      h.work_capacity, h.work_flag, h.wait_count, h.wait_capacity, h.wait_flag, ?_, ?_,
      h.waitRoom, h.pool⟩
  · change s.work.count - 1 = a
    rw [h.work_count, Nat.add_sub_cancel]
  · intro v hv
    by_cases hvw : v = w
    · subst hvw
      exact ⟨_, Function.update_self _ _ _⟩
    · have hvj : v.val ≠ j := fun he => hvw (Fin.ext (he.trans hw.symm))
      obtain ⟨c, hc⟩ := h.pushing v (by omega)
      exact ⟨c, by simpa [setWorker, hvw, s₁, s₂] using hc⟩
  · intro v hv
    have hvw : v ≠ w := by
      intro he
      rw [he, hw] at hv
      exact absurd hv (Nat.not_succ_le_self j)
    simpa [setWorker, hvw, s₁, s₂] using h.popping v (Nat.le_of_succ_le hv)

/-- The last worker that has something to push pushes it. -/
theorem Filling.park {s : Net p} {k a b j : ℕ} {wr : WaitRoomPc}
    (h : Filling s k a b (j + 1) wr) (w : Fin p.nWorkers) (hw : w.val = j)
    (hb : b < p.capacity) :
    ∃ s', Reach Net.step (Admits M) s s' ∧ Filling s' k a (b + 1) j wr := by
  have hroom : s.wait.count ≠ s.wait.capacity := by
    rw [h.wait_count, h.wait_capacity]
    exact hb.ne
  obtain ⟨conn, hpc⟩ := h.pushing w (by omega)
  let s₁ := ({ s with wait := s.wait.enqueue conn hroom } : Net p).setWorker w .popping
  have h₁ : s.step (.work w) = some s₁ := by
    simp [step, workStep, hpc, queuePush, hroom, s₁]
  refine ⟨s₁, .single _ h₁ (admits_of_ne (by simp)), ?_⟩
  refine ⟨h.fds_lt, h.length_fds, h.listening, h.running, h.shuttingDown, h.listener,
    h.work_count, h.work_capacity, h.work_flag, congrArg (· + 1) h.wait_count,
    h.wait_capacity, h.wait_flag, ?_, ?_, h.waitRoom, h.pool⟩
  · intro v hv
    have hvw : v ≠ w := fun he => absurd (he ▸ hv) (by omega)
    simpa [setWorker, hvw, s₁] using h.pushing v (Nat.lt_succ_of_lt hv)
  · intro v hv
    by_cases hvw : v = w
    · subst hvw
      exact Function.update_self _ _ _
    · have hvj : v.val ≠ j := fun he => hvw (Fin.ext (he.trans hw.symm))
      simpa [setWorker, hvw, s₁] using h.popping v (by omega)

theorem Filling.init (mem : ℕ → Conn) (conn : Conn) :
    Filling (Net.init p mem conn) 0 0 0 0 .top := by
  constructor <;> simp [Net.init, queueInit, poolInit]

/-- The wait queue is filled through the first worker. -/
theorem Filling.fillWait {s : Net p} {k : ℕ} {wr : WaitRoomPc} (h : Filling s k 0 0 0 wr) :
    ∀ b, k + b ≤ M → b ≤ p.capacity →
      ∃ s', Reach Net.step (Admits M) s s' ∧ Filling s' (k + b) 0 b 0 wr := by
  intro b
  induction b with
  | zero => exact fun _ _ => ⟨s, .refl, h⟩
  | succ b ih =>
    intro hk hb
    obtain ⟨s₁, hr₁, h₁⟩ := ih (Nat.le_of_succ_le hk) (Nat.le_of_succ_le hb)
    obtain ⟨s₂, hr₂, h₂⟩ := h₁.arrive (M := M) (by omega) p.capacity_pos
    obtain ⟨s₃, hr₃, h₃⟩ := h₂.serve (M := M) p.first rfl
    obtain ⟨s₄, hr₄, h₄⟩ := h₃.park (M := M) p.first rfl (by omega)
    exact ⟨s₄, hr₁.trans (hr₂.trans (hr₃.trans hr₄)), h₄⟩

/-- One worker after the other is given a connection it then has to push. -/
theorem Filling.block {s : Net p} {k b : ℕ} {wr : WaitRoomPc} (h : Filling s k 0 b 0 wr) :
    ∀ j, k + j ≤ M → j ≤ p.nWorkers →
      ∃ s', Reach Net.step (Admits M) s s' ∧ Filling s' (k + j) 0 b j wr := by
  intro j
  induction j with
  | zero => exact fun _ _ => ⟨s, .refl, h⟩
  | succ j ih =>
    intro hk hj
    obtain ⟨s₁, hr₁, h₁⟩ := ih (Nat.le_of_succ_le hk) (Nat.le_of_succ_le hj)
    obtain ⟨s₂, hr₂, h₂⟩ := h₁.arrive (M := M) (by omega) p.capacity_pos
    obtain ⟨s₃, hr₃, h₃⟩ := h₂.serve (M := M) ⟨j, hj⟩ rfl
    exact ⟨s₃, hr₁.trans (hr₂.trans hr₃), h₃⟩

/-- The listener fills the work queue. -/
theorem Filling.fillWork {s : Net p} {k b j : ℕ} {wr : WaitRoomPc} (h : Filling s k 0 b j wr) :
    ∀ a, k + a ≤ M → a ≤ p.capacity →
      ∃ s', Reach Net.step (Admits M) s s' ∧ Filling s' (k + a) a b j wr := by
  intro a
  induction a with
  | zero => exact fun _ _ => ⟨s, .refl, h⟩
  | succ a ih =>
    intro hk ha
    obtain ⟨s₁, hr₁, h₁⟩ := ih (Nat.le_of_succ_le hk) (Nat.le_of_succ_le ha)
    obtain ⟨s₂, hr₂, h₂⟩ := h₁.arrive (M := M) (by omega) (by omega)
    exact ⟨s₂, hr₁.trans hr₂, h₂⟩

/-! ## The same with one worker and queues of one slot, as lists -/

/-- The HTTP listener accepts descriptor `fd` and queues it. -/
def admitRun (fd : ℕ) : List (NetAction smallest) :=
  [.listen false, .accept false (.accepted fd [] .ok), .listen false, .listen false]

/-- The worker takes a connection, answers it, and keeps it. -/
def serveRun : List (NetAction smallest) :=
  [.work smallest.first, .serve smallest.first (.keepAlive .http11 0)]

end Net

end Celeritas
