import Celeritas.Net.Schedule
import Mathlib.Data.Fintype.Card

/-!
# The thread pool: the circular wait

Workers push kept-alive connections to the wait queue, which only the wait-room thread pops;
the wait-room thread pushes readable ones to the work queue, which only workers pop. Both
queues are bounded, so each side can wait for the other: both queues full, every worker with
one connection in hand and the wait-room thread with one more. That takes
`2 * capacity + nWorkers + 1` connections at once, and any smaller number is safe.
-/

set_option autoImplicit false

namespace Celeritas

open Lib

namespace Net

variable {p : Params} {M : ℕ}

/-- The wait-room thread is in `queue_push` on the full work queue, and every worker in
`queue_push` on the full wait queue. -/
structure Deadlocked (s : Net p) : Prop where
  work_full : s.work.count = s.work.capacity
  wait_full : s.wait.count = s.wait.capacity
  waitRoom : ∃ conn evs, s.waitRoom = .pushing conn evs
  worker : ∀ w, ∃ conn, s.worker w = .pushing conn

/-- **No thread can end it**: not the listeners, and not `server_shutdown`. -/
theorem Deadlocked.step {s s' : Net p} {a : NetAction p} (h : s.Deadlocked)
    (hs : s.step a = some s') : s'.Deadlocked := by
  obtain ⟨hwf, haf, ⟨conn, evs, hwr⟩, hw⟩ := h
  have hwork : ∀ c, queuePush s.work c = none := fun c => queuePush_eq_none.mpr hwf
  have hwait : ∀ c, queuePush s.wait c = none := fun c => queuePush_eq_none.mpr haf
  cases step_cases hs with
  | listener tls _ _ hm =>
    cases hm with
    | pushed c q _ hq => exact absurd (hq.symm.trans (hwork c)) (by simp)
    | _ => exact ⟨hwf, haf, ⟨conn, evs, hwr⟩, hw⟩
  | worker w _ _ hm =>
    obtain ⟨c, hc⟩ := hw w
    cases hm with
    | pushed c q _ hq => exact absurd (hq.symm.trans (hwait c)) (by simp)
    | _ => simp_all
  | waitRoom _ _ hm =>
    cases hm with
    | pushed c evs q _ hq => exact absurd (hq.symm.trans (hwork c)) (by simp)
    | _ => simp_all
  | server hm =>
    have hf := serverStep_frame hm
    refine ⟨?_, ?_, hf.waitRoom ▸ ⟨conn, evs, hwr⟩, hf.worker ▸ hw⟩
    · rw [← s'.work.length_contents, hf.work.1, hf.work.2, s.work.length_contents, hwf]
    · rw [← s'.wait.length_contents, hf.wait.1, hf.wait.2, s.wait.length_contents, haf]

/-- A deadlock holds a connection in every place it has. -/
theorem Deadlocked.card_held {s : Net p} (h : s.Deadlocked) (hw : s.Wf) :
    2 * p.capacity + p.nWorkers + 1 ≤ s.held.card := by
  obtain ⟨hwf, haf, ⟨conn, evs, hwr⟩, hwk⟩ := h
  have hworkers : (∑ w, (s.worker w).held).card = p.nWorkers := by
    have hone : ∀ w, (s.worker w).held.card = 1 := by
      intro w
      obtain ⟨c, hc⟩ := hwk w
      rw [hc]
      rfl
    rw [Multiset.card_sum, Finset.sum_congr rfl fun w _ => hone w]
    simp
  have hroom : (s.waitRoom.held s.wrConn s.pool).card = 1 + s.pool.items.length := by
    rw [hwr]
    simp [WaitRoomPc.held, Nat.add_comm]
  simp only [held, elsewhere, Multiset.card_add, card_handles, WorkQueue.length_contents,
    hworkers, hroom, hwf, haf, hw.flags.work_capacity, hw.flags.wait_capacity]
  omega

/-- The wait-room thread takes the one parked connection, registers it, is told that it is
readable, and has it in hand. -/
theorem Filling.readable {s : Net p} {k a j : ℕ} (h : Filling s k a 1 j .top)
    (hopen : ∀ c ∈ s.wait.contents, c.fd ∈ s.fds.map Prod.fst) :
    ∃ s' conn, Reach Net.step (Admits M) s s' ∧ Filling s' k a 0 j (.pushing conn []) := by
  have hne : s.wait.count ≠ 0 := by
    rw [h.wait_count]
    exact Nat.one_ne_zero
  have hcap : ¬ s.pool.count ≥ s.pool.capacity := by
    rw [ConnPool.count, h.pool.1, h.pool.2]
    exact Nat.not_le.mpr p.poolSize_pos
  let conn := s.wait.buf s.wait.head
  have hfd : conn.fd ∈ s.fds.map Prod.fst := hopen conn <| by
    rw [s.wait.contents_dequeue hne]
    exact List.mem_cons_self
  obtain ⟨pool, hadd⟩ : ∃ pool, poolAdd s.pool conn = some pool := by
    rw [poolAdd, dif_neg hcap]
    exact ⟨_, rfl⟩
  obtain ⟨hitems, hsize, _⟩ := poolAdd_some hadd
  rw [h.pool.1, List.nil_append] at hitems
  obtain ⟨pool', hrem, hempty, hsize'⟩ := poolRemoveByFd_singleton hitems
  have hzero : (s.wait.dequeue hne).count = 0 := by
    simp [WorkQueue.dequeue, h.wait_count]
  have hlast : queuePop (s.wait.dequeue hne) = .empty :=
    queuePop_eq_empty.mpr ⟨hzero, h.wait_flag⟩
  let s₁ := { s with waitRoom := .draining }
  let s₂ := { s₁ with wait := s.wait.dequeue hne, wrConn := conn, waitRoom := .adding }
  let s₃ := { s₂ with pool := pool, waitRoom := .registering }
  let s₄ := { s₃ with
    watched := Function.update s.watched conn.fd (some true), waitRoom := .draining }
  let s₅ := { s₄ with waitRoom := .polling }
  let s₆ := { s₅ with
    watched := fun fd => if fd ∈ [conn.fd] then some false else s₅.watched fd
    waitRoom := .events [(conn.fd, false)] }
  let s₇ := { s₆ with pool := pool', waitRoom := .pushing conn [] }
  have h₁ : s.step .waitRoom = some s₁ := by
    simp [step, waitRoomStep, h.waitRoom, h.shuttingDown, s₁]
  have h₂ : s₁.step .waitRoom = some s₂ := by
    simp [step, waitRoomStep, queueTrypop, hne, s₁, s₂, conn]
  have h₃ : s₂.step .waitRoom = some s₃ := by
    simp [step, waitRoomStep, hadd, s₁, s₂, s₃]
  have h₄ : s₃.step (.register true) = some s₄ := by
    simp only [step, registerStep, if_true, if_pos hfd, s₁, s₂, s₃, s₄]
  have h₅ : s₄.step .waitRoom = some s₅ := by
    simp [step, waitRoomStep, queueTrypop_eq_queuePop, hlast, s₁, s₂, s₃, s₄, s₅]
  have h₆ : s₅.step (.poll [(conn.fd, false)]) = some s₆ := by
    simp [step, pollStep, MAX_WAIT_EVENTS, s₁, s₂, s₃, s₄, s₅, s₆]
  have h₇ : s₆.step .waitRoom = some s₇ := by
    simp [step, waitRoomStep, hrem, s₁, s₂, s₃, s₄, s₅, s₆, s₇]
  refine ⟨s₇, conn, .head _ h₁ (admits_of_ne (by simp)) <| .head _ h₂ (admits_of_ne (by simp)) <|
    .head _ h₃ (admits_of_ne (by simp)) <| .head _ h₄ (admits_of_ne (by simp)) <|
    .head _ h₅ (admits_of_ne (by simp)) <| .head _ h₆ (admits_of_ne (by simp)) <|
    .single _ h₇ (admits_of_ne (by simp)), ?_⟩
  exact ⟨h.fds_lt, h.length_fds, h.listening, h.running, h.shuttingDown, h.listener,
    h.work_count, h.work_capacity, h.work_flag, hzero, h.wait_capacity, h.wait_flag, h.pushing,
    h.popping, rfl, hempty, by rw [← h.pool.2, ← hsize, ← hsize']⟩

theorem deadlock_reachable (mem : ℕ → Conn) (conn : Conn)
    (hM : 2 * p.capacity + p.nWorkers + 1 ≤ M) :
    ∃ s : Net p, Reach Net.step (Admits M) (Net.init p mem conn) s ∧
      s.shuttingDown = false ∧ s.Deadlocked := by
  obtain ⟨s₁, hr₁, h₁⟩ := (Filling.init (p := p) mem conn).arrive (M := M) (by omega) p.capacity_pos
  obtain ⟨s₂, hr₂, h₂⟩ := h₁.serve (M := M) p.first rfl
  obtain ⟨s₃, hr₃, h₃⟩ := h₂.park (M := M) p.first rfl p.capacity_pos
  have hr : Reach Net.step (Admits M) (Net.init p mem conn) s₃ := hr₁.trans (hr₂.trans hr₃)
  have hopen : ∀ c ∈ s₃.wait.contents, c.fd ∈ s₃.fds.map Prod.fst := by
    intro c hc
    have hheld : c.handle ∈ s₃.held := by
      simp only [held, elsewhere, Multiset.mem_add]
      exact .inl (.inr (handle_mem hc))
    exact List.mem_map_of_mem (f := Prod.fst)
      ((owned_of_reach hr h₃.shuttingDown).held_open _ hheld)
  obtain ⟨s₄, c, hr₄, h₄⟩ := h₃.readable (M := M) hopen
  obtain ⟨s₅, hr₅, h₅⟩ := h₄.fillWait (M := M) p.capacity (by omega) le_rfl
  obtain ⟨s₆, hr₆, h₆⟩ := h₅.block (M := M) p.nWorkers (by omega) le_rfl
  obtain ⟨s₇, hr₇, h₇⟩ := h₆.fillWork (M := M) p.capacity (by omega) le_rfl
  refine ⟨s₇, hr.trans (hr₄.trans (hr₅.trans (hr₆.trans hr₇))), h₇.shuttingDown, ?_⟩
  exact ⟨h₇.work_count.trans h₇.work_capacity.symm, h₇.wait_count.trans h₇.wait_capacity.symm,
    ⟨c, [], h₇.waitRoom⟩, fun w => h₇.pushing w w.isLt⟩

/-- **The queues cannot deadlock if and only if at most `2 * capacity + nWorkers` accepted
descriptors are open at once.** -/
theorem not_deadlocked_iff (mem : ℕ → Conn) (conn : Conn) (M : ℕ) :
    (∀ s : Net p, Reach Net.step (Admits M) (Net.init p mem conn) s → s.shuttingDown = false →
      ¬ s.Deadlocked) ↔ M ≤ 2 * p.capacity + p.nWorkers := by
  constructor
  · intro h
    by_contra hM
    obtain ⟨s, hr, hsd, hd⟩ := deadlock_reachable (p := p) (M := M) mem conn (by omega)
    exact h s hr hsd hd
  · intro hM s hr hsd hd
    have h₁ := hd.card_held (wf_of_reach hr)
    have h₂ := (owned_of_reach hr hsd).card_held_le
    have h₃ := length_fds_le_of_reach hr
    omega

/-! ## The smallest deadlock

Queues of one slot and one worker: four connections. -/

def deadlockRun : List (NetAction smallest) :=
  admitRun 1 ++ serveRun ++ [.work smallest.first, .waitRoom, .waitRoom, .waitRoom,
    .register true, .waitRoom, .poll [(1, false)], .waitRoom] ++
  admitRun 2 ++ serveRun ++ [.work smallest.first] ++ admitRun 3 ++ serveRun ++ admitRun 4

theorem deadlockRun_deadlocks : ∃ s : Net smallest,
    run Net.step (Net.init smallest (fun _ => {}) {}) deadlockRun = some s ∧
      s.shuttingDown = false ∧ s.Deadlocked :=
  ⟨_, rfl, rfl, rfl, rfl, ⟨_, _, rfl⟩, fun ⟨0, _⟩ => ⟨_, rfl⟩⟩

end Net

end Celeritas
