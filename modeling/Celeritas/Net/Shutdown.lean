import Celeritas.Net.Schedule
import Mathlib.Algebra.Order.BigOperators.Group.Finset

/-!
# The thread pool: the shutdown

`server_shutdown` joins the threads one after the other, and sets a queue's flag only when
its turn comes. The flag of a queue wakes who waits for an element; nobody wakes who waits
for room. A worker that has a kept-alive connection to push when the wait-room thread is
gone therefore waits for ever, and so does the shutdown (`stuck_reachable`). It takes a
full wait queue and one connection more: with `capacity` open descriptors or fewer it
cannot happen.

The one thing that stands in the way of counting is the drain loop's stale pass, which
copies a connection. But after one the wait-room thread never leaves its drain loop again,
and the shutdown never gets past it (`Trapped`).
-/

set_option autoImplicit false

namespace Celeritas

open Lib

namespace Net

variable {p : Params} {M : ℕ}

/-! ## Who waits for whom -/

/-- Who pushes to the queue or pops it. `server_shutdown` signals it too, but not while it
joins a thread. -/
def QueueName.user : QueueName → Thread p → Prop
  | _, .server => False
  | .wait, .listener _ => False
  | _, _ => True

/-- The thread waits on one of the queue's condition variables. -/
def BlockedOn (s : Net p) : Thread p → QueueName → Prop
  | .listener tls, .work => ∃ conn, s.listener tls = .pushing conn ∧
      s.work.count = s.work.capacity
  | .worker w, .work => s.worker w = .popping ∧ s.work.count = 0 ∧ s.work.shuttingDown = false
  | .worker w, .wait => ∃ conn, s.worker w = .pushing conn ∧ s.wait.count = s.wait.capacity
  | .waitRoom, .work => ∃ conn evs, s.waitRoom = .pushing conn evs ∧
      s.work.count = s.work.capacity
  | _, _ => False

def Exited (s : Net p) : Thread p → Prop
  | .listener tls => s.listener tls = .exited
  | .worker w => s.worker w = .exited
  | .waitRoom => s.waitRoom = .exited
  | .server => False

/-- The thread `server_shutdown` is in `pthread_join` for. -/
def joining (s : Net p) : Option (Thread p) :=
  match s.server with
  | .joinHttp => some (.listener false)
  | .joinHttps => some (.listener true)
  | .joinWaitRoom => some .waitRoom
  | .joinWorker i => if h : i < p.nWorkers then some (.worker ⟨i, h⟩) else none
  | _ => none

/-- The shutdown joins a thread that waits on a queue, and nobody is left to wake it. -/
def Stuck (s : Net p) : Prop :=
  ∃ t q, s.joining = some t ∧ s.BlockedOn t q ∧
    ∀ u, QueueName.user q u → s.Exited u ∨ ∃ q', s.BlockedOn u q'

/-! ## With few connections -/

/-- The wait-room thread is in its drain loop and the wait queue's flag is set: every pop
from now on returns a connection or `-1`. -/
structure Trapped (s : Net p) : Prop where
  flag : s.wait.shuttingDown = true
  draining : s.waitRoom = .draining ∨ s.waitRoom = .adding ∨ s.waitRoom = .registering ∨
    (∃ conn, s.waitRoom = .closing conn .drain) ∨ ∃ conn, s.waitRoom = .closed conn .drain

theorem Trapped.step {s s' : Net p} {a : NetAction p} (h : s.Trapped)
    (hs : s.step a = some s') : s'.Trapped := by
  obtain ⟨hflag, hd⟩ := h
  cases step_cases hs with
  | listener tls _ _ hm =>
    have hwr : s'.waitRoom = s.waitRoom := by cases hm <;> rfl
    exact ⟨hm.frame.wait.2.trans hflag, hwr ▸ hd⟩
  | worker w _ _ hm =>
    have hwr : s'.waitRoom = s.waitRoom := by cases hm <;> rfl
    exact ⟨hm.frame.wait.2.trans hflag, hwr ▸ hd⟩
  | waitRoom _ _ hm =>
    refine ⟨hm.frame.wait.2.trans hflag, ?_⟩
    cases hm with
    | drained hpc hq => exact absurd (hflag.symm.trans hq) (by simp)
    | popped | stale => exact .inr (.inl rfl)
    | added => exact .inr (.inr (.inl rfl))
    | full | refused => exact .inr (.inr (.inr (.inl ⟨_, rfl⟩)))
    | registered => exact .inl rfl
    | close conn k hpc =>
      obtain rfl : k = .drain := by simpa [hpc] using hd
      exact .inr (.inr (.inr (.inr ⟨_, rfl⟩)))
    | resume conn k hpc =>
      obtain rfl : k = .drain := by simpa [hpc] using hd
      exact .inl rfl
    | _ hpc => simp_all
  | server hm =>
    have hf := serverStep_frame hm
    exact ⟨hf.wait_flag hflag, hf.waitRoom ▸ hd⟩

/-- The shutdown waits for the wait-room thread, which waits on no queue. -/
theorem Trapped.not_stuck {s : Net p} (h : s.Trapped) (hw : s.Wf) : ¬ s.Stuck := by
  rintro ⟨t, q, hjoin, hblocked, _⟩
  obtain ⟨hflag, hd⟩ := h
  have h₁ := hw.flags.wait_flag.mp hflag
  have h₂ : ¬ 7 ≤ s.server.rank := by
    intro hr
    rw [hw.flags.waitRoom_exited hr] at hd
    simp at hd
  obtain rfl : t = .waitRoom := by
    unfold joining at hjoin
    cases hpc : s.server <;> simp only [hpc, ServerPc.rank] at h₁ h₂ hjoin <;> simp_all
  cases q with
  | work =>
    obtain ⟨conn, evs, hwr, _⟩ := hblocked
    rw [hwr] at hd
    simp at hd
  | wait => exact hblocked

/-- The one step that is not clean traps the wait-room thread. -/
theorem trapped_of_stale {s s' : Net p} {a : NetAction p} (hs : s.step a = some s')
    (h : ¬ NotClosed s a s') : s'.Trapped := by
  simp only [NotClosed, Classical.not_imp, Bool.not_eq_false] at h
  obtain ⟨ha, hpc, hc, hflag⟩ := h
  have ht : s.Trapped := ⟨hflag, .inl hpc⟩
  exact ht.step hs

theorem owned_or_trapped_of_reach {s : Net p} {C : Net p → NetAction p → Net p → Prop}
    {mem : ℕ → Conn} {conn : Conn} (h : Reach Net.step C (Net.init p mem conn) s) :
    s.Owned ∨ s.Trapped := by
  have hinv : s.Wf ∧ (s.Owned ∨ s.Trapped) := by
    refine h.inv (I := fun s => s.Wf ∧ (s.Owned ∨ s.Trapped))
      ⟨.init mem conn, .inl (.init mem conn)⟩ ?_
    rintro t a u ⟨hw, hot⟩ hs _
    refine ⟨hw.step hs, ?_⟩
    rcases hot with ho | ht
    · by_cases hn : NotClosed t a u
      · exact .inl (ho.step hw hs hn)
      · exact .inr (trapped_of_stale hs hn)
    · exact .inr (ht.step hs)
  exact hinv.2

theorem card_listener_le (s : Net p) (tls : Bool) :
    (s.listener tls).held.card ≤ (∑ t, (s.listener t).held).card := by
  rw [Multiset.card_sum]
  exact Finset.single_le_sum (f := fun t => (s.listener t).held.card) (fun _ _ => Nat.zero_le _)
    (Finset.mem_univ tls)

theorem card_worker_le (s : Net p) (w : Fin p.nWorkers) :
    (s.worker w).held.card ≤ (∑ v, (s.worker v).held).card := by
  rw [Multiset.card_sum]
  exact Finset.single_le_sum (f := fun v => (s.worker v).held.card) (fun _ _ => Nat.zero_le _)
    (Finset.mem_univ w)

/-- A full queue and a connection that waits to be pushed to it are more than there are. -/
theorem Owned.not_stuck {s : Net p} (h : s.Owned) (hw : s.Wf) (hM : s.fds.length ≤ p.capacity) :
    ¬ s.Stuck := by
  rintro ⟨t, q, hjoin, hblocked, _⟩
  have hcard := h.card_held_le
  simp only [held, elsewhere, Multiset.card_add, card_handles, WorkQueue.length_contents]
    at hcard
  have hwc := hw.flags.work_capacity
  have hac := hw.flags.wait_capacity
  cases t with
  | listener tls =>
    cases q with
    | work =>
      obtain ⟨conn, hpc, hfull⟩ := hblocked
      have h₁ := s.card_listener_le tls
      rw [hpc, show (ListenerPc.pushing conn).held.card = 1 from rfl] at h₁
      omega
    | wait => exact hblocked
  | worker w =>
    cases q with
    | work =>
      -- the workers are joined after the work queue's flag has been set
      obtain ⟨_, _, hflag⟩ := hblocked
      have hrank : 8 ≤ s.server.rank := by
        unfold joining at hjoin
        cases hpc : s.server <;> simp only [hpc, reduceCtorEq, Option.some.injEq] at hjoin
        exact le_rfl
      exact absurd (hw.flags.work_flag.mpr hrank) (by simp [hflag])
    | wait =>
      obtain ⟨conn, hpc, hfull⟩ := hblocked
      have h₁ := s.card_worker_le w
      rw [hpc, show (WorkerPc.pushing conn).held.card = 1 from rfl] at h₁
      omega
  | waitRoom =>
    cases q with
    | work =>
      obtain ⟨conn, evs, hpc, hfull⟩ := hblocked
      rw [hpc] at hcard
      simp only [WaitRoomPc.held, Multiset.card_add, Multiset.card_singleton] at hcard
      omega
    | wait => exact hblocked
  | server => exact hblocked

/-! ## With one more -/

/-- With nothing to drain, the wait-room thread goes to wait for events. -/
theorem Filling.poll {s : Net p} {k a j : ℕ} (h : Filling s k a 0 j .top) :
    ∃ s', Reach Net.step (Admits M) s s' ∧ Filling s' k a 0 j .polling := by
  have hempty : queuePop s.wait = .empty := queuePop_eq_empty.mpr ⟨h.wait_count, h.wait_flag⟩
  refine ⟨{ s with waitRoom := .polling },
    reach_of_run [.waitRoom, .waitRoom] ?_ (by simp), ?_⟩
  · simp [run, step, waitRoomStep, queueTrypop_eq_queuePop, h.waitRoom, h.shuttingDown, hempty]
  · exact ⟨h.fds_lt, h.length_fds, h.listening, h.running, h.shuttingDown, h.listener,
      h.work_count, h.work_capacity, h.work_flag, h.wait_count, h.wait_capacity, h.wait_flag,
      h.pushing, h.popping, rfl, h.pool⟩

/-- The shutdown has come to the workers. The first one has something to push to the full
wait queue; of the others those before `i` have exited. -/
structure Leaving (s : Net p) (i : ℕ) : Prop where
  server : s.server = .joinWorker 0
  listener : ∀ tls, s.listener tls = .exited
  waitRoom : s.waitRoom = .exited
  work_count : s.work.count = 0
  work_flag : s.work.shuttingDown = true
  wait_full : s.wait.count = s.wait.capacity
  first : ∃ conn, s.worker p.first = .pushing conn
  exited : ∀ w : Fin p.nWorkers, 1 ≤ w.val → w.val < i → s.worker w = .exited
  popping : ∀ w : Fin p.nWorkers, 1 ≤ w.val → i ≤ w.val → s.worker w = .popping

/-- `server_shutdown` up to the workers. -/
def shutdownRun : List (NetAction p) :=
  [.server, .server, .server, .listen false, .listen true, .server, .server, .server,
    .poll [], .clock 0, .waitRoom, .waitRoom, .server, .server]

theorem update_both {α : Type*} (f : Bool → α) (x : α) :
    Function.update (Function.update f false x) true x = fun _ => x := by
  funext b
  cases b <;> simp

theorem Filling.leave {s : Net p} {k : ℕ} (h : Filling s k 0 p.capacity 1 .polling) :
    ∃ s', Reach Net.step (Admits M) s s' ∧ Leaving s' 1 := by
  -- the flag and the listeners
  let s₁ : Net p := { s with
    shuttingDown := true, listening := fun _ => false, listener := fun _ => .exited
    server := .joinHttp }
  have hr₁ : Reach Net.step (Admits M) s s₁ := by
    refine reach_of_run [.server, .server, .server, .listen false, .listen true] ?_ (by simp)
    simp [run, step, serverStep, listenStep, setListener, update_both, h.running, h.listener, s₁]
  -- they are joined, and the wait queue is told
  let s₂ : Net p := { s₁ with wait := s.wait.shutdown, server := .joinWaitRoom }
  have hr₂ : Reach Net.step (Admits M) s₁ s₂ := by
    refine reach_of_run [.server, .server, .server] ?_ (by simp)
    simp [run, step, serverStep, s₁, s₂]
  -- the wait-room thread comes to the end of its loop
  let s₃ : Net p := { s₂ with watched := fun _ => none, waitRoom := .exited }
  have hr₃ : Reach Net.step (Admits M) s₂ s₃ := by
    refine reach_of_run [.poll [], .clock 0, .waitRoom, .waitRoom] ?_ (by simp)
    simp [run, step, pollStep, clockStep, waitRoomStep, h.waitRoom, h.pool.1, s₁, s₂, s₃]
  -- it is joined, and the work queue is told
  let s₄ : Net p := { s₃ with work := s.work.shutdown, server := .joinWorker 0 }
  have hr₄ : Reach Net.step (Admits M) s₃ s₄ := by
    refine reach_of_run [.server, .server] ?_ (by simp)
    simp [run, step, serverStep, s₁, s₂, s₃, s₄]
  refine ⟨s₄, hr₁.trans (hr₂.trans (hr₃.trans hr₄)), ?_⟩
  exact ⟨rfl, fun _ => rfl, rfl, h.work_count, rfl, h.wait_count.trans h.wait_capacity.symm,
    h.pushing p.first Nat.one_pos, fun w h₁ h₂ => absurd h₂ (Nat.not_lt.mpr h₁),
    fun w h₁ _ => h.popping w h₁⟩

/-- A worker finds the work queue empty and its flag set. -/
theorem Leaving.next {s : Net p} {i : ℕ} (h : Leaving s i) (hi : 1 ≤ i) (hn : i < p.nWorkers) :
    ∃ s', Reach Net.step (Admits M) s s' ∧ Leaving s' (i + 1) := by
  let w : Fin p.nWorkers := ⟨i, hn⟩
  have hclosed : queuePop s.work = .closed := queuePop_eq_closed.mpr ⟨h.work_count, h.work_flag⟩
  refine ⟨s.setWorker w .exited, reach_of_run [.work w] ?_ (by simp), ?_⟩
  · simp [run, step, workStep, h.popping w hi le_rfl, hclosed]
  · have hother : ∀ v : Fin p.nWorkers, v.val ≠ i → (s.setWorker w .exited).worker v = s.worker v :=
      fun v hv => Function.update_of_ne (fun he => hv (congrArg Fin.val he)) _ _
    refine ⟨h.server, h.listener, h.waitRoom, h.work_count, h.work_flag, h.wait_full, ?_, ?_, ?_⟩
    · rw [hother p.first (Nat.ne_of_lt hi)]
      exact h.first
    · intro v h₁ h₂
      by_cases hv : v.val = i
      · rw [show v = w from Fin.ext hv]
        exact Function.update_self _ _ _
      · rw [hother v hv]
        exact h.exited v h₁ (by omega)
    · intro v h₁ h₂
      rw [hother v (by omega)]
      exact h.popping v h₁ (by omega)

theorem Leaving.all {s : Net p} (h : Leaving s 1) (i : ℕ) (hi : 1 ≤ i) (hn : i ≤ p.nWorkers) :
    ∃ s', Reach Net.step (Admits M) s s' ∧ Leaving s' i := by
  induction i, hi using Nat.le_induction with
  | base => exact ⟨s, .refl, h⟩
  | succ i hi ih =>
    obtain ⟨s₁, hr₁, h₁⟩ := ih (by omega)
    obtain ⟨s₂, hr₂, h₂⟩ := h₁.next (M := M) hi hn
    exact ⟨s₂, hr₁.trans hr₂, h₂⟩

theorem Leaving.stuck {s : Net p} (h : Leaving s p.nWorkers) : s.Stuck := by
  obtain ⟨conn, hfirst⟩ := h.first
  have hblocked : s.BlockedOn (.worker p.first) .wait := ⟨conn, hfirst, h.wait_full⟩
  refine ⟨.worker p.first, .wait, ?_, hblocked, fun u hu => ?_⟩
  · rw [joining, h.server]
    exact dif_pos p.nWorkers_pos
  · cases u with
    | listener tls => exact absurd hu (by simp [QueueName.user])
    | worker w =>
      rcases Nat.eq_zero_or_pos w.val with hw | hw
      · rw [show w = p.first from Fin.ext hw]
        exact .inr ⟨.wait, hblocked⟩
      · exact .inl (h.exited w hw w.isLt)
    | waitRoom => exact .inl h.waitRoom
    | server => exact absurd hu (by simp [QueueName.user])

theorem stuck_reachable (mem : ℕ → Conn) (conn : Conn) (hM : p.capacity + 1 ≤ M) :
    ∃ s : Net p, Reach Net.step (Admits M) (Net.init p mem conn) s ∧ s.Stuck := by
  obtain ⟨s₁, hr₁, h₁⟩ := (Filling.init (p := p) mem conn).poll (M := M)
  obtain ⟨s₂, hr₂, h₂⟩ := h₁.fillWait (M := M) p.capacity (by omega) le_rfl
  obtain ⟨s₃, hr₃, h₃⟩ := h₂.block (M := M) 1 (by omega) p.nWorkers_pos
  obtain ⟨s₄, hr₄, h₄⟩ := h₃.leave (M := M)
  obtain ⟨s₅, hr₅, h₅⟩ := h₄.all (M := M) p.nWorkers p.nWorkers_pos le_rfl
  exact ⟨s₅, hr₁.trans (hr₂.trans (hr₃.trans (hr₄.trans hr₅))), h₅.stuck⟩

/-- **The shutdown cannot get stuck on a queue if and only if at most `capacity` accepted
descriptors are open at once.** -/
theorem not_stuck_iff (mem : ℕ → Conn) (conn : Conn) (M : ℕ) :
    (∀ s : Net p, Reach Net.step (Admits M) (Net.init p mem conn) s → ¬ s.Stuck) ↔
      M ≤ p.capacity := by
  constructor
  · intro h
    by_contra hM
    obtain ⟨s, hr, hst⟩ := stuck_reachable (p := p) (M := M) mem conn (by omega)
    exact h s hr hst
  · intro hM s hr
    have hw := wf_of_reach hr
    have hle := length_fds_le_of_reach hr
    rcases owned_or_trapped_of_reach hr with ho | ht
    · exact ho.not_stuck hw (hle.trans hM)
    · exact ht.not_stuck hw

/-! ## The smallest one

Queues of one slot and one worker: two connections. -/

def stuckRun : List (NetAction smallest) :=
  [.waitRoom, .waitRoom] ++ admitRun 1 ++ serveRun ++ [.work smallest.first] ++ admitRun 2 ++
    serveRun ++ shutdownRun

theorem stuckRun_sticks : ∃ s : Net smallest,
    run Net.step (Net.init smallest (fun _ => {}) {}) stuckRun = some s ∧
      s.server = .joinWorker 0 ∧ s.Stuck := by
  have hone : ∀ w : Fin smallest.nWorkers, ¬ 1 ≤ w.val := fun w => Nat.not_le.mpr w.isLt
  refine ⟨_, rfl, rfl, Leaving.stuck ⟨rfl, ?_, rfl, rfl, rfl, rfl, ⟨_, rfl⟩,
    fun w h => absurd h (hone w), fun w h => absurd h (hone w)⟩⟩
  decide

end Net

end Celeritas
