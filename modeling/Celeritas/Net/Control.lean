import Celeritas.Net.Move

/-!
# The thread pool: the flags and the order of the shutdown

What holds in every reachable state whatever has gone wrong with the connections: which flag
is set when, who has exited by then, and what the local variables of a thread have to do
with its program point.

`server_shutdown` is the only thread that touches the flags, so the other threads' part in
this is a frame condition.
-/

set_option autoImplicit false

namespace Celeritas

open Lib

/-- How far the shutdown has come. -/
def ServerPc.rank : ServerPc → ℕ
  | .running => 0
  | .closeHttp => 1
  | .closeHttps => 2
  | .joinHttp => 3
  | .joinHttps => 4
  | .wakeWaitRoom => 5
  | .joinWaitRoom => 6
  | .wakeWorkers => 7
  | .joinWorker _ => 8
  | .joined => 9

namespace Net

variable {p : Params}

/-- What a step of any thread but the shutdown leaves alone. -/
structure Frame (s s' : Net p) : Prop where
  server : s'.server = s.server
  shuttingDown : s'.shuttingDown = s.shuttingDown
  work : s'.work.capacity = s.work.capacity ∧ s'.work.shuttingDown = s.work.shuttingDown
  wait : s'.wait.capacity = s.wait.capacity ∧ s'.wait.shuttingDown = s.wait.shuttingDown
  listener : ∀ tls, s.listener tls = .exited → s'.listener tls = .exited
  waitRoom : s.waitRoom = .exited → s'.waitRoom = .exited

/-! ## The frames -/

theorem frame_setListener {s t : Net p} {tls : Bool} {pc : ListenerPc}
    (hne : s.listener tls ≠ .exited) (hserver : t.server = s.server)
    (hsd : t.shuttingDown = s.shuttingDown)
    (hwork : t.work.capacity = s.work.capacity ∧ t.work.shuttingDown = s.work.shuttingDown)
    (hwait : t.wait = s.wait) (hlis : t.listener = s.listener) (hwr : t.waitRoom = s.waitRoom) :
    Frame s (t.setListener tls pc) where
  server := hserver
  shuttingDown := hsd
  work := hwork
  wait := by rw [show (t.setListener tls pc).wait = s.wait from hwait]; exact ⟨rfl, rfl⟩
  listener u hu := by
    have hut : u ≠ tls := fun h => hne (h ▸ hu)
    simp only [setListener, Function.update_of_ne hut, hlis, hu]
  waitRoom h := hwr.trans h

theorem ListenerMove.frame {s s' : Net p} {tls : Bool} {a : NetAction p}
    (h : ListenerMove s tls a s') : Frame s s' := by
  cases h with
  | pushed conn q hpc hq =>
    obtain ⟨_, _, _, hcap, hsd⟩ := queuePush_some hq
    exact frame_setListener (by simp [hpc]) rfl rfl ⟨hcap, hsd⟩ rfl rfl rfl
  | _ => exact frame_setListener (by simp [*]) rfl rfl ⟨rfl, rfl⟩ rfl rfl rfl

theorem WorkerMove.frame {s s' : Net p} {w : Fin p.nWorkers} (h : WorkerMove s w s') :
    Frame s s' := by
  cases h with
  | popped conn q hpc hq =>
    obtain ⟨_, _, hcap, hsd⟩ := queuePop_item hq
    exact ⟨rfl, rfl, ⟨hcap, hsd⟩, ⟨rfl, rfl⟩, fun _ => id, id⟩
  | pushed conn q hpc hq =>
    obtain ⟨_, _, _, hcap, hsd⟩ := queuePush_some hq
    exact ⟨rfl, rfl, ⟨rfl, rfl⟩, ⟨hcap, hsd⟩, fun _ => id, id⟩
  | _ => exact ⟨rfl, rfl, ⟨rfl, rfl⟩, ⟨rfl, rfl⟩, fun _ => id, id⟩

theorem WaitRoomMove.frame {s s' : Net p} (h : WaitRoomMove s s') : Frame s s' := by
  cases h with
  | popped conn q hpc hq =>
    obtain ⟨_, _, hcap, hsd⟩ := queuePop_item hq
    exact ⟨rfl, rfl, ⟨rfl, rfl⟩, ⟨hcap, hsd⟩, fun _ => id, fun he => by simp [hpc] at he⟩
  | pushed conn evs q hpc hq =>
    obtain ⟨_, _, _, hcap, hsd⟩ := queuePush_some hq
    exact ⟨rfl, rfl, ⟨hcap, hsd⟩, ⟨rfl, rfl⟩, fun _ => id, fun he => by simp [hpc] at he⟩
  | resume conn k hpc =>
    cases k <;>
      exact ⟨rfl, rfl, ⟨rfl, rfl⟩, ⟨rfl, rfl⟩, fun _ => id, fun he => by simp [hpc] at he⟩
  | _ => exact ⟨rfl, rfl, ⟨rfl, rfl⟩, ⟨rfl, rfl⟩, fun _ => id, fun he => by simp_all⟩

theorem frame_of_step {s s' : Net p} {a : NetAction p} (hs : s.step a = some s')
    (ha : a.thread ≠ .server) : Frame s s' := by
  cases step_cases hs with
  | listener tls _ _ hm => exact hm.frame
  | worker w _ _ hm => exact hm.frame
  | waitRoom _ _ hm => exact hm.frame
  | server => exact absurd rfl ha

/-! ## The invariants -/

/-- The wait room's local variables: what it is about to register is in the pool, what the
sweep is about to close is in its slot. -/
structure WaitRoomOk (s : Net p) : Prop where
  registering : s.waitRoom = .registering → s.wrConn ∈ s.pool.items
  sweeping : ∀ conn i now, s.waitRoom = .closing conn (.sweep i now) →
    s.pool.items[i]? = some conn

/-- A listener that was given no descriptor has a zeroed `conn`, and does not push it. -/
structure ListenerOk (s : Net p) : Prop where
  nextId_pos : 1 ≤ s.nextId
  not_accepted : ∀ tls rv conn, s.listener tls = .checking rv conn → conn.id = 0 →
    conn.fd = 0 ∧ (rv = 0 → s.shuttingDown = true)

/-- The flags and the shutdown's progress. -/
structure FlagsOk (s : Net p) : Prop where
  work_capacity : s.work.capacity = p.capacity
  wait_capacity : s.wait.capacity = p.capacity
  flag : s.shuttingDown = true ↔ 1 ≤ s.server.rank
  wait_flag : s.wait.shuttingDown = true ↔ 6 ≤ s.server.rank
  work_flag : s.work.shuttingDown = true ↔ 8 ≤ s.server.rank
  http_exited : 4 ≤ s.server.rank → s.listener false = .exited
  https_exited : 5 ≤ s.server.rank → s.listener true = .exited
  waitRoom_exited : 7 ≤ s.server.rank → s.waitRoom = .exited

theorem FlagsOk.frame {s s' : Net p} (h : s.FlagsOk) (hf : Frame s s') : s'.FlagsOk where
  work_capacity := hf.work.1.trans h.work_capacity
  wait_capacity := hf.wait.1.trans h.wait_capacity
  flag := by rw [hf.shuttingDown, hf.server]; exact h.flag
  wait_flag := by rw [hf.wait.2, hf.server]; exact h.wait_flag
  work_flag := by rw [hf.work.2, hf.server]; exact h.work_flag
  http_exited := by rw [hf.server]; exact fun hr => hf.listener _ (h.http_exited hr)
  https_exited := by rw [hf.server]; exact fun hr => hf.listener _ (h.https_exited hr)
  waitRoom_exited := by rw [hf.server]; exact fun hr => hf.waitRoom (h.waitRoom_exited hr)

/-- The shutdown's own steps: each sets what its rank says is set, or has waited for it. -/
theorem FlagsOk.server {s s' : Net p} (h : s.FlagsOk) (hs : s.serverStep = some s') :
    s'.FlagsOk := by
  obtain ⟨hwc, hac, hf, haf, hwf, hh, hhs, hwr⟩ := h
  unfold serverStep at hs
  cases hpc : s.server <;> simp only [hpc] at hs
  case running | closeHttp | closeHttps | wakeWaitRoom | wakeWorkers =>
    obtain rfl := Option.some.inj hs
    constructor <;> simp_all [ServerPc.rank, WorkQueue.shutdown]
  case joinHttp | joinHttps | joinWaitRoom =>
    split at hs
    · obtain rfl := Option.some.inj hs
      constructor <;> simp_all [ServerPc.rank]
    · exact absurd hs (by simp)
  case joinWorker i =>
    split at hs
    · split at hs
      · obtain rfl := Option.some.inj hs
        constructor <;> simp_all [ServerPc.rank]
      · exact absurd hs (by simp)
    · obtain rfl := Option.some.inj hs
      constructor <;> simp_all [ServerPc.rank]
  case joined => exact absurd hs (by simp)

/-- What the shutdown's own steps leave alone. -/
structure ServerFrame (s s' : Net p) : Prop where
  listener : s'.listener = s.listener
  worker : s'.worker = s.worker
  waitRoom : s'.waitRoom = s.waitRoom
  wrConn : s'.wrConn = s.wrConn
  pool : s'.pool = s.pool
  fds : s'.fds = s.fds
  nextId : s'.nextId = s.nextId
  closeCalls : s'.closeCalls = s.closeCalls
  work : s'.work.contents = s.work.contents ∧ s'.work.capacity = s.work.capacity
  wait : s'.wait.contents = s.wait.contents ∧ s'.wait.capacity = s.wait.capacity
  shuttingDown : s.shuttingDown = true → s'.shuttingDown = true
  wait_flag : s.wait.shuttingDown = true → s'.wait.shuttingDown = true

theorem serverStep_frame {s s' : Net p} (hs : s.serverStep = some s') : ServerFrame s s' := by
  unfold serverStep at hs
  cases hpc : s.server <;> simp only [hpc] at hs
  case running | closeHttp | closeHttps | wakeWaitRoom | wakeWorkers =>
    obtain rfl := Option.some.inj hs
    constructor <;> simp [WorkQueue.shutdown, WorkQueue.contents]
  case joinHttp | joinHttps | joinWaitRoom =>
    split at hs
    · obtain rfl := Option.some.inj hs
      constructor <;> simp
    · exact absurd hs (by simp)
  case joinWorker i =>
    split at hs
    · split at hs
      · obtain rfl := Option.some.inj hs
        constructor <;> simp
      · exact absurd hs (by simp)
    · obtain rfl := Option.some.inj hs
      constructor <;> simp
  case joined => exact absurd hs (by simp)

theorem FlagsOk.step {s s' : Net p} {a : NetAction p} (h : s.FlagsOk)
    (hs : s.step a = some s') : s'.FlagsOk := by
  cases step_cases hs with
  | listener tls _ _ hm => exact h.frame hm.frame
  | worker w _ _ hm => exact h.frame hm.frame
  | waitRoom _ _ hm => exact h.frame hm.frame
  | server hm => exact h.server hm

theorem FlagsOk.init (mem : ℕ → Conn) (conn : Conn) : (Net.init p mem conn).FlagsOk := by
  constructor <;> simp [Net.init, queueInit, ServerPc.rank]

theorem ListenerMove.nextId_le {s s' : Net p} {tls : Bool} {a : NetAction p}
    (h : ListenerMove s tls a s') : s.nextId ≤ s'.nextId := by
  cases h with
  | accepted => exact Nat.le_succ _
  | _ => exact Nat.le_refl _

/-- The other listener stays where it is. -/
theorem ListenerMove.other {s s' : Net p} {tls u : Bool} {a : NetAction p}
    (h : ListenerMove s tls a s') (hu : u ≠ tls) : s'.listener u = s.listener u := by
  cases h <;> exact Function.update_of_ne hu _ _

theorem WorkerMove.other {s s' : Net p} {w v : Fin p.nWorkers} (h : WorkerMove s w s')
    (hv : v ≠ w) : s'.worker v = s.worker v := by
  cases h with
  | io => rfl
  | _ => exact Function.update_of_ne hv _ _

/-- A listener is moved by its own steps only. -/
theorem listener_of_step {s s' : Net p} {a : NetAction p} {tls : Bool}
    (hs : s.step a = some s') (ha : a.thread ≠ .listener tls) :
    s'.listener tls = s.listener tls := by
  cases step_cases hs with
  | listener u _ hu hm => exact hm.other fun h => ha (h ▸ hu)
  | worker w _ _ hm => cases hm <;> rfl
  | waitRoom _ _ hm =>
    cases hm with
    | resume conn k => cases k <;> rfl
    | _ => rfl
  | server hm => rw [(serverStep_frame hm).listener]

theorem worker_of_step {s s' : Net p} {a : NetAction p} {w : Fin p.nWorkers}
    (hs : s.step a = some s') (ha : a.thread ≠ .worker w) : s'.worker w = s.worker w := by
  cases step_cases hs with
  | listener tls _ _ hm => cases hm <;> rfl
  | worker v _ hv hm => exact hm.other fun h => ha (h ▸ hv)
  | waitRoom _ _ hm =>
    cases hm with
    | resume conn k => cases k <;> rfl
    | _ => rfl
  | server hm => rw [(serverStep_frame hm).worker]

theorem ListenerOk.step {s s' : Net p} {a : NetAction p} (h : s.ListenerOk)
    (hs : s.step a = some s') : s'.ListenerOk := by
  obtain ⟨hpos, hna⟩ := h
  cases step_cases hs with
  | listener tls a _ hm =>
    refine ⟨hpos.trans hm.nextId_le, fun u rv conn hpc hid => ?_⟩
    by_cases hu : u = tls
    · subst hu
      cases hm <;> simp only [setListener, Function.update_self, ListenerPc.checking.injEq,
        reduceCtorEq] at hpc
      case failed rv' _ hrv =>
        obtain ⟨rfl, rfl⟩ := hpc
        exact ⟨rfl, hrv⟩
      case accepted _ conn' _ _ _ _ hid' _ =>
        obtain ⟨rfl, rfl⟩ := hpc
        omega
    · rw [hm.frame.shuttingDown]
      exact hna u rv conn ((hm.other hu).symm.trans hpc) hid
  | worker w _ _ hm => cases hm <;> exact ⟨hpos, hna⟩
  | waitRoom _ _ hm =>
    cases hm with
    | resume conn k _ => cases k <;> exact ⟨hpos, hna⟩
    | _ => exact ⟨hpos, hna⟩
  | server hm =>
    have hf := serverStep_frame hm
    refine ⟨hf.nextId ▸ hpos, fun tls rv conn hpc hid => ?_⟩
    rw [hf.listener] at hpc
    exact ⟨(hna tls rv conn hpc hid).1,
      fun hrv => hf.shuttingDown ((hna tls rv conn hpc hid).2 hrv)⟩

theorem WaitRoomOk.step {s s' : Net p} {a : NetAction p} (h : s.WaitRoomOk)
    (hs : s.step a = some s') : s'.WaitRoomOk := by
  cases step_cases hs with
  | listener tls a _ hm => cases hm <;> exact ⟨h.registering, h.sweeping⟩
  | worker w _ _ hm => cases hm <;> exact ⟨h.registering, h.sweeping⟩
  | waitRoom _ _ hm =>
    cases hm with
    | added pool hpc hadd =>
      obtain ⟨hitems, _⟩ := poolAdd_some hadd
      exact ⟨fun _ => by simp [hitems], fun _ _ _ hc => by simp at hc⟩
    | expired i now conn hpc hi =>
      refine ⟨fun hc => by simp at hc, fun conn' i' now' hc => ?_⟩
      simp only [WaitRoomPc.closing.injEq, CloseCont.sweep.injEq] at hc
      obtain ⟨rfl, rfl, rfl⟩ := hc
      exact hi
    | resume conn k _ => cases k <;> constructor <;> simp [afterClose]
    | _ => constructor <;> simp
  | server hm =>
    have hf := serverStep_frame hm
    exact ⟨by rw [hf.waitRoom, hf.wrConn, hf.pool]; exact h.registering,
      by rw [hf.waitRoom, hf.pool]; exact h.sweeping⟩

/-- What holds in every reachable state, whatever the run. -/
structure Wf (s : Net p) : Prop where
  flags : s.FlagsOk
  listeners : s.ListenerOk
  waitRoom : s.WaitRoomOk

theorem Wf.step {s s' : Net p} {a : NetAction p} (h : s.Wf) (hs : s.step a = some s') : s'.Wf :=
  ⟨h.flags.step hs, h.listeners.step hs, h.waitRoom.step hs⟩

theorem ListenerOk.init (mem : ℕ → Conn) (conn : Conn) : (Net.init p mem conn).ListenerOk := by
  constructor <;> simp [Net.init]

theorem WaitRoomOk.init (mem : ℕ → Conn) (conn : Conn) : (Net.init p mem conn).WaitRoomOk := by
  constructor <;> simp [Net.init]

theorem Wf.init (mem : ℕ → Conn) (conn : Conn) : (Net.init p mem conn).Wf :=
  ⟨.init mem conn, .init mem conn, .init mem conn⟩

/-- The shutdown flag is never taken back. -/
theorem running_of_step {s s' : Net p} {a : NetAction p} (hs : s.step a = some s')
    (h : s'.shuttingDown = false) : s.shuttingDown = false := by
  cases step_cases hs with
  | listener tls _ _ hm => rw [← hm.frame.shuttingDown]; exact h
  | worker w _ _ hm => rw [← hm.frame.shuttingDown]; exact h
  | waitRoom _ _ hm => rw [← hm.frame.shuttingDown]; exact h
  | server hm =>
    exact Bool.eq_false_iff.mpr fun hb =>
      absurd ((serverStep_frame hm).shuttingDown hb) (by simp [h])

/-- The wait queue's flag comes after it. -/
theorem FlagsOk.wait_running {s : Net p} (h : s.FlagsOk) (hsd : s.shuttingDown = false) :
    s.wait.shuttingDown = false := by
  apply Bool.eq_false_iff.mpr
  intro hw
  have hr := h.wait_flag.mp hw
  exact absurd (h.flag.mpr (by omega)) (by simp [hsd])

end Net

end Celeritas
