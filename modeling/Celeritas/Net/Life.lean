import Celeritas.Net.Owner
import Celeritas.Lib.Marking

/-!
# The life of a connection

What the threads do to one connection, without the threads: it is accepted, queued, served,
perhaps parked and waited for and queued again, and closed. `Stage.next` is that diagram; the
thread pool refines it, in that every step leaves all connections where they are or takes one
of them along one arrow (`life_cycle`). A connection leaves the diagram only at its arrow to
`forgotten`, which takes those whose TLS setup failed in a listener (`SetupFailed`).

A step changes one or two of the places of `Net.held`, and each change is an equation between
markings (`heldAt_setListener` and the others); adding them up gives the arrow (`Shift`).
-/

set_option autoImplicit false

namespace Celeritas

open Lib

/-! ## The diagram -/

/-- Who holds a connection. -/
inductive Place
  | listener
  | workQueue
  | worker
  | waitQueue
  | waitRoom
  deriving DecidableEq

def Place.all : List Place := [.listener, .workQueue, .worker, .waitQueue, .waitRoom]

theorem Place.mem_all (q : Place) : q ∈ Place.all := by cases q <;> decide

/-- `forgotten` is open, but nobody holds it. -/
inductive Stage
  | unaccepted
  | held (q : Place)
  | closed
  | forgotten
  deriving DecidableEq

/-- Where a connection can go from where it is. -/
def Stage.next : Stage → List Stage
  | .unaccepted => [.held .listener]
  | .held .listener => [.held .workQueue, .forgotten]
  | .held .workQueue => [.held .worker]
  | .held .worker => [.held .waitQueue, .closed]
  | .held .waitQueue => [.held .waitRoom]
  | .held .waitRoom => [.held .workQueue, .closed]
  | .closed => []
  | .forgotten => []

/-- One connection goes along one arrow, or none does; to `forgotten` goes only what `failed`. -/
def OneArrow (failed : ℕ → Prop) (f g : ℕ → Stage) : Prop :=
  g = f ∨ ∃ id, ∃ st ∈ (f id).next, (st = .forgotten → failed id) ∧ g = Function.update f id st

namespace Net

variable {p : Params}

/-- `held`, by who holds them. -/
def heldAt (s : Net p) : Marking Place Handle
  | .listener => ∑ tls, (s.listener tls).held
  | .workQueue => handles s.work.contents
  | .worker => ∑ w, (s.worker w).held
  | .waitQueue => handles s.wait.contents
  | .waitRoom => s.waitRoom.held s.wrConn s.pool

/-- The numbers of the connections. -/
def idsAt (s : Net p) : Marking Place ℕ := fun q => (s.heldAt q).map Handle.id

/-- The stage of a connection nobody holds. -/
def outside (s : Net p) (id : ℕ) : Stage :=
  if s.nextId ≤ id then .unaccepted
  else if id ∈ s.fds.map Prod.snd then .forgotten
  else .closed

def stage (s : Net p) (id : ℕ) : Stage :=
  match Place.all.find? fun q => id ∈ s.idsAt q with
  | some q => .held q
  | none => s.outside id

theorem sum_heldAt (s : Net p) : (Place.all.map s.heldAt).sum = s.held := by
  simp only [Place.all, List.map_cons, List.map_nil, List.sum_cons, List.sum_nil, heldAt, held,
    elsewhere]
  abel

theorem Owned.single {s : Net p} (h : s.Owned) : s.idsAt.Single := by
  have hsum : ∀ qs : List Place, (qs.map s.idsAt).sum = (qs.map s.heldAt).sum.map Handle.id := by
    intro qs
    induction qs with
    | nil => rfl
    | cons q qs ih => rw [List.map_cons, List.sum_cons, ih, List.map_cons, List.sum_cons,
        Multiset.map_add, idsAt]
  apply Marking.single_of_nodup Place.mem_all
  rw [hsum, sum_heldAt]
  exact h.held_nodup

theorem stage_of_at {s : Net p} (hs : s.idsAt.Single) {id : ℕ} {o : Option Place}
    (h : s.idsAt.At id o) : s.stage id = (o.map .held).getD (s.outside id) := by
  unfold stage
  cases hf : Place.all.find? fun q => id ∈ s.idsAt q with
  | some q =>
    have hq : id ∈ s.idsAt q := by simpa using List.find?_some hf
    rw [h.unique hs (show s.idsAt.At id (some q) from hq)]
    rfl
  | none =>
    cases o with
    | none => rfl
    | some q =>
      have hnot : id ∉ s.idsAt q := by simpa using List.find?_eq_none.mp hf q q.mem_all
      exact absurd h hnot

theorem exists_at (s : Net p) (id : ℕ) : ∃ o, s.idsAt.At id o := by
  by_cases h : ∃ q, id ∈ s.idsAt q
  · obtain ⟨q, hq⟩ := h
    exact ⟨some q, hq⟩
  · exact ⟨none, not_exists.mp h⟩

/-! ## What is forgotten -/

/-- A listener is going back to its loop with a connection that it has accepted, and of which no
SSL object could be made, or none that was given the descriptor. -/
def SetupFailed (s : Net p) (id : ℕ) : Prop :=
  ∃ tls rv conn, s.listener tls = .checking rv conn ∧ rv ≠ 0 ∧ conn.id = id ∧
    conn.isTls = true ∧ conn.tlsFd = none

theorem acceptConnection_setupFailed {sd tls : Bool} {id fd : ℕ} {remoteIp : CLib.Bytes}
    {t : TlsSetup} (h : (acceptConnection sd tls id (.accepted fd remoteIp t)).1 ≠ 0) :
    (acceptConnection sd tls id (.accepted fd remoteIp t)).2.isTls = true ∧
      (acceptConnection sd tls id (.accepted fd remoteIp t)).2.tlsFd = none := by
  cases tls with
  | false => exact absurd rfl h
  | true =>
    cases t with
    | ok => exact absurd rfl h
    | _ => exact ⟨rfl, rfl⟩

/-- Nothing else makes `accept_connection` fail with an accepted connection. -/
def FailsInSetup (s : Net p) : Prop :=
  ∀ tls rv conn, s.listener tls = .checking rv conn → rv ≠ 0 → conn.id ≠ 0 →
    conn.isTls = true ∧ conn.tlsFd = none

theorem FailsInSetup.init (mem : ℕ → Conn) (conn : Conn) : (Net.init p mem conn).FailsInSetup := by
  intro tls rv c hpc
  exact absurd hpc (by simp [Net.init])

theorem FailsInSetup.step {s s' : Net p} {a : NetAction p} (h : s.FailsInSetup)
    (hs : s.step a = some s') : s'.FailsInSetup := by
  intro tls rv conn hpc hrv hid
  by_cases ha : a.thread = .listener tls
  · cases a with
    | listen u =>
      obtain rfl : u = tls := Thread.listener.inj ha
      have hm := listenStep_cases hs
      generalize hlisten : NetAction.listen u = a at hm
      cases hm with
      | failed rv' =>
        simp only [setListener, Function.update_self, ListenerPc.checking.injEq] at hpc
        exact absurd (hpc.2 ▸ rfl) hid
      | accepted rv' conn' remoteIp t => cases hlisten
      | _ => simp [setListener] at hpc
    | accept u r =>
      obtain rfl : u = tls := Thread.listener.inj ha
      simp only [Net.step, acceptStep] at hs
      split at hs
      · cases r with
        | failed =>
          obtain rfl := Option.some.inj hs
          simp only [setListener, Function.update_self, ListenerPc.checking.injEq] at hpc
          exact absurd (hpc.2 ▸ rfl) hid
        | accepted fd remoteIp t =>
          dsimp only at hs
          split at hs
          · obtain rfl := Option.some.inj hs
            simp only [setListener, Function.update_self, ListenerPc.checking.injEq] at hpc
            obtain ⟨rfl, rfl⟩ := hpc
            exact acceptConnection_setupFailed hrv
          · exact absurd hs (by simp)
      · exact absurd hs (by simp)
    | _ => exact absurd ha (by simp [NetAction.thread])
  · exact h tls rv conn ((listener_of_step hs ha).symm.trans hpc) hrv hid

/-! ## What a step does -/

/-- A step leaves the held connections where they are, or takes one of them along an arrow. -/
inductive Shift (s s' : Net p) : Prop
  | stays (hheld : s'.heldAt = s.heldAt) (hfds : s'.fds = s.fds) (hnext : s'.nextId = s.nextId)
  | moves (h : Handle) (q r : Place) (harrow : .held r ∈ (Stage.held q).next)
      (hheld : Marking.Moves s.heldAt s'.heldAt h (some q) (some r)) (hfds : s'.fds = s.fds)
      (hnext : s'.nextId = s.nextId)
  | forgets (h : Handle) (hfailed : s.SetupFailed h.id)
      (hheld : Marking.Moves s.heldAt s'.heldAt h (some .listener) none) (hfds : s'.fds = s.fds) (hnext : s'.nextId = s.nextId)
  | closes (h : Handle) (q : Place) (harrow : .closed ∈ (Stage.held q).next)
      (hheld : Marking.Moves s.heldAt s'.heldAt h (some q) none)
      (hfds : s'.fds = s.fds.filter fun x => x.1 != h.fd) (hnext : s'.nextId = s.nextId)
  | accepts (h : Handle) (hheld : Marking.Moves s.heldAt s'.heldAt h none (some .listener))
      (hfds : s'.fds = (h.fd, h.id) :: s.fds) (hid : h.id = s.nextId)
      (hnext : s'.nextId = s.nextId + 1)

theorem heldAt_setListener (s : Net p) (tls : Bool) (pc : ListenerPc) :
    (s.setListener tls pc).heldAt + Pi.single .listener (s.listener tls).held =
      s.heldAt + Pi.single .listener pc.held := by
  funext q
  cases q with
  | listener =>
    rw [Pi.add_apply, Pi.add_apply, Pi.single_eq_same, Pi.single_eq_same]
    exact sum_update_add ListenerPc.held s.listener tls pc
  | _ => rfl

theorem heldAt_setWorker (s : Net p) (w : Fin p.nWorkers) (pc : WorkerPc) :
    (s.setWorker w pc).heldAt + Pi.single .worker (s.worker w).held =
      s.heldAt + Pi.single .worker pc.held := by
  funext q
  cases q with
  | worker =>
    rw [Pi.add_apply, Pi.add_apply, Pi.single_eq_same, Pi.single_eq_same]
    exact sum_update_add WorkerPc.held s.worker w pc
  | _ => rfl

theorem moves_push_work {s : Net p} {c : Conn} {q : WorkQueue Conn}
    (hq : queuePush s.work c = some q) :
    Marking.Moves s.heldAt ({ s with work := q } : Net p).heldAt c.handle none (some .workQueue) := by
  obtain ⟨_, hc, _⟩ := queuePush_some hq
  funext r
  cases r with
  | workQueue =>
    rw [Pi.add_apply, Pi.add_apply, Marking.token_some_self]
    change handles s.work.contents + {c.handle} = handles q.contents + 0
    rw [hc, handles_append, handles_singleton, add_zero]
  | _ => rfl

theorem moves_pop_work {s : Net p} {c : Conn} {q : WorkQueue Conn}
    (hq : queuePop s.work = .item c q) :
    Marking.Moves s.heldAt ({ s with work := q } : Net p).heldAt c.handle (some .workQueue) none := by
  obtain ⟨hc, _⟩ := queuePop_item hq
  funext r
  cases r with
  | workQueue =>
    rw [Pi.add_apply, Pi.add_apply, Marking.token_some_self]
    change handles s.work.contents + 0 = handles q.contents + {c.handle}
    rw [hc, handles_cons, add_zero, add_comm]
  | _ => rfl

theorem moves_push_wait {s : Net p} {c : Conn} {q : WorkQueue Conn}
    (hq : queuePush s.wait c = some q) :
    Marking.Moves s.heldAt ({ s with wait := q } : Net p).heldAt c.handle none (some .waitQueue) := by
  obtain ⟨_, hc, _⟩ := queuePush_some hq
  funext r
  cases r with
  | waitQueue =>
    rw [Pi.add_apply, Pi.add_apply, Marking.token_some_self]
    change handles s.wait.contents + {c.handle} = handles q.contents + 0
    rw [hc, handles_append, handles_singleton, add_zero]
  | _ => rfl

theorem moves_pop_wait {s : Net p} {c : Conn} {q : WorkQueue Conn}
    (hq : queuePop s.wait = .item c q) :
    Marking.Moves s.heldAt ({ s with wait := q } : Net p).heldAt c.handle (some .waitQueue) none := by
  obtain ⟨hc, _⟩ := queuePop_item hq
  funext r
  cases r with
  | waitQueue =>
    rw [Pi.add_apply, Pi.add_apply, Marking.token_some_self]
    change handles s.wait.contents + 0 = handles q.contents + {c.handle}
    rw [hc, handles_cons, add_zero, add_comm]
  | _ => rfl

/-- A place that holds what it held before. -/
theorem eq_of_update {m m' : Marking Place Handle} {q : Place} {a b : Multiset Handle}
    (h : m' + Pi.single q a = m + Pi.single q b) (hab : a = b) : m' = m := by
  rw [hab] at h
  exact add_right_cancel h

theorem ListenerMove.shift {s s' : Net p} {tls : Bool} {a : NetAction p} (hok : s.ListenerOk)
    (hsetup : s.FailsInSetup) (hrun : s.shuttingDown = false) (hm : ListenerMove s tls a s') :
    Shift s s' := by
  cases hm with
  | failed rv hpc hrv =>
    have h := heldAt_setListener s tls (.checking rv {})
    exact .stays (eq_of_update h (by rw [hpc]; rfl)) rfl rfl
  | accepted rv conn remoteIp t hpc hfd hid htls =>
    have hne : conn.id ≠ 0 := by have := hok.nextId_pos; omega
    have h := heldAt_setListener ({ s with
      fds := (conn.fd, s.nextId) :: s.fds, nextId := s.nextId + 1 } : Net p) tls
      (.checking rv conn)
    rw [show ({ s with fds := (conn.fd, s.nextId) :: s.fds, nextId := s.nextId + 1 } :
      Net p).listener tls = _ from hpc, ListenerPc.held_checking hne] at h
    exact .accepts conn.handle (.arrive h) (by rw [← hid]; rfl) hid rfl
  | enter hpc =>
    have h := heldAt_setListener s tls .accepting
    exact .stays (eq_of_update h (by rw [hpc]; rfl)) rfl rfl
  | leave hpc hsd => exact absurd (hrun.symm.trans hsd) (by simp)
  | closed rv conn hpc hsd hfd => exact absurd (hrun.symm.trans hsd) (by simp)
  | dropped rv conn hpc hsd => exact absurd (hrun.symm.trans hsd) (by simp)
  | retry rv conn hpc hrv =>
    have h := heldAt_setListener s tls .top
    rw [hpc] at h
    by_cases hid : conn.id = 0
    · exact .stays (eq_of_update h (if_pos hid)) rfl rfl
    · rw [ListenerPc.held_checking hid] at h
      have hfailed : s.SetupFailed conn.handle.id :=
        ⟨tls, rv, conn, hpc, hrv, rfl, hsetup tls rv conn hpc hrv hid⟩
      exact .forgets conn.handle hfailed (.leave h) rfl rfl
  | ready conn hpc hsd =>
    have hne : conn.id ≠ 0 := fun h0 =>
      absurd ((hok.not_accepted tls 0 conn hpc h0).2 rfl) (by simp [hsd])
    have h := heldAt_setListener s tls (.pushing conn)
    exact .stays (eq_of_update h (by rw [hpc]; exact ListenerPc.held_checking hne)) rfl rfl
  | pushed conn q hpc hq =>
    have h := heldAt_setListener ({ s with work := q } : Net p) tls .top
    rw [show ({ s with work := q } : Net p).listener tls = _ from hpc] at h
    exact .moves conn.handle .listener .workQueue (by decide)
      ((moves_push_work hq).copied (.leave h)) rfl rfl

theorem WorkerMove.shift {s s' : Net p} {w : Fin p.nWorkers} (hm : WorkerMove s w s') :
    Shift s s' := by
  cases hm with
  | io conn hpc => exact .stays rfl rfl rfl
  | served conn o hpc =>
    have h := heldAt_setWorker s w (o.next conn)
    exact .stays (eq_of_update h (by rw [hpc, ServeOutcome.held_next]; rfl)) rfl rfl
  | popped conn q hpc hq =>
    have h := heldAt_setWorker ({ s with work := q } : Net p) w (.serving conn)
    rw [show ({ s with work := q } : Net p).worker w = _ from hpc] at h
    exact .moves conn.handle .workQueue .worker (by decide)
      ((moves_pop_work hq).trans (.arrive h)) rfl rfl
  | leave hpc =>
    have h := heldAt_setWorker s w .exited
    exact .stays (eq_of_update h (by rw [hpc]; rfl)) rfl rfl
  | pushed conn q hpc hq =>
    have h := heldAt_setWorker ({ s with wait := q } : Net p) w .popping
    rw [show ({ s with wait := q } : Net p).worker w = _ from hpc] at h
    exact .moves conn.handle .worker .waitQueue (by decide)
      ((moves_push_wait hq).copied (.leave h)) rfl rfl
  | check conn hpc =>
    have h := heldAt_setWorker s w (.closing conn s.shuttingDown)
    exact .stays (eq_of_update h (by rw [hpc]; rfl)) rfl rfl
  | close conn last hpc =>
    have h := heldAt_setWorker (s.closeConnection conn) w (.closed conn last)
    rw [show (s.closeConnection conn).worker w = _ from hpc] at h
    exact .closes conn.handle .worker (by decide) (.leave h) rfl rfl
  | resume conn last hpc =>
    have h := heldAt_setWorker s w (if last then .exited else .popping)
    exact .stays (eq_of_update h (by rw [hpc]; cases last <;> rfl)) rfl rfl

/-- The wait room lets a connection go. -/
theorem moves_waitRoom {s : Net p} {pc : WaitRoomPc} {wrConn : Conn} {pool : ConnPool}
    {c : Handle} (h : s.waitRoom.held s.wrConn s.pool = {c} + pc.held wrConn pool) :
    Marking.Moves s.heldAt
      ({ s with waitRoom := pc, wrConn := wrConn, pool := pool } : Net p).heldAt c
      (some .waitRoom) none := by
  funext q
  cases q with
  | waitRoom =>
    rw [Pi.add_apply, Pi.add_apply, Marking.token_some_self]
    exact (add_zero _).trans (h.trans (add_comm _ _))
  | _ => rfl

/-- It takes one. -/
theorem moves_into_waitRoom {s : Net p} {pc : WaitRoomPc} {wrConn : Conn} {pool : ConnPool}
    {c : Handle} (h : pc.held wrConn pool = {c} + s.waitRoom.held s.wrConn s.pool) :
    Marking.Moves s.heldAt
      ({ s with waitRoom := pc, wrConn := wrConn, pool := pool } : Net p).heldAt c
      none (some .waitRoom) := by
  funext q
  cases q with
  | waitRoom =>
    rw [Pi.add_apply, Pi.add_apply, Marking.token_some_self]
    exact (add_comm _ _).trans (h.symm.trans (add_zero _).symm)
  | _ => rfl

/-- What it holds goes from one of its variables to another. -/
theorem heldAt_waitRoom {s : Net p} {pc : WaitRoomPc} {wrConn : Conn} {pool : ConnPool}
    (h : pc.held wrConn pool = s.waitRoom.held s.wrConn s.pool) :
    ({ s with waitRoom := pc, wrConn := wrConn, pool := pool } : Net p).heldAt = s.heldAt := by
  funext q
  cases q with
  | waitRoom => exact h
  | _ => rfl

/-- Taking a connection out of the pool into a local variable. -/
theorem handles_poolRemoveByFd {pool pool' : ConnPool} {fd : ℕ} {conn : Conn}
    (h : poolRemoveByFd pool fd = some (conn, pool')) :
    {conn.handle} + handles pool'.items = handles pool.items :=
  (handles_eq_add (poolRemoveByFd_some h).2.1).symm

theorem WaitRoomMove.shift {s s' : Net p} (hok : s.WaitRoomOk) (ho : s.Owned)
    (hrun : s.shuttingDown = false) (hwait : s.wait.shuttingDown = false)
    (hm : WaitRoomMove s s') : Shift s s' := by
  cases hm with
  | leave hpc hsd => exact absurd (hrun.symm.trans hsd) (by simp)
  | stale hpc hc hsd => exact absurd (hwait.symm.trans hsd) (by simp)
  | popped conn q hpc hq =>
    have hheld : WaitRoomPc.held .adding conn s.pool =
        {conn.handle} + ({ s with wait := q } : Net p).waitRoom.held s.wrConn s.pool := by
      rw [show ({ s with wait := q } : Net p).waitRoom = _ from hpc]
      rfl
    exact .moves conn.handle .waitQueue .waitRoom (by decide)
      ((moves_pop_wait hq).trans (moves_into_waitRoom hheld)) rfl rfl
  | added pool hpc hadd =>
    refine .stays (heldAt_waitRoom ?_) rfl rfl
    rw [hpc]
    change handles pool.items = {s.wrConn.handle} + handles s.pool.items
    rw [(poolAdd_some hadd).1, handles_append, add_comm]
    rfl
  | broken fd evs conn pool hpc hrem =>
    refine .stays (heldAt_waitRoom ?_) rfl rfl
    rw [hpc]
    exact handles_poolRemoveByFd hrem
  | readable fd evs conn pool hpc hrem =>
    refine .stays (heldAt_waitRoom ?_) rfl rfl
    rw [hpc]
    exact handles_poolRemoveByFd hrem
  | pushed conn evs q hpc hq =>
    have hheld : ({ s with work := q } : Net p).waitRoom.held s.wrConn s.pool =
        {conn.handle} + WaitRoomPc.held (.events evs) s.wrConn s.pool := by
      rw [show ({ s with work := q } : Net p).waitRoom = _ from hpc]
      rfl
    exact .moves conn.handle .waitRoom .workQueue (by decide)
      ((moves_push_work hq).copied (moves_waitRoom hheld)) rfl rfl
  | close conn k hpc =>
    refine .closes conn.handle .waitRoom (by decide) ?_ rfl rfl
    refine moves_waitRoom (s := s.closeConnection conn) ?_
    rw [show (s.closeConnection conn).waitRoom = _ from hpc]
    cases k with
    | sweep i now =>
      -- the slot has it until the close, and is not counted after
      obtain ⟨hi, hc⟩ := List.getElem?_eq_some_iff.mp (hok.sweeping conn i now hpc)
      change handles s.pool.items = {conn.handle} + handles (s.pool.swapOut i).items
      rw [handles_eq_add (ConnPool.coe_swapOut hi), hc]
    | drain => rfl
    | events evs => rfl
  | resume conn k hpc =>
    cases k with
    | drain => exact .stays (heldAt_waitRoom (by rw [hpc]; rfl)) rfl rfl
    | events evs => exact .stays (heldAt_waitRoom (by rw [hpc]; rfl)) rfl rfl
    | sweep i now => exact .stays (heldAt_waitRoom (by rw [hpc]; rfl)) rfl rfl
  | refused hpc =>
    refine .stays (heldAt_waitRoom ?_) rfl rfl
    rw [hpc]
    have hmem := hok.registering hpc
    cases hrem : poolRemoveByFd s.pool s.wrConn.fd with
    | none => exact absurd rfl (poolRemoveByFd_eq_none.mp hrem _ hmem)
    | some cp =>
      -- the first slot with this descriptor is the one just filled
      obtain ⟨conn, pool⟩ := cp
      obtain ⟨hfd, hperm, _⟩ := poolRemoveByFd_some hrem
      have hin : ∀ c ∈ s.pool.items, c.handle ∈ s.held := by
        intro c hc
        rw [held_eq hpc]
        exact Multiset.mem_add.mpr (.inr (handle_mem hc))
      have hconn : conn ∈ s.pool.items := by
        rw [← Multiset.mem_coe, hperm]
        exact Multiset.mem_cons_self _ _
      have heq : conn.handle = s.wrConn.handle := ho.unique _ (hin _ hconn) _ (hin _ hmem) hfd
      have h := handles_poolRemoveByFd hrem
      rw [heq] at h
      exact h
  | _ => exact .stays (heldAt_waitRoom (by rw [‹s.waitRoom = _›]; rfl)) rfl rfl

theorem shift_of_step {s s' : Net p} {a : NetAction p} (hw : s.Wf) (hsetup : s.FailsInSetup)
    (ho : s.Owned) (hrun : s.shuttingDown = false) (hs : s.step a = some s') : Shift s s' := by
  cases step_cases hs with
  | listener tls _ _ hm => exact hm.shift hw.listeners hsetup hrun
  | worker w _ _ hm => exact hm.shift
  | waitRoom _ _ hm => exact hm.shift hw.waitRoom ho hrun (hw.flags.wait_running hrun)
  | server hm =>
    have hf := serverStep_frame hm
    refine .stays ?_ hf.fds hf.nextId
    funext q
    cases q with
    | listener => rw [heldAt, heldAt, hf.listener]
    | workQueue => rw [heldAt, heldAt, hf.work.1]
    | worker => rw [heldAt, heldAt, hf.worker]
    | waitQueue => rw [heldAt, heldAt, hf.wait.1]
    | waitRoom => rw [heldAt, heldAt, hf.waitRoom, hf.wrConn, hf.pool]

/-! ## The refinement -/

/-- A connection that goes to `st`, while all others stay in their places. -/
theorem stage_eq_update {s s' : Net p} (ho : s.Owned) (ho' : s'.Owned) {h : Handle}
    {src dst : Option Place} (hne : src ≠ dst)
    (hheld : Marking.Moves s.heldAt s'.heldAt h src dst)
    (hout : ∀ id ≠ h.id, s'.outside id = s.outside id) :
    s.stage h.id = (src.map .held).getD (s.outside h.id) ∧
      s'.stage = Function.update s.stage h.id ((dst.map .held).getD (s'.outside h.id)) := by
  have hids : Marking.Moves s.idsAt s'.idsAt h.id src dst := hheld.map Handle.id
  refine ⟨stage_of_at ho.single (hids.at_src hne ho'.single), ?_⟩
  funext id
  by_cases hid : id = h.id
  · subst hid
    rw [Function.update_self]
    exact stage_of_at ho'.single (hids.at_dst hne ho.single)
  · obtain ⟨o, hat⟩ := s.exists_at id
    rw [Function.update_of_ne hid, stage_of_at ho.single hat,
      stage_of_at ho'.single ((hids.at_other hid o).mpr hat), hout id hid]

theorem mem_held_of_mem {s : Net p} {h : Handle} {q : Place} (hq : h ∈ s.heldAt q) :
    h ∈ s.held := by
  rw [← sum_heldAt]
  exact Marking.mem_sum_of_mem q.mem_all hq

/-- Closing a descriptor takes its connection from the open ones, and no other. -/
theorem Owned.mem_filter_snd {s : Net p} (ho : s.Owned) {h : Handle} (hopen : (h.fd, h.id) ∈ s.fds)
    (id : ℕ) : id ∈ (s.fds.filter fun x => x.1 != h.fd).map Prod.snd ↔
      id ∈ s.fds.map Prod.snd ∧ id ≠ h.id := by
  constructor
  · intro hid
    obtain ⟨x, hx, rfl⟩ := List.mem_map.mp hid
    obtain ⟨hx, hne⟩ := List.mem_filter.mp hx
    refine ⟨List.mem_map_of_mem hx, fun heq => ?_⟩
    have hfd : x.1 = h.fd := congrArg Prod.fst (snd_inj ho.ids_nodup hx hopen heq)
    simp [hfd] at hne
  · rintro ⟨hid, hne⟩
    obtain ⟨x, hx, rfl⟩ := List.mem_map.mp hid
    refine List.mem_map_of_mem (List.mem_filter.mpr ⟨hx, ?_⟩)
    rw [bne_iff_ne]
    intro hfd
    exact hne (congrArg Prod.snd (fst_inj ho.fds_nodup hx hopen hfd))

/-- **A step takes at most one connection along one arrow of the diagram.** -/
theorem Shift.oneArrow {s s' : Net p} (h : Shift s s') (ho : s.Owned) (ho' : s'.Owned) :
    OneArrow s.SetupFailed s.stage s'.stage := by
  cases h with
  | stays hheld hfds hnext =>
    left
    funext id
    unfold stage outside idsAt
    rw [hheld, hfds, hnext]
  | moves h q r harrow hheld hfds hnext =>
    have hne : some q ≠ some r := by
      rintro hqr
      obtain rfl := Option.some.inj hqr
      revert harrow
      cases q <;> decide
    obtain ⟨hsrc, hdst⟩ := stage_eq_update ho ho' hne hheld
      fun id _ => by rw [outside, outside, hfds, hnext]
    exact .inr ⟨h.id, .held r, by rw [hsrc]; exact harrow, fun hf => (nomatch hf), hdst⟩
  | forgets h hfailed hheld hfds hnext =>
    obtain ⟨hsrc, hdst⟩ := stage_eq_update ho ho' (by simp) hheld
      fun id _ => by rw [outside, outside, hfds, hnext]
    have hopen := ho.held_open h (mem_held_of_mem (hheld.mem_src (by simp)))
    have hlt := ho.ids_lt _ hopen
    have hout : s'.outside h.id = .forgotten := by
      rw [outside, hnext, hfds, if_neg (by omega), if_pos (List.mem_map_of_mem hopen)]
    rw [hout] at hdst
    exact .inr ⟨h.id, .forgotten, by rw [hsrc]; exact List.mem_cons_of_mem _ List.mem_cons_self,
      fun _ => hfailed, hdst⟩
  | closes h q harrow hheld hfds hnext =>
    have hopen := ho.held_open h (mem_held_of_mem (hheld.mem_src (by simp)))
    have hlt := ho.ids_lt _ hopen
    have hmem := ho.mem_filter_snd hopen
    rw [← hfds] at hmem
    obtain ⟨hsrc, hdst⟩ := stage_eq_update ho ho' (by simp) hheld fun id hid => by
      simp only [outside, hnext, hmem, and_iff_left hid]
    have hout : s'.outside h.id = .closed := by
      rw [outside, hnext, if_neg (by omega), if_neg (by simp [hmem])]
    rw [hout] at hdst
    exact .inr ⟨h.id, .closed, by rw [hsrc]; exact harrow, fun hf => (nomatch hf), hdst⟩
  | accepts h hheld hfds hid hnext =>
    obtain ⟨hsrc, hdst⟩ := stage_eq_update ho ho' (by simp) hheld fun id hne => by
      have hle : s.nextId + 1 ≤ id ↔ s.nextId ≤ id := by omega
      simp only [outside, hnext, hfds, List.map_cons, List.mem_cons, hne, false_or, hle]
    have hout : s.outside h.id = .unaccepted := by
      rw [outside, if_pos hid.ge]
    refine .inr ⟨h.id, .held .listener, ?_, fun hf => (nomatch hf), hdst⟩
    rw [hsrc, Option.map_none, Option.getD_none, hout]
    decide

/-- **The thread pool refines the diagram.** In every run and until it is shut down, each step
of each thread leaves every connection where it is, or takes exactly one of them along one
arrow; and one that is forgotten is one whose TLS setup failed. -/
theorem life_cycle (mem : ℕ → Conn) (conn : Conn) (as : List (NetAction p)) :
    (∀ id ≠ 0, (Net.init p mem conn).stage id = .unaccepted) ∧
      EachStep Net.step
        (fun s _ s' => s.shuttingDown = false → OneArrow s.SetupFailed s.stage s'.stage)
        (Net.init p mem conn) as := by
  have ho : (Net.init p mem conn).Owned := .init mem conn
  constructor
  · intro id hid
    have hnone : (Net.init p mem conn).heldAt = 0 := by
      funext q
      cases q <;> simp [heldAt, Net.init, ListenerPc.held, WorkerPc.held, WaitRoomPc.held, poolInit]
    have hat : (Net.init p mem conn).idsAt.At id none := by
      intro q
      rw [idsAt, hnone]
      exact Multiset.notMem_zero id
    rw [stage_of_at ho.single hat]
    exact if_pos (Nat.one_le_iff_ne_zero.mpr hid)
  · refine EachStep.imp
      (J := fun s => s.Wf ∧ s.FailsInSetup ∧ (s.shuttingDown = false → s.Owned)) ?_ ?_ as
      ⟨.init mem conn, .init mem conn, fun _ => ho⟩ (EachStep.trivially as _)
    · rintro s a s' ⟨hw, hsetup, ho⟩ hs _
      refine ⟨hw.step hs, hsetup.step hs, fun hrun' => ?_⟩
      have hrun := running_of_step hs hrun'
      exact (ho hrun).step hw hs (hw.notClosed hrun a s')
    · rintro s a s' ⟨hw, hsetup, ho⟩ hs _ hrun
      have ho' := (ho hrun).step hw hs (hw.notClosed hrun a s')
      exact (shift_of_step hw hsetup (ho hrun) hrun hs).oneArrow (ho hrun) ho'

end Net

end Celeritas
