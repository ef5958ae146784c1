import Celeritas.Net.Control
import Mathlib.Data.Fintype.Basic

/-!
# The thread pool: who holds which connection

A connection is copied by value from place to place, so nothing in the state says where it
"is". `held` is the bag of the places that still have something to do with theirs, and the
file's one result about the steps (`step_effect`) is that a step does one of three things to
it: it moves a connection or forgets it, it closes one, or it adds a fresh one.

A step does so under a condition, `NotClosed`: the drain loop does not run its body on a
pop that failed. It holds of every step until `server_shutdown` has set the wait queue's flag.
-/

set_option autoImplicit false

namespace Celeritas

open Lib

/-- A connection as far as its descriptor goes. -/
structure Handle where
  id : ℕ
  fd : ℕ
  tlsFd : Option ℕ
  deriving DecidableEq

def Conn.handle (c : Conn) : Handle := ⟨c.id, c.fd, c.tlsFd⟩

/-- The connections of a list, as a bag. -/
def handles (l : List Conn) : Multiset Handle := (l : Multiset Conn).map Conn.handle

@[simp] theorem handles_nil : handles [] = 0 := rfl

@[simp] theorem handles_append (l m : List Conn) :
    handles (l ++ m) = handles l + handles m := by
  rw [handles, ← Multiset.coe_add, Multiset.map_add]; rfl

@[simp] theorem handles_singleton (c : Conn) : handles [c] = {c.handle} := rfl

theorem handles_cons (c : Conn) (l : List Conn) :
    handles (c :: l) = {c.handle} + handles l := handles_append [c] l

@[simp] theorem card_handles (l : List Conn) : (handles l).card = l.length := by
  simp [handles]

theorem handle_mem {l : List Conn} {c : Conn} (h : c ∈ l) : c.handle ∈ handles l :=
  Multiset.mem_map_of_mem _ (Multiset.mem_coe.mpr h)

theorem handles_eq_add {l m : List Conn} {c : Conn}
    (h : (l : Multiset Conn) = c ::ₘ (m : Multiset Conn)) :
    handles l = {c.handle} + handles m := by
  rw [handles, h, Multiset.map_cons, Multiset.singleton_add]; rfl

@[simp] theorem Conn.handle_demux (c : Conn) (sniffed : Protocol) :
    (c.demux sniffed).handle = c.handle := by
  unfold Conn.demux
  split <;> rfl

/-! ## The places

A local variable counts until its thread has pushed, stored or closed the connection. -/

def ListenerPc.held : ListenerPc → Multiset Handle
  | .checking _ conn => if conn.id = 0 then 0 else {conn.handle}
  | .pushing conn => {conn.handle}
  | _ => 0

def WorkerPc.held : WorkerPc → Multiset Handle
  | .serving conn => {conn.handle}
  | .pushing conn => {conn.handle}
  | .checkShutdown conn => {conn.handle}
  | .closing conn _ => {conn.handle}
  | _ => 0

/-- The wait room's local variables and its pool. The sweep closes a connection in its slot,
so the slot has it until then, and no longer. -/
def WaitRoomPc.held (pc : WaitRoomPc) (wrConn : Conn) (pool : ConnPool) : Multiset Handle :=
  match pc with
  | .adding => {wrConn.handle} + handles pool.items
  | .pushing conn _ => {conn.handle} + handles pool.items
  | .closing _ (.sweep _ _) => handles pool.items
  | .closing conn _ => {conn.handle} + handles pool.items
  | .closed _ (.sweep i _) => handles (pool.swapOut i).items
  | .exited => 0
  | _ => handles pool.items

namespace Net

variable {p : Params}

/-- What is held outside the wait room. -/
def elsewhere (s : Net p) : Multiset Handle :=
  (∑ tls, (s.listener tls).held) + handles s.work.contents + (∑ w, (s.worker w).held) +
    handles s.wait.contents

def held (s : Net p) : Multiset Handle := s.elsewhere + s.waitRoom.held s.wrConn s.pool

/-- The same with every slot of the pool counted until it is compacted away. -/
def holders (s : Net p) : Multiset Handle :=
  s.elsewhere + match s.waitRoom with
    | .closed _ (.sweep _ _) => handles s.pool.items
    | pc => pc.held s.wrConn s.pool

/-- The drain loop does not go on after a pop that found the queue empty and its flag set. -/
def NotClosed (s : Net p) (a : NetAction p) (_ : Net p) : Prop :=
  a.thread = .waitRoom → s.waitRoom = .draining → s.wait.count = 0 → s.wait.shuttingDown = false

/-! ## What an update does to the bag -/

theorem held_setListener (s : Net p) (tls : Bool) (pc : ListenerPc) :
    (s.setListener tls pc).held + (s.listener tls).held = s.held + pc.held := by
  have h := sum_update_add ListenerPc.held s.listener tls pc
  simp only [held, elsewhere, setListener]
  generalize (∑ j, (Function.update s.listener tls pc j).held) = a at h ⊢
  generalize (∑ j, (s.listener j).held) = b at h ⊢
  generalize s.waitRoom.held s.wrConn s.pool = r
  generalize handles s.work.contents = q
  generalize handles s.wait.contents = q'
  generalize (∑ w, (s.worker w).held) = v
  calc a + q + v + q' + r + (s.listener tls).held
      = (a + (s.listener tls).held) + (q + v + q' + r) := by abel
    _ = (b + pc.held) + (q + v + q' + r) := by rw [h]
    _ = b + q + v + q' + r + pc.held := by abel

theorem held_setWorker (s : Net p) (w : Fin p.nWorkers) (pc : WorkerPc) :
    (s.setWorker w pc).held + (s.worker w).held = s.held + pc.held := by
  have h := sum_update_add WorkerPc.held s.worker w pc
  simp only [held, elsewhere, setWorker]
  generalize (∑ j, (Function.update s.worker w pc j).held) = a at h ⊢
  generalize (∑ j, (s.worker j).held) = b at h ⊢
  generalize s.waitRoom.held s.wrConn s.pool = r
  generalize handles s.work.contents = q
  generalize handles s.wait.contents = q'
  generalize (∑ tls, (s.listener tls).held) = v
  calc v + q + a + q' + r + (s.worker w).held
      = (a + (s.worker w).held) + (v + q + q' + r) := by abel
    _ = (b + pc.held) + (v + q + q' + r) := by rw [h]
    _ = v + q + b + q' + r + pc.held := by abel

theorem elsewhere_push_work {s : Net p} {c : Conn} {q : WorkQueue Conn}
    (hq : queuePush s.work c = some q) :
    ({ s with work := q } : Net p).elsewhere = {c.handle} + s.elsewhere := by
  obtain ⟨_, hc, _⟩ := queuePush_some hq
  simp only [elsewhere, hc, handles_append, handles_singleton]
  abel

theorem elsewhere_pop_work {s : Net p} {c : Conn} {q : WorkQueue Conn}
    (hq : queuePop s.work = .item c q) :
    s.elsewhere = {c.handle} + ({ s with work := q } : Net p).elsewhere := by
  obtain ⟨hc, _⟩ := queuePop_item hq
  simp only [elsewhere, hc, handles_cons]
  abel

theorem elsewhere_push_wait {s : Net p} {c : Conn} {q : WorkQueue Conn}
    (hq : queuePush s.wait c = some q) :
    ({ s with wait := q } : Net p).elsewhere = {c.handle} + s.elsewhere := by
  obtain ⟨_, hc, _⟩ := queuePush_some hq
  simp only [elsewhere, hc, handles_append, handles_singleton]
  abel

theorem elsewhere_pop_wait {s : Net p} {c : Conn} {q : WorkQueue Conn}
    (hq : queuePop s.wait = .item c q) :
    s.elsewhere = {c.handle} + ({ s with wait := q } : Net p).elsewhere := by
  obtain ⟨hc, _⟩ := queuePop_item hq
  simp only [elsewhere, hc, handles_cons]
  abel

/-! ## What a step does to it -/

inductive Effect (s s' : Net p) : Prop
  | moves (lost : Multiset Handle) (hheld : s.held = lost + s'.held) (hfds : s'.fds = s.fds)
      (hnext : s'.nextId = s.nextId) (hcalls : s'.closeCalls = s.closeCalls)
  | closes (h : Handle) (hheld : s.held = {h} + s'.held)
      (hfds : s'.fds = s.fds.filter fun x => x.1 != h.fd) (hnext : s'.nextId = s.nextId)
      (hcalls : s'.closeCalls = s.closeCalls ∨ s'.closeCalls = s.closeCalls ++ [h.id])
  | accepts (h : Handle) (hheld : s'.held = {h} + s.held)
      (hfds : s'.fds = (h.fd, h.id) :: s.fds) (hfresh : h.fd ∉ s.fds.map Prod.fst)
      (hid : h.id = s.nextId) (htls : ∀ t, h.tlsFd = some t → t = h.fd)
      (hnext : s'.nextId = s.nextId + 1) (hcalls : s'.closeCalls = s.closeCalls)

/-- The same of a step that forgets `lost`. -/
inductive Transfer (lost : Multiset Handle) (s s' : Net p) : Prop
  | moves (hheld : s.held = lost + s'.held) (hfds : s'.fds = s.fds)
      (hnext : s'.nextId = s.nextId) (hcalls : s'.closeCalls = s.closeCalls)
  | closes (h : Handle) (hlost : lost = 0) (hheld : s.held = {h} + s'.held)
      (hfds : s'.fds = s.fds.filter fun x => x.1 != h.fd) (hnext : s'.nextId = s.nextId)
      (hcalls : s'.closeCalls = s.closeCalls ∨ s'.closeCalls = s.closeCalls ++ [h.id])
  | accepts (h : Handle) (hlost : lost = 0) (hheld : s'.held = {h} + s.held)
      (hfds : s'.fds = (h.fd, h.id) :: s.fds) (hfresh : h.fd ∉ s.fds.map Prod.fst)
      (hid : h.id = s.nextId) (htls : ∀ t, h.tlsFd = some t → t = h.fd)
      (hnext : s'.nextId = s.nextId + 1) (hcalls : s'.closeCalls = s.closeCalls)

theorem Transfer.effect {lost : Multiset Handle} {s s' : Net p} (h : Transfer lost s s') :
    Effect s s' := by
  cases h with
  | moves hheld hfds hnext hcalls => exact .moves lost hheld hfds hnext hcalls
  | closes h _ hheld hfds hnext hcalls => exact .closes h hheld hfds hnext hcalls
  | accepts h _ hheld hfds hfresh hid htls hnext hcalls =>
    exact .accepts h hheld hfds hfresh hid htls hnext hcalls

/-- A listener that goes back to its loop forgets what `accept_connection` gave it. -/
def Retries (lost : Multiset Handle) (s s' : Net p) : Prop :=
  ∃ tls rv conn, s.listener tls = .checking rv conn ∧ rv ≠ 0 ∧
    lost = (ListenerPc.checking rv conn).held ∧ s' = s.setListener tls .top

/-- One place of a bag changes from `a` to `b`. -/
theorem eq_add_of_update {S S' a b lost : Multiset Handle} (h : S' + a = S + b)
    (ha : a = lost + b) : S = lost + S' := by
  have h' : S + b = lost + S' + b := by rw [← h, ha]; abel
  exact add_right_cancel h'

theorem ListenerPc.held_checking {rv : ℤ} {conn : Conn} (h : conn.id ≠ 0) :
    (ListenerPc.checking rv conn).held = {conn.handle} := if_neg h

/-- While the server runs a listener forgets nothing but by a retry. -/
theorem ListenerMove.transfer {s s' : Net p} {tls : Bool} {a : NetAction p} (hok : s.ListenerOk)
    (hm : ListenerMove s tls a s') : ∃ lost, Transfer lost s s' ∧
      (s.shuttingDown = false → lost = 0 ∨ Retries lost s s') := by
  cases hm with
  | failed rv hpc hrv =>
    have h := held_setListener s tls (.checking rv {})
    rw [hpc] at h
    exact ⟨0, .moves (eq_add_of_update h rfl) rfl rfl rfl, fun _ => .inl rfl⟩
  | accepted rv conn remoteIp t hpc hfd hid htls =>
    have hne : conn.id ≠ 0 := by have := hok.nextId_pos; omega
    have h := held_setListener ({ s with
      fds := (conn.fd, s.nextId) :: s.fds, nextId := s.nextId + 1 } : Net p) tls
      (.checking rv conn)
    rw [show ({ s with fds := (conn.fd, s.nextId) :: s.fds, nextId := s.nextId + 1 } :
      Net p).listener tls = _ from hpc, ListenerPc.held_checking hne] at h
    exact ⟨0, .accepts conn.handle rfl ((add_zero _).symm.trans (h.trans (add_comm _ _)))
      (by rw [← hid]; rfl) hfd hid htls rfl rfl, fun _ => .inl rfl⟩
  | enter hpc =>
    have h := held_setListener s tls .accepting
    rw [hpc] at h
    exact ⟨0, .moves (eq_add_of_update h rfl) rfl rfl rfl, fun _ => .inl rfl⟩
  | leave hpc hsd =>
    have h := held_setListener s tls .exited
    rw [hpc] at h
    exact ⟨0, .moves (eq_add_of_update h rfl) rfl rfl rfl, fun _ => .inl rfl⟩
  | closed rv conn hpc hsd hfd =>
    have hne : conn.id ≠ 0 := by
      intro h0
      have := (hok.not_accepted tls rv conn hpc h0).1
      omega
    have h := held_setListener (s.closeFd conn.fd) tls .exited
    rw [show (s.closeFd conn.fd).listener tls = _ from hpc, ListenerPc.held_checking hne] at h
    exact ⟨0, .closes conn.handle rfl (eq_add_of_update h rfl) rfl rfl (.inl rfl),
      fun _ => .inl rfl⟩
  | dropped rv conn hpc hsd =>
    refine ⟨_, .moves (eq_add_of_update (held_setListener s tls .exited) (add_zero _).symm)
      rfl rfl rfl, fun hrun => ?_⟩
    rw [hsd] at hrun
    cases hrun
  | retry rv conn hpc hrv =>
    exact ⟨_, .moves (eq_add_of_update (held_setListener s tls .top) (add_zero _).symm) rfl rfl rfl,
      fun _ => .inr ⟨tls, rv, conn, hpc, hrv, by rw [hpc], rfl⟩⟩
  | ready conn hpc hsd =>
    have hne : conn.id ≠ 0 := fun h0 =>
      absurd ((hok.not_accepted tls 0 conn hpc h0).2 rfl) (by simp [hsd])
    have h := held_setListener s tls (.pushing conn)
    rw [hpc, ListenerPc.held_checking hne] at h
    exact ⟨0, .moves (eq_add_of_update h (zero_add _).symm) rfl rfl rfl, fun _ => .inl rfl⟩
  | pushed conn q hpc hq =>
    have h := held_setListener ({ s with work := q } : Net p) tls .top
    rw [show ({ s with work := q } : Net p).listener tls = _ from hpc,
      show ({ s with work := q } : Net p).held = {conn.handle} + s.held by
        simp only [held, elsewhere_push_work hq, add_assoc], add_right_comm,
      add_comm _ s.held] at h
    exact ⟨0, .moves (eq_add_of_update h rfl) rfl rfl rfl, fun _ => .inl rfl⟩

theorem ServeOutcome.held_next (conn : Conn) (o : ServeOutcome) :
    (o.next conn).held = {conn.handle} := by
  cases o <;> simp only [ServeOutcome.next, WorkerPc.held, Conn.handle_demux]
  rw [← conn.handle_demux]
  rfl

/-- A worker forgets nothing. -/
theorem WorkerMove.transfer {s s' : Net p} {w : Fin p.nWorkers} (hm : WorkerMove s w s') :
    Transfer 0 s s' := by
  cases hm with
  | io conn hpc => exact .moves (zero_add _).symm rfl rfl rfl
  | served conn o hpc =>
    have h := held_setWorker s w (o.next conn)
    rw [hpc, ServeOutcome.held_next] at h
    exact .moves (eq_add_of_update h (zero_add _).symm) rfl rfl rfl
  | popped conn q hpc hq =>
    have h := held_setWorker ({ s with work := q } : Net p) w (.serving conn)
    rw [show ({ s with work := q } : Net p).worker w = _ from hpc] at h
    have hs : s.held = {conn.handle} + ({ s with work := q } : Net p).held := by
      simp only [held, elsewhere_pop_work hq, add_assoc]
    refine .moves ?_ rfl rfl rfl
    rw [hs, zero_add, add_comm]
    exact h.symm.trans (add_zero _)
  | leave hpc =>
    have h := held_setWorker s w .exited
    rw [hpc] at h
    exact .moves (eq_add_of_update h rfl) rfl rfl rfl
  | pushed conn q hpc hq =>
    have h := held_setWorker ({ s with wait := q } : Net p) w .popping
    rw [show ({ s with wait := q } : Net p).worker w = _ from hpc,
      show ({ s with wait := q } : Net p).held = {conn.handle} + s.held by
        simp only [held, elsewhere_push_wait hq, add_assoc], add_right_comm,
      add_comm _ s.held] at h
    exact .moves (eq_add_of_update h rfl) rfl rfl rfl
  | check conn hpc =>
    have h := held_setWorker s w (.closing conn s.shuttingDown)
    rw [hpc] at h
    exact .moves (eq_add_of_update h (zero_add _).symm) rfl rfl rfl
  | close conn last hpc =>
    have h := held_setWorker (s.closeConnection conn) w (.closed conn last)
    rw [show (s.closeConnection conn).worker w = _ from hpc] at h
    exact .closes conn.handle rfl (eq_add_of_update h rfl) rfl rfl (.inr rfl)
  | resume conn last hpc =>
    have h := held_setWorker s w (if last then .exited else .popping)
    rw [hpc] at h
    exact .moves (eq_add_of_update h (by cases last <;> rfl)) rfl rfl rfl

theorem held_eq {s : Net p} {pc : WaitRoomPc} (hpc : s.waitRoom = pc) :
    s.held = s.elsewhere + pc.held s.wrConn s.pool := by rw [held, hpc]

/-- A connection leaves the pool for a local variable of the wait room. -/
theorem held_poolRemoveByFd {e : Multiset Handle} {pool pool' : ConnPool} {fd : ℕ} {conn : Conn}
    (h : poolRemoveByFd pool fd = some (conn, pool')) :
    e + handles pool.items = 0 + (e + ({conn.handle} + handles pool'.items)) := by
  rw [handles_eq_add (poolRemoveByFd_some h).2.1, zero_add]

/-- The wait room's steps but the last one and the stale pass of its drain loop. `huniq` is
what `pool_remove_by_fd` relies on: the descriptor identifies the connection. -/
theorem WaitRoomMove.transfer {s s' : Net p} (hok : s.WaitRoomOk)
    (huniq : ∀ h ∈ s.held, ∀ h' ∈ s.held, h.fd = h'.fd → h = h')
    (hnc : s.waitRoom = .draining → s.wait.count = 0 → s.wait.shuttingDown = false)
    (hleave : s.waitRoom = .top → s.shuttingDown = false) (hm : WaitRoomMove s s') :
    Transfer 0 s s' := by
  cases hm with
  | leave hpc hsd => exact absurd (hsd.symm.trans (hleave hpc)) (by simp)
  | popped conn q hpc hq =>
    refine .moves ?_ rfl rfl rfl
    rw [held_eq hpc, elsewhere_pop_wait hq]
    change _ + handles s.pool.items = 0 + (({ s with wait := q } : Net p).elsewhere +
      ({conn.handle} + handles s.pool.items))
    rw [zero_add, add_left_comm, add_assoc]
  | stale hpc hc hsd => exact absurd (hsd.symm.trans (hnc hpc hc)) (by simp)
  | added pool hpc hadd =>
    refine .moves ?_ rfl rfl rfl
    rw [held_eq hpc]
    change s.elsewhere + ({s.wrConn.handle} + handles s.pool.items) =
      0 + (s.elsewhere + handles pool.items)
    rw [(poolAdd_some hadd).1, handles_append, zero_add, add_comm (handles s.pool.items)]
    rfl
  | broken fd evs conn pool hpc hrem =>
    refine .moves ?_ rfl rfl rfl
    rw [held_eq hpc]
    exact held_poolRemoveByFd hrem
  | readable fd evs conn pool hpc hrem =>
    refine .moves ?_ rfl rfl rfl
    rw [held_eq hpc]
    exact held_poolRemoveByFd hrem
  | pushed conn evs q hpc hq =>
    refine .moves ?_ rfl rfl rfl
    rw [held_eq hpc]
    change s.elsewhere + ({conn.handle} + handles s.pool.items) =
      0 + (({ s with work := q } : Net p).elsewhere + handles s.pool.items)
    rw [elsewhere_push_work hq, zero_add, add_left_comm, add_assoc]
  | close conn k hpc =>
    refine .closes conn.handle rfl ?_ rfl rfl (.inr rfl)
    rw [held_eq hpc]
    cases k with
    | sweep i now =>
      -- the slot has it until the close, and is not counted after
      obtain ⟨hi, hc⟩ := List.getElem?_eq_some_iff.mp (hok.sweeping conn i now hpc)
      change s.elsewhere + handles s.pool.items =
        {conn.handle} + (s.elsewhere + handles (s.pool.swapOut i).items)
      rw [handles_eq_add (ConnPool.coe_swapOut hi), hc, add_left_comm]
    | drain => exact add_left_comm _ _ _
    | events evs => exact add_left_comm _ _ _
  | resume conn k hpc =>
    cases k <;> exact .moves ((held_eq hpc).trans (zero_add _).symm) rfl rfl rfl
  | refused hpc =>
    refine .moves ?_ rfl rfl rfl
    rw [held_eq hpc]
    have hmem := hok.registering hpc
    cases hrem : poolRemoveByFd s.pool s.wrConn.fd with
    | none => exact absurd rfl (poolRemoveByFd_eq_none.mp hrem _ hmem)
    | some cp =>
      -- the first slot with this descriptor is the one just filled
      obtain ⟨conn, pool⟩ := cp
      obtain ⟨hfd, hperm, _⟩ := poolRemoveByFd_some hrem
      have hin : ∀ c ∈ s.pool.items, c.handle ∈ s.held := by
        intro c hc
        rw [held_eq hpc]
        exact Multiset.mem_add.mpr (.inr (handle_mem hc))
      have hconn : conn ∈ s.pool.items := by
        rw [← Multiset.mem_coe, hperm]
        exact Multiset.mem_cons_self _ _
      have heq : conn.handle = s.wrConn.handle :=
        huniq _ (hin _ hconn) _ (hin _ hmem) hfd
      have h := held_poolRemoveByFd (e := s.elsewhere) hrem
      rw [heq] at h
      exact h
  | _ =>
    refine .moves ?_ rfl rfl rfl
    rw [held_eq ‹_›, zero_add]
    rfl

/-- When it exits, it leaves the pool as it is. -/
theorem WaitRoomMove.leaves {s s' : Net p} (hpc : s.waitRoom = .top) (hsd : s.shuttingDown = true)
    (hm : WaitRoomMove s s') : Transfer (handles s.pool.items) s s' := by
  cases hm with
  | leave _ _ =>
    refine .moves ?_ rfl rfl rfl
    rw [held_eq hpc]
    change s.elsewhere + handles s.pool.items = handles s.pool.items + (s.elsewhere + 0)
    rw [add_zero, add_comm]
  | enter _ hrun => exact absurd (hsd.symm.trans hrun) (by simp)
  | _ => simp_all

/-- A step forgets nothing while the server runs, but by a retry. -/
theorem step_transfer {s s' : Net p} {a : NetAction p} (hl : s.ListenerOk) (hw : s.WaitRoomOk)
    (huniq : ∀ h ∈ s.held, ∀ h' ∈ s.held, h.fd = h'.fd → h = h')
    (hs : s.step a = some s') (hnc : s.NotClosed a s') : ∃ lost, Transfer lost s s' ∧
      (s.shuttingDown = false → lost = 0 ∨ Retries lost s s') := by
  cases step_cases hs with
  | listener tls _ _ hm => exact hm.transfer hl
  | worker w _ _ hm => exact ⟨0, hm.transfer, fun _ => .inl rfl⟩
  | waitRoom _ ha hm =>
    by_cases hleave : s.waitRoom = .top ∧ s.shuttingDown = true
    · refine ⟨_, hm.leaves hleave.1 hleave.2, fun hrun => ?_⟩
      exact absurd (hleave.2.symm.trans hrun) (by simp)
    · have hrun : s.waitRoom = .top → s.shuttingDown = false := by
        intro hpc
        exact Bool.eq_false_iff.mpr fun hsd => hleave ⟨hpc, hsd⟩
      exact ⟨0, hm.transfer hw huniq (hnc ha) hrun, fun _ => .inl rfl⟩
  | server hm =>
    have hf := serverStep_frame hm
    refine ⟨0, .moves ?_ hf.fds hf.nextId hf.closeCalls, fun _ => .inl rfl⟩
    rw [held, held, elsewhere, elsewhere, hf.listener, hf.waitRoom, hf.wrConn, hf.pool,
      hf.worker, hf.work.1, hf.wait.1, zero_add]

/-- **What a step does to the held connections.** -/
theorem step_effect {s s' : Net p} {a : NetAction p} (hl : s.ListenerOk) (hw : s.WaitRoomOk)
    (huniq : ∀ h ∈ s.held, ∀ h' ∈ s.held, h.fd = h'.fd → h = h')
    (hs : s.step a = some s') (hnc : s.NotClosed a s') : Effect s s' := by
  obtain ⟨lost, h, -⟩ := step_transfer hl hw huniq hs hnc
  exact h.effect

end Net

end Celeritas
