import Celeritas.Net.Step
import Celeritas.Lib.Run

/-!
# The pool and the watcher

`wait_room_thread` keeps two records of the connections it waits for: the pool, which it can
scan, and the registrations with `epoll`, which it cannot. `io_watcher.c` says so of the
first: there is no way to get the list from the kernel.

Both are changed by every path through the loop, one after the other, so that in between
they differ. `unsettled` names the descriptors on which they may (`Agree`); at the head of
the loop there are none (`pool_matches_watcher`).

The thread runs among others here: a worker that has been handed a connection may close it
at any moment.
-/

set_option autoImplicit false

namespace Celeritas

open Lib

/-! ## `epoll` -/

/-- The descriptors registered with the watcher, and whether each is armed. -/
abbrev Epoll := ℕ → Option Bool

/-- `epoll_ctl` with `EPOLL_CTL_ADD`, which arms a descriptor that is not registered, if it
does not fail, and fails with `EEXIST` on one that is. -/
inductive CtlResult
  | ok
  | exists
  | error
  deriving DecidableEq

def Epoll.add (k : Epoll) (fd : ℕ) (ok : Bool) : CtlResult × Epoll :=
  if (k fd).isSome then (.exists, k)
  else if ok then (.ok, Function.update k fd (some true))
  else (.error, k)

/-- `EPOLL_CTL_MOD` -/
def Epoll.mod (k : Epoll) (fd : ℕ) (ok : Bool) : CtlResult × Epoll :=
  if (k fd).isSome ∧ ok then (.ok, Function.update k fd (some true)) else (.error, k)

/-- `EPOLL_CTL_DEL` -/
def Epoll.del (k : Epoll) (fd : ℕ) (ok : Bool) : CtlResult × Epoll :=
  if (k fd).isSome ∧ ok then (.ok, Function.update k fd none) else (.error, k)

/-- The last `close` of a descriptor. -/
def Epoll.close (k : Epoll) (fd : ℕ) : Epoll := Function.update k fd none

/-- A one-shot registration that has fired is disarmed. -/
def Epoll.fire (k : Epoll) (fds : List ℕ) : Epoll :=
  fun fd => if fd ∈ fds then some false else k fd

/-- `io_watcher_add`: whether it returns `0`. -/
def ioWatcherAdd (k : Epoll) (fd : ℕ) (addOk modOk : Bool) : Bool × Epoll :=
  match k.add fd addOk with
  | (.ok, k) => (true, k)
  | (.exists, k) =>
    match k.mod fd modOk with
    | (.ok, k) => (true, k)
    | (_, k) => (false, k)
  | (.error, k) => (false, k)

/-- `io_watcher_remove` -/
def ioWatcherRemove (k : Epoll) (fd : ℕ) (ok : Bool) : Epoll := (k.del fd ok).2

/-! ## The thread -/

/-- Where `wait_room_thread` is. -/
inductive RoomPc
  /-- at the head of its loop -/
  | top
  /-- before `queue_trypop` -/
  | draining
  /-- before `pool_add` -/
  | adding (conn : Conn)
  /-- before `io_watcher_add` -/
  | registering (conn : Conn)
  /-- before the `close_connection` of the drain loop -/
  | dropping (conn : Conn)
  /-- before `io_watcher_wait` -/
  | polling
  | events (evs : List (ℕ × Bool))
  /-- before the `close_connection` of an event with `is_error` -/
  | failing (conn : Conn) (evs : List (ℕ × Bool))
  /-- in `pool_sweep_expired`: at the head of its loop, after `io_watcher_remove`, and
  after `close_connection` -/
  | sweeping (i : ℕ) (now : ℤ)
  | removed (i : ℕ) (now : ℤ)
  | closed (i : ℕ) (now : ℤ)
  deriving DecidableEq

structure Room where
  epoll : Epoll
  pool : ConnPool
  pc : RoomPc

def Room.init (capacity : ℕ) : Room := ⟨fun _ => none, poolInit capacity, .top⟩

def Room.poolFds (s : Room) : List ℕ := s.pool.items.map Conn.fd

/-- The watcher will report the descriptor. -/
def Room.Armed (s : Room) (fd : ℕ) : Prop := s.epoll fd = some true

inductive RoomAction
  /-- what `queue_trypop` returns, while the server is not shut down -/
  | pop (conn : Option Conn)
  | add (addOk modOk : Bool)
  /-- what `io_watcher_wait` reports: descriptors, with the flag `is_error` -/
  | poll (evs : List (ℕ × Bool))
  | clock (now : ℤ)
  | remove (ok : Bool)
  /-- any other step of the thread -/
  | next
  /-- another thread closes a descriptor it holds -/
  | closedElsewhere (fd : ℕ)

namespace Room

def popStep (s : Room) (conn : Option Conn) : Option Room :=
  match s.pc, conn with
  | .draining, none => some { s with pc := .polling }
  | .draining, some c => if c.fd ∈ s.poolFds then none else some { s with pc := .adding c }
  | _, _ => none

def addStep (s : Room) (addOk modOk : Bool) : Option Room :=
  match s.pc with
  | .registering c =>
    match ioWatcherAdd s.epoll c.fd addOk modOk with
    | (true, k) => some { s with epoll := k, pc := .draining }
    | (false, k) => some {
        epoll := k
        pool := ((poolRemoveByFd s.pool c.fd).map Prod.snd).getD s.pool
        pc := .dropping c }
  | _ => none

/-- The kernel reports armed descriptors, once each. A failing wait is one without events. -/
def pollStep (s : Room) (evs : List (ℕ × Bool)) : Option Room :=
  match s.pc with
  | .polling =>
    if evs.length ≤ MAX_WAIT_EVENTS ∧ (evs.map Prod.fst).Nodup ∧
        ∀ e ∈ evs, s.epoll e.1 = some true then
      some { s with epoll := s.epoll.fire (evs.map Prod.fst), pc := .events evs }
    else none
  | _ => none

def clockStep (s : Room) (now : ℤ) : Option Room :=
  match s.pc with
  | .events [] => some { s with pc := .sweeping 0 now }
  | _ => none

/-- The expired connection the sweep is at. -/
def expired (s : Room) (i : ℕ) (now : ℤ) : Option Conn :=
  s.pool.items[i]?.filter fun c => c.keepaliveDeadline ≤ now

def removeStep (s : Room) (ok : Bool) : Option Room :=
  match s.pc with
  | .sweeping i now =>
    (s.expired i now).map fun c =>
      { s with epoll := ioWatcherRemove s.epoll c.fd ok, pc := .removed i now }
  | _ => none

def nextStep (s : Room) : Option Room :=
  match s.pc with
  | .top => some { s with pc := .draining }
  | .adding c =>
    match poolAdd s.pool c with
    | some pool => some { s with pool := pool, pc := .registering c }
    | none => some { s with pc := .dropping c }
  | .dropping c => some { s with epoll := s.epoll.close c.fd, pc := .draining }
  | .events ((fd, isError) :: evs) =>
    match poolRemoveByFd s.pool fd with
    | some (c, pool) =>
      -- without an error the connection is pushed to the work queue here
      some { s with pool := pool, pc := if isError then .failing c evs else .events evs }
    | none => some { s with pc := .events evs }
  | .failing c evs => some { s with epoll := s.epoll.close c.fd, pc := .events evs }
  | .sweeping i now =>
    match s.pool.items[i]? with
    | none => some { s with pc := .top }
    | some c =>
      if c.keepaliveDeadline ≤ now then none else some { s with pc := .sweeping (i + 1) now }
  | .removed i now =>
    s.pool.items[i]?.map fun c => { s with epoll := s.epoll.close c.fd, pc := .closed i now }
  | .closed i now => some { s with pool := s.pool.swapOut i, pc := .sweeping i now }
  | _ => none

def step (s : Room) : RoomAction → Option Room
  | .pop conn => s.popStep conn
  | .add addOk modOk => s.addStep addOk modOk
  | .poll evs => s.pollStep evs
  | .clock now => s.clockStep now
  | .remove ok => s.removeStep ok
  | .next => s.nextStep
  | .closedElsewhere fd =>
    if fd ∈ s.poolFds then none else some { s with epoll := s.epoll.close fd }

/-! ## Where the two records differ -/

/-- The descriptors of which one record has been changed and the other not yet. -/
def unsettled (s : Room) : List ℕ :=
  match s.pc with
  | .registering c => [c.fd]
  | .events evs => evs.map Prod.fst
  | .failing _ evs => evs.map Prod.fst
  | .removed i _ => (s.pool.items[i]?.map Conn.fd).toList
  | .closed i _ => (s.pool.items[i]?.map Conn.fd).toList
  | _ => []

/-- The connection in the thread's hands, which is not in the pool. -/
def inHand (s : Room) : Option Conn :=
  match s.pc with
  | .adding c => some c
  | .dropping c => some c
  | .failing c _ => some c
  | _ => none

/-- The invariant: the records agree but on the unsettled descriptors, which are pooled and
not armed. Between `io_watcher_remove` and `close` the last may fail. -/
structure Agree (s : Room) : Prop where
  nodup : s.poolFds.Nodup
  settled : ∀ fd, fd ∉ s.unsettled → (s.Armed fd ↔ fd ∈ s.poolFds)
  pooled : ∀ fd ∈ s.unsettled, fd ∈ s.poolFds
  disarmed : ∀ fd ∈ s.unsettled, (∀ i now, s.pc ≠ .removed i now) → ¬ s.Armed fd
  once : s.unsettled.Nodup
  inHand : ∀ c, s.inHand = some c → c.fd ∉ s.poolFds
  slot : ∀ i now, s.pc = .removed i now ∨ s.pc = .closed i now → i < s.pool.items.length

/-! ## Taking a connection out of the pool -/

/-- A pool without the connection on a descriptor. -/
structure Without (p p' : ConnPool) (fd : ℕ) : Prop where
  nodup : (p'.items.map Conn.fd).Nodup
  iff : ∀ g, g ∈ p'.items.map Conn.fd ↔ g ∈ p.items.map Conn.fd ∧ g ≠ fd

theorem without_of_cons {p p' : ConnPool} {c : Conn}
    (h : (p.items : Multiset Conn) = c ::ₘ (p'.items : Multiset Conn))
    (hn : (p.items.map Conn.fd).Nodup) : Without p p' c.fd := by
  have hperm : (p.items.map Conn.fd).Perm (c.fd :: p'.items.map Conn.fd) := by
    rw [← List.map_cons]
    exact (Multiset.coe_eq_coe.mp h).map _
  obtain ⟨hnot, hnd⟩ := List.nodup_cons.mp (hperm.nodup_iff.mp hn)
  refine ⟨hnd, fun g => ?_⟩
  rw [hperm.mem_iff, List.mem_cons]
  constructor
  · intro hg
    exact ⟨.inr hg, ne_of_mem_of_not_mem hg hnot⟩
  · rintro ⟨rfl | hg, hne⟩
    · exact absurd rfl hne
    · exact hg

/-- A descriptor in the pool is found there. -/
theorem exists_poolRemoveByFd {p : ConnPool} {fd : ℕ} (h : fd ∈ p.items.map Conn.fd)
    (hn : (p.items.map Conn.fd).Nodup) :
    ∃ c p', poolRemoveByFd p fd = some (c, p') ∧ c.fd = fd ∧ Without p p' fd := by
  cases hr : poolRemoveByFd p fd with
  | none =>
    obtain ⟨c, hc, rfl⟩ := List.mem_map.mp h
    exact absurd rfl (poolRemoveByFd_eq_none.mp hr c hc)
  | some r =>
    obtain ⟨rfl, hcons, _⟩ := poolRemoveByFd_some hr
    exact ⟨r.1, r.2, rfl, rfl, without_of_cons hcons hn⟩

/-! ## What a change of one record does -/

theorem armed_close {k : Epoll} {fd g : ℕ} :
    k.close fd g = some true ↔ k g = some true ∧ g ≠ fd := by
  unfold Epoll.close
  by_cases h : g = fd
  · simp [h]
  · simp [h]

/-- `io_watcher_add` arms the descriptor or changes nothing. -/
theorem ioWatcherAdd_cases (k : Epoll) (fd : ℕ) (addOk modOk : Bool) :
    ioWatcherAdd k fd addOk modOk = (true, Function.update k fd (some true)) ∨
      ioWatcherAdd k fd addOk modOk = (false, k) := by
  by_cases hreg : (k fd).isSome = true
  · cases modOk <;> simp [ioWatcherAdd, Epoll.add, Epoll.mod, hreg]
  · cases addOk <;> simp [ioWatcherAdd, Epoll.add, hreg]

/-- `io_watcher_remove` concerns only its descriptor. -/
theorem ioWatcherRemove_ne {k : Epoll} {fd g : ℕ} (ok : Bool) (h : g ≠ fd) :
    ioWatcherRemove k fd ok g = k g := by
  unfold ioWatcherRemove Epoll.del
  split
  · simp [h]
  · rfl

theorem agree_init (capacity : ℕ) : (Room.init capacity).Agree where
  nodup := List.nodup_nil
  settled fd _ := by simp [Armed, Room.init, poolFds, poolInit]
  pooled fd h := absurd h List.not_mem_nil
  disarmed fd h := absurd h List.not_mem_nil
  once := List.nodup_nil
  inHand c h := absurd h (by simp [Room.inHand, Room.init])
  slot i now h := absurd h (by simp [Room.init])

/-- Neither record changes, between points where they agree. -/
theorem Agree.goto {s : Room} (h : s.Agree) (pc : RoomPc) (hu : s.unsettled = [])
    (hpc : ({ s with pc := pc } : Room).unsettled = [] ∧ ∀ i now, pc ≠ .removed i now ∧
      pc ≠ .closed i now)
    (hin : ∀ c, ({ s with pc := pc } : Room).inHand = some c → c.fd ∉ s.poolFds) :
    ({ s with pc := pc } : Room).Agree where
  nodup := h.nodup
  settled fd _ := h.settled fd (by simp [hu])
  pooled fd hfd := absurd hfd (by simp [hpc.1])
  disarmed fd hfd := absurd hfd (by simp [hpc.1])
  once := by simp [hpc.1]
  inHand := hin
  slot i now hor := absurd hor (by simp [hpc.2 i now])

/-- An unsettled descriptor leaves the pool too. -/
theorem Agree.take {s : Room} (h : s.Agree) {fd : ℕ} (hfd : fd ∈ s.unsettled)
    (hoff : ∀ g ∈ s.unsettled, ¬ s.Armed g) {p' : ConnPool} (hw : Without s.pool p' fd)
    {pc : RoomPc} (hpc : (⟨s.epoll, p', pc⟩ : Room).unsettled = s.unsettled.erase fd ∧
      ∀ i now, pc ≠ .removed i now ∧ pc ≠ .closed i now)
    (hin : ∀ c, (⟨s.epoll, p', pc⟩ : Room).inHand = some c → c.fd = fd) :
    (⟨s.epoll, p', pc⟩ : Room).Agree where
  nodup := hw.nodup
  settled g hg := by
    rw [hpc.1, h.once.mem_erase_iff, not_and'] at hg
    rw [show g ∈ (⟨s.epoll, p', pc⟩ : Room).poolFds ↔ _ from hw.iff g]
    by_cases hu : g ∈ s.unsettled
    · obtain rfl : g = fd := not_not.mp (hg hu)
      exact iff_of_false (hoff g hu) fun hmem => hmem.2 rfl
    · rw [and_iff_left fun e : g = fd => hu (e ▸ hfd)]
      exact h.settled g hu
  pooled g hg := by
    rw [hpc.1, h.once.mem_erase_iff] at hg
    exact (hw.iff g).mpr ⟨h.pooled g hg.2, hg.1⟩
  disarmed g hg _ := by
    rw [hpc.1] at hg
    exact hoff g (List.mem_of_mem_erase hg)
  once := by
    rw [hpc.1]
    exact h.once.erase _
  inHand c hc hmem := ((hw.iff _).mp hmem).2 (hin c hc)
  slot i now hor := absurd hor (by simp [hpc.2 i now])

/-- A descriptor that is not pooled is closed. -/
theorem Agree.close {s : Room} (h : s.Agree) {fd : ℕ} (hfd : fd ∉ s.poolFds) {pc : RoomPc}
    (hpc : (⟨s.epoll.close fd, s.pool, pc⟩ : Room).unsettled = s.unsettled ∧
      ∀ i now, (pc = .removed i now ↔ s.pc = .removed i now) ∧
        (pc = .closed i now ↔ s.pc = .closed i now))
    (hin : ∀ c, (⟨s.epoll.close fd, s.pool, pc⟩ : Room).inHand = some c → c.fd ∉ s.poolFds) :
    (⟨s.epoll.close fd, s.pool, pc⟩ : Room).Agree where
  nodup := h.nodup
  settled g hg := by
    rw [hpc.1] at hg
    rw [Armed, armed_close]
    by_cases hgfd : g = fd
    · subst hgfd
      exact iff_of_false (fun ha => ha.2 rfl) hfd
    · rw [and_iff_left hgfd]
      exact h.settled g hg
  pooled g hg := h.pooled g (hpc.1 ▸ hg)
  disarmed g hg hne ha := by
    refine h.disarmed g (hpc.1 ▸ hg) (fun i now => ?_) (armed_close.mp ha).1
    exact ((hpc.2 i now).1.not.mp (hne i now))
  once := hpc.1 ▸ h.once
  inHand := hin
  slot i now hor := h.slot i now (by simpa [hpc.2 i now] using hor)

/-! ## The steps -/

theorem Agree.popStep {s s' : Room} {conn : Option Conn} (h : s.Agree)
    (hs : s.popStep conn = some s') : s'.Agree := by
  unfold Room.popStep at hs
  cases hpc : s.pc <;> cases conn <;> simp only [hpc, reduceCtorEq] at hs
  · rw [Option.some.injEq] at hs
    subst hs
    exact h.goto _ (by simp [unsettled, hpc]) (by simp [unsettled]) (by simp [Room.inHand])
  · split at hs
    · cases hs
    · rename_i c hnot
      rw [Option.some.injEq] at hs
      subst hs
      apply h.goto _ (by simp [unsettled, hpc]) (by simp [unsettled])
      rintro c' hc'
      obtain rfl : c = c' := by simpa [Room.inHand] using hc'
      exact hnot

theorem Agree.addStep {s s' : Room} {addOk modOk : Bool} (h : s.Agree)
    (hs : s.addStep addOk modOk = some s') : s'.Agree := by
  unfold Room.addStep at hs
  cases hpc : s.pc <;> simp only [hpc, reduceCtorEq] at hs
  rename_i c
  have hu : s.unsettled = [c.fd] := by simp [unsettled, hpc]
  have hmem : c.fd ∈ s.poolFds := h.pooled _ (by simp [hu])
  rcases ioWatcherAdd_cases s.epoll c.fd addOk modOk with hadd | hadd
  · simp only [hadd, Option.some.injEq] at hs
    subst hs
    have hsettled : ∀ g, Function.update s.epoll c.fd (some true) g = some true ↔
        g ∈ s.poolFds := by
      intro g
      by_cases hg : g = c.fd
      · subst hg
        simpa using hmem
      · rw [Function.update_of_ne hg]
        exact h.settled g (by simpa [hu] using hg)
    exact { nodup := h.nodup
            settled := fun g _ => hsettled g
            pooled := by simp [unsettled]
            disarmed := by simp [unsettled]
            once := by simp [unsettled]
            inHand := by simp [Room.inHand]
            slot := by simp }
  · obtain ⟨c', p', hrem, -, hw⟩ := exists_poolRemoveByFd hmem h.nodup
    simp only [hadd, hrem, Option.map_some, Option.getD_some, Option.some.injEq] at hs
    subst hs
    apply h.take (by simp [hu]) (fun g hg => h.disarmed g hg (by simp [hpc])) hw
    · simp [unsettled, hpc]
    · intro d hd
      obtain rfl : c = d := by simpa [Room.inHand] using hd
      rfl

theorem Agree.pollStep {s s' : Room} {evs : List (ℕ × Bool)} (h : s.Agree)
    (hs : s.pollStep evs = some s') : s'.Agree := by
  unfold Room.pollStep at hs
  cases hpc : s.pc <;> simp only [hpc, reduceCtorEq] at hs
  split at hs
  · rename_i hevs
    obtain ⟨-, hnd, harm⟩ := hevs
    have hu : s.unsettled = [] := by simp [unsettled, hpc]
    rw [Option.some.injEq] at hs
    subst hs
    refine { nodup := h.nodup, settled := fun g hg => ?_, pooled := fun g hg => ?_,
             disarmed := fun g hg _ => ?_, once := hnd, inHand := by simp [Room.inHand],
             slot := by simp }
    · refine Iff.trans ?_ (h.settled g (by simp [hu]))
      simp only [unsettled] at hg
      simp [Armed, Epoll.fire, hg]
    · obtain ⟨e, he, rfl⟩ := List.mem_map.mp hg
      exact (h.settled e.1 (by simp [hu])).mp (harm e he)
    · simp only [unsettled] at hg
      simp [Armed, Epoll.fire, hg]
  · cases hs

theorem Agree.clockStep {s s' : Room} {now : ℤ} (h : s.Agree)
    (hs : s.clockStep now = some s') : s'.Agree := by
  unfold Room.clockStep at hs
  cases hpc : s.pc <;> simp only [hpc, reduceCtorEq] at hs
  rename_i evs
  cases evs <;> simp only [Option.some.injEq, reduceCtorEq] at hs
  subst hs
  exact h.goto _ (by simp [unsettled, hpc]) (by simp [unsettled]) (by simp [Room.inHand])

theorem Agree.removeStep {s s' : Room} {ok : Bool} (h : s.Agree)
    (hs : s.removeStep ok = some s') : s'.Agree := by
  unfold Room.removeStep at hs
  cases hpc : s.pc <;> simp only [hpc, reduceCtorEq] at hs
  rename_i i now
  obtain ⟨c, hc, rfl⟩ := Option.map_eq_some_iff.mp hs
  obtain ⟨hi, -⟩ := Option.filter_eq_some_iff.mp hc
  have hu : s.unsettled = [] := by simp [unsettled, hpc]
  have hmem : c.fd ∈ s.poolFds := List.mem_map_of_mem (List.mem_of_getElem? hi)
  refine { nodup := h.nodup, settled := fun g hg => ?_, pooled := fun g hg => ?_,
           disarmed := fun g _ hne => ?_, once := by simp [unsettled, hi],
           inHand := by simp [Room.inHand], slot := fun j now' hj => ?_ }
  · simp only [unsettled, hi, Option.map_some, Option.toList_some, List.mem_singleton] at hg
    refine Iff.trans ?_ (h.settled g (by simp [hu]))
    simp only [Armed, ioWatcherRemove_ne ok hg]
  · simp only [unsettled, hi, Option.map_some, Option.toList_some, List.mem_singleton] at hg
    exact hg ▸ hmem
  · exact absurd rfl (hne i now)
  · obtain ⟨rfl, -⟩ : i = j ∧ now = now' := by simpa using hj
    exact (List.getElem?_eq_some_iff.mp hi).1

/-- The next event: its connection is in the pool. -/
theorem Agree.event {s s' : Room} {fd : ℕ} {isError : Bool} {evs : List (ℕ × Bool)}
    (h : s.Agree) (hpc : s.pc = .events ((fd, isError) :: evs)) (hs : s.nextStep = some s') :
    s'.Agree := by
  have hu : s.unsettled = fd :: evs.map Prod.fst := by simp [unsettled, hpc]
  obtain ⟨c, p', hrem, hc, hw⟩ := exists_poolRemoveByFd (h.pooled fd (by simp [hu])) h.nodup
  simp only [Room.nextStep, hpc, hrem, Option.some.injEq] at hs
  subst hs
  apply h.take (by simp [hu]) (fun g hg => h.disarmed g hg (by simp [hpc])) hw
  · rw [hu, List.erase_cons_head]
    cases isError <;> simp [unsettled]
  · intro d hd
    cases isError with
    | false => simp [Room.inHand] at hd
    | true =>
      obtain rfl : c = d := by simpa [Room.inHand] using hd
      exact hc

theorem Agree.adding {s s' : Room} {c : Conn} (h : s.Agree) (hpc : s.pc = .adding c)
    (hs : s.nextStep = some s') : s'.Agree := by
  have hu : s.unsettled = [] := by simp [unsettled, hpc]
  have hnot : c.fd ∉ s.poolFds := h.inHand c (by simp [Room.inHand, hpc])
  cases hadd : poolAdd s.pool c with
  | none =>
    simp only [Room.nextStep, hpc, hadd, Option.some.injEq] at hs
    subst hs
    apply h.goto _ hu (by simp [unsettled])
    intro d hd
    obtain rfl : c = d := by simpa [Room.inHand] using hd
    exact hnot
  | some p' =>
    simp only [Room.nextStep, hpc, hadd, Option.some.injEq] at hs
    subst hs
    have hfds : p'.items.map Conn.fd = s.poolFds ++ [c.fd] := by
      simp [(poolAdd_some hadd).1, poolFds]
    refine { nodup := ?_, settled := fun g hg => ?_, pooled := fun g hg => ?_,
             disarmed := fun g hg _ => ?_, once := by simp [unsettled],
             inHand := by simp [Room.inHand], slot := by simp }
    · rw [poolFds, hfds, ← List.concat_eq_append]
      exact h.nodup.concat hnot
    · have hne : g ≠ c.fd := by simpa [unsettled] using hg
      refine Iff.trans (h.settled g (by simp [hu])) ?_
      simp [poolFds, hfds, hne]
    · obtain rfl : g = c.fd := by simpa [unsettled] using hg
      simp [poolFds, hfds]
    · obtain rfl : g = c.fd := by simpa [unsettled] using hg
      exact fun ha => hnot ((h.settled c.fd (by simp [hu])).mp ha)

theorem Agree.nextStep {s s' : Room} (h : s.Agree) (hs : s.nextStep = some s') : s'.Agree := by
  cases hpc : s.pc with
  | adding c => exact h.adding hpc hs
  | events evs =>
    cases evs with
    | nil => simp [Room.nextStep, hpc] at hs
    | cons e evs => exact h.event hpc hs
  | top =>
    simp only [Room.nextStep, hpc, Option.some.injEq] at hs
    subst hs
    exact h.goto _ (by simp [unsettled, hpc]) (by simp [unsettled]) (by simp [Room.inHand])
  | dropping c =>
    simp only [Room.nextStep, hpc, Option.some.injEq] at hs
    subst hs
    exact h.close (h.inHand c (by simp [Room.inHand, hpc])) (by simp [unsettled, hpc])
      (by simp [Room.inHand])
  | failing c evs =>
    simp only [Room.nextStep, hpc, Option.some.injEq] at hs
    subst hs
    exact h.close (h.inHand c (by simp [Room.inHand, hpc])) (by simp [unsettled, hpc])
      (by simp [Room.inHand])
  | sweeping i now =>
    simp only [Room.nextStep, hpc] at hs
    have hgoto : ∀ pc, (pc = .top ∨ ∃ j, pc = .sweeping j now) →
        ({ s with pc := pc } : Room).Agree := by
      rintro pc (rfl | ⟨j, rfl⟩) <;>
        exact h.goto _ (by simp [unsettled, hpc]) (by simp [unsettled]) (by simp [Room.inHand])
    split at hs
    · exact Option.some.inj hs ▸ hgoto _ (.inl rfl)
    · split at hs
      · cases hs
      · exact Option.some.inj hs ▸ hgoto _ (.inr ⟨_, rfl⟩)
  | removed i now =>
    simp only [Room.nextStep, hpc] at hs
    obtain ⟨c, hi, rfl⟩ := Option.map_eq_some_iff.mp hs
    have hu : s.unsettled = [c.fd] := by simp [unsettled, hpc, hi]
    refine { nodup := h.nodup, settled := fun g hg => ?_, pooled := fun g hg => ?_,
             disarmed := fun g hg _ ha => ?_, once := by simp [unsettled, hi],
             inHand := by simp [Room.inHand], slot := fun j now' hj => ?_ }
    · have hne : g ≠ c.fd := by simpa [unsettled, hi] using hg
      refine Iff.trans ?_ (h.settled g (by simpa [hu] using hne))
      simp [Armed, armed_close, hne]
    · have he : g = c.fd := by simpa [unsettled, hi] using hg
      exact h.pooled g (by simp [hu, he])
    · have he : g = c.fd := by simpa [unsettled, hi] using hg
      exact (armed_close.mp ha).2 he
    · obtain ⟨rfl, -⟩ : i = j ∧ now = now' := by simpa using hj
      exact (List.getElem?_eq_some_iff.mp hi).1
  | closed i now =>
    simp only [Room.nextStep, hpc, Option.some.injEq] at hs
    subst hs
    have hlt := h.slot i now (.inr hpc)
    have hi := List.getElem?_eq_getElem hlt
    have hu : s.unsettled = [s.pool.items[i].fd] := by simp [unsettled, hpc, hi]
    apply h.take (by simp [hu]) (fun g hg => h.disarmed g hg (by simp [hpc]))
      (without_of_cons (ConnPool.coe_swapOut hlt) h.nodup)
    · rw [hu, List.erase_cons_head]
      simp [unsettled]
    · simp [Room.inHand]
  | _ => simp [Room.nextStep, hpc] at hs

/-- **One step** of the thread or of another keeps the records in agreement. -/
theorem Agree.step {s s' : Room} {a : RoomAction} (h : s.Agree) (hs : s.step a = some s') :
    s'.Agree := by
  cases a with
  | pop conn => exact h.popStep hs
  | add addOk modOk => exact h.addStep hs
  | poll evs => exact h.pollStep hs
  | clock now => exact h.clockStep hs
  | remove ok => exact h.removeStep hs
  | next => exact h.nextStep hs
  | closedElsewhere fd =>
    simp only [Room.step] at hs
    split at hs
    · cases hs
    · rename_i hnot
      rw [Option.some.injEq] at hs
      subst hs
      exact h.close hnot ⟨rfl, fun _ _ => ⟨Iff.rfl, Iff.rfl⟩⟩ h.inHand

/-- No step changes the capacity. -/
theorem capacity_step {s s' : Room} {a : RoomAction} (hs : s.step a = some s') :
    s'.pool.capacity = s.pool.capacity := by
  have hrem : ∀ fd, (((poolRemoveByFd s.pool fd).map Prod.snd).getD s.pool).capacity =
      s.pool.capacity := by
    intro fd
    cases hr : poolRemoveByFd s.pool fd with
    | none => rfl
    | some r => exact (poolRemoveByFd_some hr).2.2
  cases a with
  | pop conn =>
    simp only [Room.step, Room.popStep] at hs
    grind
  | add addOk modOk =>
    simp only [Room.step, Room.addStep] at hs
    grind
  | poll evs =>
    simp only [Room.step, Room.pollStep] at hs
    grind
  | clock now =>
    simp only [Room.step, Room.clockStep] at hs
    grind
  | remove ok =>
    simp only [Room.step, Room.removeStep] at hs
    split at hs
    · obtain ⟨c, _, rfl⟩ := Option.map_eq_some_iff.mp hs
      rfl
    · cases hs
  | next =>
    have hadd : ∀ c p', poolAdd s.pool c = some p' → p'.capacity = s.pool.capacity :=
      fun c p' h => (poolAdd_some h).2.1
    have hby : ∀ fd c p', poolRemoveByFd s.pool fd = some (c, p') →
        p'.capacity = s.pool.capacity := fun fd c p' h => (poolRemoveByFd_some h).2.2
    have hswap : ∀ i, (s.pool.swapOut i).capacity = s.pool.capacity := fun i => rfl
    simp only [Room.step, Room.nextStep, Option.map] at hs
    grind
  | closedElsewhere fd =>
    simp only [Room.step] at hs
    grind

/-- **At the head of the loop the pool holds exactly the armed descriptors**, each once, and
no more than it has room for: whatever is popped, whichever of `pool_add`, `epoll_ctl` and
`epoll_wait` fail, and whatever the clock says. -/
theorem pool_matches_watcher (capacity : ℕ) (s : Room)
    (h : Reachable Room.step (Room.init capacity) s) (htop : s.pc = .top) :
    s.poolFds.Nodup ∧ s.pool.count ≤ capacity ∧ ∀ fd, fd ∈ s.poolFds ↔ s.Armed fd := by
  have hagree : s.Agree := h.inv (agree_init capacity) fun _ _ _ hi hs _ => hi.step hs
  have hcap : s.pool.capacity = capacity :=
    h.inv (I := fun t => t.pool.capacity = capacity) rfl fun _ _ _ hi hs _ =>
      (capacity_step hs).trans hi
  refine ⟨hagree.nodup, hcap ▸ s.pool.length_le, fun fd => ?_⟩
  exact (hagree.settled fd (by simp [unsettled, htop])).symm

/-- Two connections come in, and one of them has data. It comes back and is armed anew. -/
def rearmRun : List RoomAction :=
  [.next, .pop (some { id := 1, fd := 7, keepaliveDeadline := 9 }), .next, .add true true,
    .pop (some { id := 2, fd := 8, keepaliveDeadline := 9 }), .next, .add true true, .pop none,
    .poll [(7, false)], .next, .clock 5, .next, .next,
    .next, .pop (some { id := 1, fd := 7, keepaliveDeadline := 14 }), .next, .add false true,
    .pop none, .poll [], .clock 6, .next, .next, .next]

theorem pool_matches_watcher_rearmRun : ∃ s, run Room.step (Room.init 4) rearmRun = some s ∧
    s.pc = .top ∧ s.poolFds = [8, 7] ∧
    (s.poolFds.Nodup ∧ s.pool.count ≤ 4 ∧ ∀ fd, fd ∈ s.poolFds ↔ s.Armed fd) :=
  ⟨_, rfl, rfl, rfl, pool_matches_watcher 4 _ (Reachable.of_run rearmRun rfl) rfl⟩

end Room

end Celeritas
