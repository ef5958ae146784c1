import Celeritas.WaitRoom.Watcher
import Celeritas.Lib.Trace

/-!
# The other watcher

Where there is no `epoll`, `io_watcher.c` is built on `kqueue`. There a one-shot registration
is gone when it has fired, so that `io_watcher_add` always adds; with `epoll` it stays in the
tree, disarmed, and is armed again. `wait_room_thread` is the same text for both.

So here is the thread over any `Watcher`. With `epoll` it is `Room` (`simulation_room`); with
`kqueue` it differs in what is registered and in which calls fail, and in nothing that the
thread sees or does (`kqueue_shows_iff`).
-/

set_option autoImplicit false

namespace Celeritas

open Lib

/-- The calls of `io_watcher.c`, on what the kernel has of the watcher. The `Bool`s among the
arguments are whether the system calls succeed that can. -/
structure Watcher (K : Type) where
  empty : K
  /-- `io_watcher_add`: whether it returns `0` -/
  add : K → ℕ → Bool → Bool → Bool × K
  /-- `io_watcher_remove` -/
  remove : K → ℕ → Bool → K
  /-- `io_watcher_wait` reports the descriptor when there is something to read -/
  armed : K → ℕ → Bool
  /-- after `io_watcher_wait` has reported these -/
  fire : K → List ℕ → K
  close : K → ℕ → K

def epollWatcher : Watcher Epoll where
  empty := fun _ => none
  add := ioWatcherAdd
  remove := ioWatcherRemove
  armed k fd := k fd == some true
  fire := Epoll.fire
  close := Epoll.close

/-! ## `kqueue` -/

/-- The descriptors with a registration. -/
abbrev Kqueue := ℕ → Bool

/-- `EV_ADD`, which replaces a registration that is there. -/
def Kqueue.add (k : Kqueue) (fd : ℕ) (ok : Bool) : Bool × Kqueue :=
  if ok then (true, Function.update k fd true) else (false, k)

/-- `EV_DELETE`, which fails if there is none. -/
def Kqueue.delete (k : Kqueue) (fd : ℕ) (ok : Bool) : Kqueue :=
  if k fd && ok then Function.update k fd false else k

/-- With `EV_ONESHOT`, what is reported is deleted. -/
def Kqueue.oneshot (k : Kqueue) (fds : List ℕ) : Kqueue :=
  fun fd => if fd ∈ fds then false else k fd

def kqueueWatcher : Watcher Kqueue where
  empty := fun _ => false
  add k fd ok _ := k.add fd ok
  remove := Kqueue.delete
  armed k fd := k fd
  fire := Kqueue.oneshot
  close k fd := Function.update k fd false

/-! ## The thread -/

structure RoomOn (K : Type) where
  watch : K
  pool : ConnPool
  pc : RoomPc

namespace RoomOn

variable {K : Type} (w : Watcher K)

def init (capacity : ℕ) : RoomOn K := ⟨w.empty, poolInit capacity, .top⟩

def addStep (s : RoomOn K) (addOk modOk : Bool) : Option (RoomOn K) :=
  match s.pc with
  | .registering c =>
    match w.add s.watch c.fd addOk modOk with
    | (true, k) => some { s with watch := k, pc := .draining }
    | (false, k) => some {
        watch := k
        pool := ((poolRemoveByFd s.pool c.fd).map Prod.snd).getD s.pool
        pc := .dropping c }
  | _ => none

def pollStep (s : RoomOn K) (evs : List (ℕ × Bool)) : Option (RoomOn K) :=
  match s.pc with
  | .polling =>
    if evs.length ≤ MAX_WAIT_EVENTS ∧ (evs.map Prod.fst).Nodup ∧
        ∀ e ∈ evs, w.armed s.watch e.1 = true then
      some { s with watch := w.fire s.watch (evs.map Prod.fst), pc := .events evs }
    else none
  | _ => none

def removeStep (s : RoomOn K) (ok : Bool) : Option (RoomOn K) :=
  match s.pc with
  | .sweeping i now =>
    (s.pool.items[i]?.filter fun c => c.keepaliveDeadline ≤ now).map fun c =>
      { s with watch := w.remove s.watch c.fd ok, pc := .removed i now }
  | _ => none

def nextStep (s : RoomOn K) : Option (RoomOn K) :=
  match s.pc with
  | .top => some { s with pc := .draining }
  | .adding c =>
    match poolAdd s.pool c with
    | some pool => some { s with pool := pool, pc := .registering c }
    | none => some { s with pc := .dropping c }
  | .dropping c => some { s with watch := w.close s.watch c.fd, pc := .draining }
  | .events ((fd, isError) :: evs) =>
    match poolRemoveByFd s.pool fd with
    | some (c, pool) =>
      some { s with pool := pool, pc := if isError then .failing c evs else .events evs }
    | none => some { s with pc := .events evs }
  | .failing c evs => some { s with watch := w.close s.watch c.fd, pc := .events evs }
  | .sweeping i now =>
    match s.pool.items[i]? with
    | none => some { s with pc := .top }
    | some c =>
      if c.keepaliveDeadline ≤ now then none else some { s with pc := .sweeping (i + 1) now }
  | .removed i now =>
    s.pool.items[i]?.map fun c => { s with watch := w.close s.watch c.fd, pc := .closed i now }
  | .closed i now => some { s with pool := s.pool.swapOut i, pc := .sweeping i now }
  | _ => none

def step (s : RoomOn K) : RoomAction → Option (RoomOn K)
  | .pop conn =>
    match s.pc, conn with
    | .draining, none => some { s with pc := .polling }
    | .draining, some c =>
      if c.fd ∈ s.pool.items.map Conn.fd then none else some { s with pc := .adding c }
    | _, _ => none
  | .add addOk modOk => s.addStep w addOk modOk
  | .poll evs => s.pollStep w evs
  | .clock now =>
    match s.pc with
    | .events [] => some { s with pc := .sweeping 0 now }
    | _ => none
  | .remove ok => s.removeStep w ok
  | .next => s.nextStep w
  | .closedElsewhere fd =>
    if fd ∈ s.pool.items.map Conn.fd then none else some { s with watch := w.close s.watch fd }

end RoomOn

/-- What the thread has to do with: the pool, where it is, and what can be reported to it. -/
structure RoomView where
  pool : ConnPool
  pc : RoomPc
  armed : ℕ → Bool

def RoomOn.view {K : Type} (w : Watcher K) (s : RoomOn K) : RoomView :=
  ⟨s.pool, s.pc, w.armed s.watch⟩

def Room.view (s : Room) : RoomView := ⟨s.pool, s.pc, fun fd => s.epoll fd == some true⟩

/-! ## One watcher in the place of another -/

/-- Where the two report the same, each call to the first has one to the second with the same
result, after which they do so again. -/
structure Watcher.MimickedBy {K L : Type} (w : Watcher K) (w' : Watcher L) : Prop where
  add : ∀ k l, w.armed k = w'.armed l → ∀ fd addOk modOk, ∃ addOk' modOk',
    (w.add k fd addOk modOk).1 = (w'.add l fd addOk' modOk').1 ∧
      w.armed (w.add k fd addOk modOk).2 = w'.armed (w'.add l fd addOk' modOk').2
  remove : ∀ k l, w.armed k = w'.armed l → ∀ fd ok, ∃ ok',
    w.armed (w.remove k fd ok) = w'.armed (w'.remove l fd ok')
  fire : ∀ k l, w.armed k = w'.armed l → ∀ fds,
    w.armed (w.fire k fds) = w'.armed (w'.fire l fds)
  close : ∀ k l, w.armed k = w'.armed l → ∀ fd, w.armed (w.close k fd) = w'.armed (w'.close l fd)

namespace RoomOn

variable {K L : Type} {w : Watcher K} {w' : Watcher L}

/-- The two threads look the same. -/
def Alike (w : Watcher K) (w' : Watcher L) (s : RoomOn K) (t : RoomOn L) : Prop :=
  s.view w = t.view w'

theorem alike_iff {s : RoomOn K} {t : RoomOn L} : Alike w w' s t ↔
    s.pool = t.pool ∧ s.pc = t.pc ∧ w.armed s.watch = w'.armed t.watch := by
  simp only [Alike, view, RoomView.mk.injEq]

theorem Alike.addStep (hw : w.MimickedBy w') {s s' : RoomOn K} {t : RoomOn L} {addOk modOk : Bool}
    (h : Alike w w' s t) (hs : s.addStep w addOk modOk = some s') :
    ∃ b t', t.step w' b = some t' ∧ Alike w w' s' t' := by
  obtain ⟨hpool, hpc, harmed⟩ := alike_iff.mp h
  unfold RoomOn.addStep at hs
  split at hs
  · rename_i c hc
    obtain ⟨addOk', modOk', hres, hadd⟩ := hw.add _ _ harmed c.fd addOk modOk
    refine ⟨.add addOk' modOk', ?_⟩
    simp only [RoomOn.step, RoomOn.addStep, ← hpc, hc, ← hpool]
    generalize w.add s.watch c.fd addOk modOk = x at hs hres hadd
    generalize w'.add t.watch c.fd addOk' modOk' = y at hres hadd
    obtain ⟨ok, k⟩ := x
    obtain ⟨ok', l⟩ := y
    obtain rfl : ok = ok' := hres
    cases ok with
    | true =>
      obtain rfl := Option.some.inj hs
      exact ⟨_, rfl, alike_iff.mpr ⟨rfl, rfl, hadd⟩⟩
    | false =>
      obtain rfl := Option.some.inj hs
      exact ⟨_, rfl, alike_iff.mpr ⟨rfl, rfl, hadd⟩⟩
  · exact absurd hs (by simp)

theorem Alike.pollStep (hw : w.MimickedBy w') {s s' : RoomOn K} {t : RoomOn L}
    {evs : List (ℕ × Bool)} (h : Alike w w' s t) (hs : s.pollStep w evs = some s') :
    ∃ b t', t.step w' b = some t' ∧ Alike w w' s' t' := by
  obtain ⟨hpool, hpc, harmed⟩ := alike_iff.mp h
  unfold RoomOn.pollStep at hs
  split at hs
  · rename_i hc
    split at hs
    · rename_i hevs
      obtain rfl := Option.some.inj hs
      refine ⟨.poll evs, { t with watch := w'.fire t.watch (evs.map Prod.fst), pc := .events evs },
        ?_, alike_iff.mpr ⟨hpool, rfl, hw.fire _ _ harmed _⟩⟩
      simp only [RoomOn.step, RoomOn.pollStep, ← hpc, hc]
      exact if_pos (harmed ▸ hevs)
    · exact absurd hs (by simp)
  · exact absurd hs (by simp)

theorem Alike.removeStep (hw : w.MimickedBy w') {s s' : RoomOn K} {t : RoomOn L} {ok : Bool}
    (h : Alike w w' s t) (hs : s.removeStep w ok = some s') :
    ∃ b t', t.step w' b = some t' ∧ Alike w w' s' t' := by
  obtain ⟨hpool, hpc, harmed⟩ := alike_iff.mp h
  unfold RoomOn.removeStep at hs
  split at hs
  · rename_i i now hc
    obtain ⟨c, hexp, rfl⟩ := Option.map_eq_some_iff.mp hs
    obtain ⟨ok', hrem⟩ := hw.remove _ _ harmed c.fd ok
    refine ⟨.remove ok', { t with watch := w'.remove t.watch c.fd ok', pc := .removed i now }, ?_,
      alike_iff.mpr ⟨hpool, rfl, hrem⟩⟩
    simp only [RoomOn.step, RoomOn.removeStep, ← hpc, hc, ← hpool, hexp, Option.map_some]
  · exact absurd hs (by simp)

theorem Alike.nextStep (hw : w.MimickedBy w') {s s' : RoomOn K} {t : RoomOn L}
    (h : Alike w w' s t) (hs : s.nextStep w = some s') :
    ∃ t', t.nextStep w' = some t' ∧ Alike w w' s' t' := by
  obtain ⟨hpool, hpc, harmed⟩ := alike_iff.mp h
  have hclose := hw.close _ _ harmed
  unfold RoomOn.nextStep at hs ⊢
  rw [← hpc, ← hpool]
  cases hc : s.pc with
  | top =>
    obtain rfl := Option.some.inj (by simpa only [hc] using hs)
    exact ⟨_, rfl, alike_iff.mpr ⟨rfl, rfl, harmed⟩⟩
  | adding c =>
    simp only [hc] at hs ⊢
    split at hs <;> obtain rfl := Option.some.inj hs
    · exact ⟨_, rfl, alike_iff.mpr ⟨rfl, rfl, harmed⟩⟩
    · exact ⟨_, rfl, alike_iff.mpr ⟨rfl, rfl, harmed⟩⟩
  | dropping c =>
    obtain rfl := Option.some.inj (by simpa only [hc] using hs)
    exact ⟨_, rfl, alike_iff.mpr ⟨rfl, rfl, hclose c.fd⟩⟩
  | events evs =>
    cases evs with
    | nil => simp [hc] at hs
    | cons e evs =>
      simp only [hc] at hs ⊢
      split at hs <;> obtain rfl := Option.some.inj hs
      · exact ⟨_, rfl, alike_iff.mpr ⟨rfl, rfl, harmed⟩⟩
      · exact ⟨_, rfl, alike_iff.mpr ⟨rfl, rfl, harmed⟩⟩
  | failing c evs =>
    obtain rfl := Option.some.inj (by simpa only [hc] using hs)
    exact ⟨_, rfl, alike_iff.mpr ⟨rfl, rfl, hclose c.fd⟩⟩
  | sweeping i now =>
    simp only [hc] at hs ⊢
    split at hs
    · obtain rfl := Option.some.inj hs
      exact ⟨_, rfl, alike_iff.mpr ⟨rfl, rfl, harmed⟩⟩
    · split at hs
      · exact absurd hs (by simp)
      · rename_i hlive
        obtain rfl := Option.some.inj hs
        exact ⟨_, if_neg hlive, alike_iff.mpr ⟨rfl, rfl, harmed⟩⟩
  | removed i now =>
    simp only [hc] at hs ⊢
    obtain ⟨c, hi, rfl⟩ := Option.map_eq_some_iff.mp hs
    exact ⟨_, by rw [hi, Option.map_some], alike_iff.mpr ⟨rfl, rfl, hclose c.fd⟩⟩
  | closed i now =>
    obtain rfl := Option.some.inj (by simpa only [hc] using hs)
    exact ⟨_, rfl, alike_iff.mpr ⟨rfl, rfl, harmed⟩⟩
  | _ => simp [hc] at hs

/-- **One step** of the thread, or of another. -/
theorem Alike.step (hw : w.MimickedBy w') {s s' : RoomOn K} {t : RoomOn L} {a : RoomAction}
    (h : Alike w w' s t) (hs : s.step w a = some s') :
    ∃ b t', t.step w' b = some t' ∧ Alike w w' s' t' := by
  obtain ⟨hpool, hpc, harmed⟩ := alike_iff.mp h
  cases a with
  | add addOk modOk => exact h.addStep hw hs
  | poll evs => exact h.pollStep hw hs
  | remove ok => exact h.removeStep hw hs
  | next =>
    obtain ⟨t', ht, hlike⟩ := h.nextStep hw hs
    exact ⟨.next, t', ht, hlike⟩
  | pop conn =>
    refine ⟨.pop conn, ?_⟩
    simp only [RoomOn.step, ← hpc, ← hpool] at hs ⊢
    split at hs
    · obtain rfl := Option.some.inj hs
      exact ⟨_, rfl, alike_iff.mpr ⟨rfl, rfl, harmed⟩⟩
    · split at hs
      · exact absurd hs (by simp)
      · rename_i hnew
        obtain rfl := Option.some.inj hs
        exact ⟨_, if_neg hnew, alike_iff.mpr ⟨rfl, rfl, harmed⟩⟩
    · exact absurd hs (by simp)
  | clock now =>
    refine ⟨.clock now, ?_⟩
    simp only [RoomOn.step, ← hpc] at hs ⊢
    split at hs
    · obtain rfl := Option.some.inj hs
      exact ⟨_, rfl, alike_iff.mpr ⟨hpool, rfl, harmed⟩⟩
    · exact absurd hs (by simp)
  | closedElsewhere fd =>
    refine ⟨.closedElsewhere fd, ?_⟩
    simp only [RoomOn.step, ← hpool] at hs ⊢
    split at hs
    · exact absurd hs (by simp)
    · rename_i hnot
      obtain rfl := Option.some.inj hs
      exact ⟨_, if_neg hnot, alike_iff.mpr ⟨rfl, hpc, hw.close _ _ harmed fd⟩⟩

theorem simulation (hw : w.MimickedBy w') :
    Simulation (RoomOn.step w) (RoomOn.step w') (RoomOn.view w) (RoomOn.view w') (Alike w w') where
  view _ _ h := h
  step _ _ _ _ h hs := h.step hw hs

end RoomOn

/-! ## What both watchers do -/

/-- A one-shot watcher: its calls set what is armed, or fail and leave it as it was, and which
of the two is up to the kernel. -/
structure Watcher.OneShot {K : Type} (w : Watcher K) : Prop where
  add : ∀ k fd addOk modOk, w.armed (w.add k fd addOk modOk).2 =
    if (w.add k fd addOk modOk).1 then Function.update (w.armed k) fd true else w.armed k
  addResult : ∀ k fd ok, (w.add k fd ok ok).1 = ok
  remove : ∀ k fd ok, w.armed (w.remove k fd ok) =
    if ok then Function.update (w.armed k) fd false else w.armed k
  fire : ∀ k fds, w.armed (w.fire k fds) = fun fd => if fd ∈ fds then false else w.armed k fd
  close : ∀ k fd, w.armed (w.close k fd) = Function.update (w.armed k) fd false

theorem Watcher.OneShot.mimickedBy {K L : Type} {w : Watcher K} {w' : Watcher L}
    (h : w.OneShot) (h' : w'.OneShot) : w.MimickedBy w' where
  add k l hkl fd addOk modOk := by
    refine ⟨_, _, (h'.addResult l fd (w.add k fd addOk modOk).1).symm, ?_⟩
    rw [h.add, h'.add, h'.addResult, hkl]
  remove k l hkl fd ok := ⟨ok, by rw [h.remove, h'.remove, hkl]⟩
  fire k l hkl fds := by rw [h.fire, h'.fire, hkl]
  close k l hkl fd := by rw [h.close, h'.close, hkl]

theorem kqueueWatcher_oneShot : kqueueWatcher.OneShot where
  add k fd addOk modOk := by cases addOk <;> rfl
  addResult k fd ok := by cases ok <;> rfl
  remove k fd ok := by
    cases ok with
    | false => simp [kqueueWatcher, Kqueue.delete]
    | true =>
      cases hk : k fd with
      | true => simp [kqueueWatcher, Kqueue.delete, hk]
      | false =>
        -- there is none, as there is after the call
        have hsame : Function.update k fd false = k := by rw [← hk, Function.update_eq_self]
        simp [kqueueWatcher, Kqueue.delete, hk, hsame]
  fire k fds := rfl
  close k fd := rfl

theorem epollWatcher_armed_update (k : Epoll) (fd : ℕ) (x : Option Bool) :
    epollWatcher.armed (Function.update k fd x) =
      Function.update (epollWatcher.armed k) fd (x == some true) := by
  funext g
  simp only [epollWatcher, Function.update_apply]
  split <;> rfl

theorem epollWatcher_oneShot : epollWatcher.OneShot where
  add k fd addOk modOk := by
    rcases Room.ioWatcherAdd_cases k fd addOk modOk with h | h
    · rw [show epollWatcher.add k fd addOk modOk = _ from h]
      exact epollWatcher_armed_update k fd (some true)
    · rw [show epollWatcher.add k fd addOk modOk = _ from h]
      rfl
  addResult k fd ok := by
    cases hreg : k fd <;> cases ok <;>
      simp [epollWatcher, ioWatcherAdd, Epoll.add, Epoll.mod, hreg]
  remove k fd ok := by
    have hrem : epollWatcher.remove k fd ok =
        if (k fd).isSome ∧ ok then Function.update k fd none else k := by
      simp only [epollWatcher, ioWatcherRemove, Epoll.del]
      split <;> rfl
    rw [hrem]
    cases ok with
    | false => simp
    | true =>
      cases hk : k fd with
      | some x => simpa [hk] using epollWatcher_armed_update k fd none
      | none =>
        -- what is not in the tree is not armed
        have hoff : epollWatcher.armed k fd = false := by simp [epollWatcher, hk]
        have hsame : Function.update (epollWatcher.armed k) fd false = epollWatcher.armed k := by
          rw [← hoff, Function.update_eq_self]
        simp [hsame]
  fire k fds := by
    funext fd
    simp only [epollWatcher, Epoll.fire]
    split <;> rfl
  close k fd := epollWatcher_armed_update k fd none

/-! ## The thread is the one of `Room` -/

def RoomOn.toRoom (s : RoomOn Epoll) : Room := ⟨s.watch, s.pool, s.pc⟩

theorem RoomOn.toRoom_step (s : RoomOn Epoll) (a : RoomAction) :
    (s.step epollWatcher a).map RoomOn.toRoom = s.toRoom.step a := by
  obtain ⟨k, p, pc⟩ := s
  cases a with
  | pop conn =>
    cases pc with
    | draining =>
      cases conn with
      | none => rfl
      | some c => exact apply_ite _ _ _ _
    | _ => rfl
  | add addOk modOk =>
    cases pc with
    | registering c =>
      simp only [RoomOn.step, RoomOn.addStep, RoomOn.toRoom, Room.step, Room.addStep, epollWatcher]
      cases ioWatcherAdd k c.fd addOk modOk with
      | mk ok k => cases ok <;> rfl
    | _ => rfl
  | poll evs =>
    cases pc with
    | polling =>
      simp only [RoomOn.step, RoomOn.pollStep, RoomOn.toRoom, Room.step, Room.pollStep,
        epollWatcher, beq_iff_eq]
      exact apply_ite _ _ _ _
    | _ => rfl
  | clock now =>
    cases pc with
    | events evs => cases evs <;> rfl
    | _ => rfl
  | remove ok =>
    cases pc with
    | sweeping i now =>
      simp only [RoomOn.step, RoomOn.removeStep, RoomOn.toRoom, Room.step, Room.removeStep,
        Room.expired, epollWatcher, Option.map_map]
      rfl
    | _ => rfl
  | next =>
    simp only [RoomOn.step, RoomOn.nextStep, RoomOn.toRoom, Room.step, Room.nextStep, epollWatcher]
    cases pc with
    | adding c =>
      dsimp only
      cases poolAdd p c <;> rfl
    | events evs =>
      cases evs with
      | nil => rfl
      | cons e evs =>
        dsimp only
        cases poolRemoveByFd p e.1 <;> rfl
    | sweeping i now =>
      dsimp only
      cases p.items[i]? with
      | none => rfl
      | some c => exact apply_ite _ _ _ _
    | removed i now =>
      dsimp only
      cases p.items[i]? <;> rfl
    | _ => rfl
  | closedElsewhere fd => exact apply_ite _ _ _ _

theorem simulation_room :
    Simulation (RoomOn.step epollWatcher) Room.step (RoomOn.view epollWatcher) Room.view
      fun s t => t = s.toRoom where
  view := by
    rintro s _ rfl
    rfl
  step := by
    rintro s _ a s' rfl hs
    exact ⟨a, s'.toRoom, by rw [← RoomOn.toRoom_step, hs, Option.map_some], rfl⟩

/-- So there too the pool holds at the head of the loop what the watcher can report, on the same
assumptions about the other threads. -/
theorem kqueue_pool_matches {capacity : ℕ} {s : RoomOn Kqueue}
    (h : Reachable (RoomOn.step kqueueWatcher) (RoomOn.init kqueueWatcher capacity) s)
    (htop : s.pc = .top) (fd : ℕ) : fd ∈ s.pool.items.map Conn.fd ↔ s.watch fd = true := by
  have hkq := RoomOn.simulation (kqueueWatcher_oneShot.mimickedBy epollWatcher_oneShot)
  have hinit : RoomOn.Alike kqueueWatcher epollWatcher (RoomOn.init kqueueWatcher capacity)
      (RoomOn.init epollWatcher capacity) := rfl
  obtain ⟨t, ht, hst⟩ := hkq.reachable hinit h
  obtain ⟨_, hr, rfl⟩ := simulation_room.reachable rfl ht
  obtain ⟨hpool, hpc, harmed⟩ := RoomOn.alike_iff.mp hst
  have hagree : t.toRoom.Agree := hr.inv (Room.agree_init capacity) fun _ _ _ hi hs _ => hi.step hs
  have hu : t.toRoom.unsettled = [] := by simp [Room.unsettled, RoomOn.toRoom, ← hpc, htop]
  have hiff := hagree.settled fd (by simp [hu])
  rw [hpool, ← show _ ↔ fd ∈ t.pool.items.map Conn.fd from hiff,
    show s.watch fd = epollWatcher.armed t.watch fd from congrFun harmed fd]
  simp [epollWatcher, Room.Armed, RoomOn.toRoom]

/-- One connection comes in, and stays idle for a pass. -/
def oneIdle : List RoomAction :=
  [.next, .pop (some { id := 1, fd := 7, keepaliveDeadline := 9 }), .next, .add true true,
    .pop none, .poll [], .clock 5, .next, .next]

theorem kqueue_pool_matches_oneIdle :
    ∃ s, run (RoomOn.step kqueueWatcher) (RoomOn.init kqueueWatcher 4) oneIdle = some s ∧
      s.pc = .top ∧ s.watch 7 = true := by
  have hrun : ∃ s, run (RoomOn.step kqueueWatcher) (RoomOn.init kqueueWatcher 4) oneIdle = some s ∧
      s.pc = .top ∧ s.pool.items.map Conn.fd = [7] := ⟨_, rfl, rfl, rfl⟩
  obtain ⟨s, hr, hpc, hfds⟩ := hrun
  have hmem : 7 ∈ s.pool.items.map Conn.fd := hfds ▸ List.mem_singleton_self 7
  exact ⟨s, hr, hpc, (kqueue_pool_matches (.of_run oneIdle hr) hpc 7).mp hmem⟩

end Celeritas
