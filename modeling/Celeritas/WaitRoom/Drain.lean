import Celeritas.Queue
import Celeritas.Pool
import Celeritas.Lib.Run

/-!
# The wait room's drain loop

    while (queue_trypop(wait_q, &conn) != 1) { … pool_add(&pool, conn) … }

The loop, its local variable `conn`, and what other threads may do to the wait queue
between two calls of `queue_trypop`: workers push, and `server_shutdown` sets the queue's
flag. The queue, the pool and the variable start out arbitrary.

`queue_trypop` has a third result. On an empty queue whose flag is set it returns `-1`,
which is not `1`, and leaves `conn` as it was: the body runs with whatever an earlier pop
put there, and the next call returns `-1` again. So the loop is right exactly while no
call meets an empty queue with the flag set (`Drain.exact_iff_notClosed`).

The lists after the blank line are not in the source.
-/

set_option autoImplicit false

namespace Celeritas

open Lib

structure Drain where
  queue : WorkQueue Conn
  pool : ConnPool
  conn : Conn
  ended : Bool

  /-- returned by `queue_trypop` with result `0` -/
  popped : List Conn
  /-- passed to `pool_add`, to `io_watcher_add` and to `close_connection` -/
  added : List Conn
  registered : List Conn
  closed : List Conn

def Drain.init (queue : WorkQueue Conn) (pool : ConnPool) (conn : Conn) : Drain :=
  ⟨queue, pool, conn, false, [], [], [], []⟩

/-- The loop body; `ok` is whether `io_watcher_add` succeeds. -/
def Drain.body (d : Drain) (ok : Bool) : Drain :=
  match poolAdd d.pool d.conn with
  | some pool' =>
    if ok then
      { d with
        pool := pool', added := d.added ++ [d.conn], registered := d.registered ++ [d.conn] }
    else
      { d with
        pool := ((poolRemoveByFd pool' d.conn.fd).map Prod.snd).getD pool'
        added := d.added ++ [d.conn]
        registered := d.registered ++ [d.conn]
        closed := d.closed ++ [d.conn] }
  | none => { d with added := d.added ++ [d.conn], closed := d.closed ++ [d.conn] }

/-- One test of the loop condition, and the body where it holds. -/
def Drain.iterate (d : Drain) (ok : Bool) : Drain :=
  match queueTrypop d.queue with
  | .item c q => ({ d with queue := q, conn := c, popped := d.popped ++ [c] } : Drain).body ok
  | .empty => { d with ended := true }
  | .closed => d.body ok

inductive DrainAction
  | iterate (ok : Bool)
  /-- a worker pushes a keep-alive connection -/
  | push (c : Conn)
  /-- `server_shutdown` sets `wait_queue->shutting_down` -/
  | shutdown

def Drain.step (d : Drain) : DrainAction → Option Drain
  | .iterate ok => if d.ended then none else some (d.iterate ok)
  | .push c => (queuePush d.queue c).map fun q => { d with queue := q }
  | .shutdown => some { d with queue := d.queue.shutdown }

/-- What the loop is for: the body has seen the popped connections, once each and in
order, and has done nothing to any other. -/
structure Drain.Exact (d : Drain) : Prop where
  added : d.added = d.popped
  registered : d.registered.Sublist d.popped
  closed : d.closed.Sublist d.popped

/-- An iteration ends the loop if and only if it finds the queue empty. -/
def Drain.EndsWhenEmpty (d : Drain) (a : DrainAction) (d' : Drain) : Prop :=
  ∀ ok, a = .iterate ok → (d'.ended = true ↔ d.queue.contents = [])

/-- No iteration finds the queue empty and its flag set. -/
def Drain.NotClosed (d : Drain) (a : DrainAction) (_ : Drain) : Prop :=
  ∀ ok, a = .iterate ok → d.queue.contents = [] → d.queue.shuttingDown = false

/-! ## The body -/

/-- The body passes `conn` to `pool_add`, and to the other two at most once. -/
theorem Drain.body_spec (d : Drain) (ok : Bool) :
    (d.body ok).added = d.added ++ [d.conn] ∧ (d.body ok).popped = d.popped ∧
      (d.body ok).ended = d.ended ∧
      ((d.body ok).registered = d.registered ∨
        (d.body ok).registered = d.registered ++ [d.conn]) ∧
      ((d.body ok).closed = d.closed ∨ (d.body ok).closed = d.closed ++ [d.conn]) := by
  unfold Drain.body
  cases poolAdd d.pool d.conn <;> cases ok <;> simp

/-- The three ways an iteration goes. -/
theorem Drain.iterate_cases (d : Drain) (ok : Bool) :
    (∃ c q, d.queue.contents = c :: q.contents ∧ d.iterate ok =
      ({ d with queue := q, conn := c, popped := d.popped ++ [c] } : Drain).body ok) ∨
    (d.queue.contents = [] ∧ d.queue.shuttingDown = false ∧
      d.iterate ok = { d with ended := true }) ∨
    (d.queue.contents = [] ∧ d.queue.shuttingDown = true ∧ d.iterate ok = d.body ok) := by
  unfold Drain.iterate
  rw [queueTrypop_eq_queuePop]
  cases h : queuePop d.queue with
  | item c q => exact .inl ⟨c, q, (queuePop_item h).1, rfl⟩
  | empty =>
    obtain ⟨hc, hs⟩ := queuePop_eq_empty.mp h
    exact .inr (.inl ⟨d.queue.count_eq_zero_iff.mp hc, hs, rfl⟩)
  | closed =>
    obtain ⟨hc, hs⟩ := queuePop_eq_closed.mp h
    exact .inr (.inr ⟨d.queue.count_eq_zero_iff.mp hc, hs, rfl⟩)

/-- The body after a pop keeps the loop exact. -/
theorem Drain.Exact.body {d : Drain} (h : d.Exact) (q : WorkQueue Conn) (c : Conn) (ok : Bool) :
    (({ d with queue := q, conn := c, popped := d.popped ++ [c] } : Drain).body ok).Exact := by
  obtain ⟨ha, hp, _, hr, hc⟩ := Drain.body_spec
    ({ d with queue := q, conn := c, popped := d.popped ++ [c] } : Drain) ok
  refine ⟨by rw [ha, hp, h.added], ?_, ?_⟩
  · rw [hp]
    rcases hr with hr | hr <;> rw [hr]
    · exact h.registered.trans (List.sublist_append_left _ _)
    · exact h.registered.append (List.Sublist.refl _)
  · rw [hp]
    rcases hc with hc | hc <;> rw [hc]
    · exact h.closed.trans (List.sublist_append_left _ _)
    · exact h.closed.append (List.Sublist.refl _)

/-! ## The loop -/

/-- **One step**: from an exact state, the next one is exact if and only if the step is no
iteration on an empty queue with the flag set. -/
theorem Drain.exact_step_iff {d d' : Drain} {a : DrainAction} (h : d.Exact)
    (hs : d.step a = some d') : d'.Exact ↔ d.NotClosed a d' := by
  cases a with
  | push c =>
    obtain ⟨q, _, rfl⟩ := Option.map_eq_some_iff.mp hs
    exact iff_of_true ⟨h.added, h.registered, h.closed⟩ fun ok ho => absurd ho (by simp)
  | shutdown =>
    obtain rfl := Option.some.inj hs
    exact iff_of_true ⟨h.added, h.registered, h.closed⟩ fun ok ho => absurd ho (by simp)
  | iterate ok =>
    have hd' : d' = d.iterate ok := by
      simp only [Drain.step] at hs
      split at hs
      · exact absurd hs (by simp)
      · exact (Option.some.inj hs).symm
    subst hd'
    rcases d.iterate_cases ok with ⟨c, q, hq, he⟩ | ⟨hq, hf, he⟩ | ⟨hq, hf, he⟩ <;> rw [he]
    · exact iff_of_true (h.body q c ok) fun _ _ hemp => absurd (hq.symm.trans hemp) (by simp)
    · exact iff_of_true ⟨h.added, h.registered, h.closed⟩ fun _ _ _ => hf
    · -- the stale pass: one connection more was added than was popped
      obtain ⟨ha, hp, _⟩ := d.body_spec ok
      refine iff_of_false (fun hex => ?_) fun hn => ?_
      · have hlen := congrArg List.length hex.added
        rw [ha, hp, h.added, List.length_append, List.length_singleton] at hlen
        omega
      · exact absurd (hf.symm.trans (hn ok rfl hq)) (by simp)

/-- While no iteration meets an empty queue with the flag set, the loop ends at the first
empty one. -/
theorem Drain.endsWhenEmpty_of_notClosed {d d' : Drain} {a : DrainAction}
    (hs : d.step a = some d') (hn : d.NotClosed a d') : d.EndsWhenEmpty a d' := by
  rintro ok rfl
  simp only [Drain.step] at hs
  split at hs
  · exact absurd hs (by simp)
  · rename_i hne
    obtain rfl := Option.some.inj hs
    rcases d.iterate_cases ok with ⟨c, q, hq, he⟩ | ⟨hq, hf, he⟩ | ⟨hq, hf, he⟩ <;> rw [he]
    · obtain ⟨_, _, hend, _⟩ := Drain.body_spec
        ({ d with queue := q, conn := c, popped := d.popped ++ [c] } : Drain) ok
      rw [hend]
      exact iff_of_false (by simpa using hne) (by simp [hq])
    · exact iff_of_true rfl hq
    · exact absurd (hf.symm.trans (hn ok rfl hq)) (by simp)

/-- **The drain loop is exact if and only if no `queue_trypop` of it finds the wait queue
empty with its flag set**: for every content of the queue, the pool and the local variable,
and whatever workers and `server_shutdown` do between the iterations. -/
theorem Drain.exact_iff_notClosed (queue : WorkQueue Conn) (pool : ConnPool) (conn : Conn)
    (as : List DrainAction) :
    (Along Drain.step Drain.Exact (Drain.init queue pool conn) as ∧
      EachStep Drain.step Drain.EndsWhenEmpty (Drain.init queue pool conn) as) ↔
    EachStep Drain.step Drain.NotClosed (Drain.init queue pool conn) as := by
  have h₀ : (Drain.init queue pool conn).Exact := ⟨rfl, List.Sublist.refl _, List.Sublist.refl _⟩
  have hJ : ∀ (d : Drain) a d', True → d.step a = some d' → True := fun _ _ _ _ _ => trivial
  have hiff : Along Drain.step Drain.Exact (Drain.init queue pool conn) as ↔
      EachStep Drain.step Drain.NotClosed (Drain.init queue pool conn) as :=
    along_iff_eachStep hJ (fun _ _ _ _ hd hs => Drain.exact_step_iff hd hs) as trivial h₀
  constructor
  · rintro ⟨h, _⟩
    exact hiff.mp h
  · intro h
    have hJ' : ∀ (d : Drain) a d', True → d.step a = some d' → d.NotClosed a d' → True :=
      fun _ _ _ _ _ _ => trivial
    exact ⟨hiff.mpr h,
      EachStep.imp hJ' (fun _ _ _ _ hs hn => Drain.endsWhenEmpty_of_notClosed hs hn) as trivial h⟩

/-! ## The run that breaks it

One connection queued, room for one in the pool. Between two iterations the flag is set. -/

def queuedOne : WorkQueue Conn :=
  (queueInit (fun _ => {}) 1 Nat.one_pos).enqueue { id := 1, fd := 7 } Nat.zero_ne_one

/-- The connection that was popped is added a second time, and, the pool being full of it,
closed while the pool still holds it; the loop goes on. -/
theorem Drain.readds_after_shutdown : ∃ d : Drain,
    run Drain.step (Drain.init queuedOne (poolInit 1) {})
        [.iterate true, .shutdown, .iterate true] = some d ∧
      d.popped = [{ id := 1, fd := 7 }] ∧
      d.added = [{ id := 1, fd := 7 }, { id := 1, fd := 7 }] ∧
      d.pool.items = [{ id := 1, fd := 7 }] ∧ d.closed = [{ id := 1, fd := 7 }] ∧
      d.queue.contents = [] ∧ d.ended = false ∧ ¬ d.Exact :=
  ⟨_, rfl, rfl, rfl, rfl, rfl, rfl, rfl, fun h => absurd h.added (by decide)⟩

end Celeritas
