import Celeritas.Lib.Ring

/-!
# The bounded connection queue

`work_queue_t` and the critical sections of its four operations, each from a test of its
`while` condition to the wait or the `unlock`. The structure carries the facts that keep
its index arithmetic right, so every queue that can be written down has them, and the
meaning of an operation is one equation about `contents`.
-/

set_option autoImplicit false

namespace Celeritas

open Lib

/-- `work_queue_t`, without its locks. -/
structure WorkQueue (α : Type*) where
  buf : ℕ → α
  capacity : ℕ
  head : ℕ
  tail : ℕ
  count : ℕ
  shuttingDown : Bool
  head_lt : head < capacity
  count_le : count ≤ capacity
  tail_eq : tail = (head + count) % capacity

/-- The two queues of the server. -/
inductive QueueName
  | work
  | wait
  deriving DecidableEq

variable {α : Type*}

/-- `queue_init`; `mem` is what `malloc` returned. -/
def queueInit (mem : ℕ → α) (capacity : ℕ) (h : 0 < capacity) : WorkQueue α where
  buf := mem
  capacity := capacity
  head := 0
  tail := 0
  count := 0
  shuttingDown := false
  head_lt := h
  count_le := Nat.zero_le _
  tail_eq := by simp

namespace WorkQueue

theorem capacity_pos (q : WorkQueue α) : 0 < q.capacity := Nat.zero_lt_of_lt q.head_lt

/-- The connections queued, the oldest first. -/
def contents (q : WorkQueue α) : List α := window q.buf q.capacity q.head q.count

@[simp] theorem length_contents (q : WorkQueue α) : q.contents.length = q.count := by
  simp [contents]

/-- Store at the tail and advance it. -/
def enqueue (q : WorkQueue α) (c : α) (h : q.count ≠ q.capacity) : WorkQueue α where
  buf := Function.update q.buf q.tail c
  capacity := q.capacity
  head := q.head
  tail := (q.tail + 1) % q.capacity
  count := q.count + 1
  shuttingDown := q.shuttingDown
  head_lt := q.head_lt
  count_le := Nat.lt_of_le_of_ne q.count_le h
  tail_eq := by rw [q.tail_eq, Nat.mod_add_mod, Nat.add_assoc]

/-- Advance the head. -/
def dequeue (q : WorkQueue α) (h : q.count ≠ 0) : WorkQueue α where
  buf := q.buf
  capacity := q.capacity
  head := (q.head + 1) % q.capacity
  tail := q.tail
  count := q.count - 1
  shuttingDown := q.shuttingDown
  head_lt := Nat.mod_lt _ q.capacity_pos
  count_le := (Nat.sub_le _ _).trans q.count_le
  tail_eq := by
    rw [q.tail_eq, Nat.mod_add_mod]
    congr 1
    omega

/-- `q->shutting_down = 1` -/
def shutdown (q : WorkQueue α) : WorkQueue α := { q with shuttingDown := true }

end WorkQueue

open WorkQueue

/-- `queue_push`: `none` is a wait on `not_full`. -/
def queuePush (q : WorkQueue α) (c : α) : Option (WorkQueue α) :=
  if h : q.count = q.capacity then none else some (q.enqueue c h)

/-- What a pop comes back with; `empty` is the wait of `queue_pop` and the result `1` of
`queue_trypop`, `closed` is their `-1`. -/
inductive PopResult (α : Type*)
  | item (c : α) (q : WorkQueue α)
  | empty
  | closed

/-- `queue_pop` -/
def queuePop (q : WorkQueue α) : PopResult α :=
  if h : q.count = 0 then (if q.shuttingDown then .closed else .empty)
  else .item (q.buf q.head) (q.dequeue h)

/-- `queue_trypop`. It differs from `queue_pop` in what it does with `empty`: it returns. -/
def queueTrypop (q : WorkQueue α) : PopResult α :=
  if h : q.count = 0 then (if q.shuttingDown then .closed else .empty)
  else .item (q.buf q.head) (q.dequeue h)

/-! ## What the operations do to the contents -/

namespace WorkQueue

theorem contents_enqueue (q : WorkQueue α) (c : α) (h : q.count ≠ q.capacity) :
    (q.enqueue c h).contents = q.contents ++ [c] := by
  have := window_push q.buf q.head c (Nat.lt_of_le_of_ne q.count_le h)
  simp only [contents, enqueue, q.tail_eq, this]

theorem contents_dequeue (q : WorkQueue α) (h : q.count ≠ 0) :
    q.contents = q.buf q.head :: (q.dequeue h).contents := by
  obtain ⟨n, hn⟩ := Nat.exists_eq_succ_of_ne_zero h
  simp only [contents, dequeue, hn, Nat.succ_eq_add_one, window_succ_head,
    Nat.mod_eq_of_lt q.head_lt, Nat.add_sub_cancel]

@[simp] theorem contents_shutdown (q : WorkQueue α) : q.shutdown.contents = q.contents := rfl

theorem count_eq_zero_iff (q : WorkQueue α) : q.count = 0 ↔ q.contents = [] := by
  rw [← List.length_eq_zero_iff, length_contents]

end WorkQueue

@[simp] theorem contents_queueInit (mem : ℕ → α) (capacity : ℕ) (h : 0 < capacity) :
    (queueInit mem capacity h).contents = [] := rfl

/-- A push that does not wait appends, and keeps the rest of the structure. -/
theorem queuePush_some {q q' : WorkQueue α} {c : α} (h : queuePush q c = some q') :
    q.count < q.capacity ∧ q'.contents = q.contents ++ [c] ∧ q'.count = q.count + 1 ∧
      q'.capacity = q.capacity ∧ q'.shuttingDown = q.shuttingDown := by
  unfold queuePush at h
  split at h
  · exact absurd h (by simp)
  · rename_i hne
    rw [Option.some.injEq] at h
    subst h
    exact ⟨Nat.lt_of_le_of_ne q.count_le hne, q.contents_enqueue c hne, rfl, rfl, rfl⟩

theorem queuePush_eq_none {q : WorkQueue α} {c : α} :
    queuePush q c = none ↔ q.count = q.capacity := by
  unfold queuePush
  split <;> simp_all

theorem queueTrypop_eq_queuePop (q : WorkQueue α) : queueTrypop q = queuePop q := rfl

/-- A pop that succeeds takes the oldest entry, and keeps the rest of the structure. -/
theorem queuePop_item {q q' : WorkQueue α} {c : α} (h : queuePop q = .item c q') :
    q.contents = c :: q'.contents ∧ q.count = q'.count + 1 ∧ q'.capacity = q.capacity ∧
      q'.shuttingDown = q.shuttingDown := by
  unfold queuePop at h
  split at h
  · split at h <;> exact absurd h (by simp)
  · rename_i hne
    obtain ⟨rfl, rfl⟩ := PopResult.item.inj h
    exact ⟨q.contents_dequeue hne, (Nat.succ_pred_eq_of_ne_zero hne).symm, rfl, rfl⟩

theorem queuePop_eq_empty {q : WorkQueue α} :
    queuePop q = .empty ↔ q.count = 0 ∧ q.shuttingDown = false := by
  unfold queuePop
  split
  · cases hs : q.shuttingDown <;> simp_all
  · simp_all

theorem queuePop_eq_closed {q : WorkQueue α} :
    queuePop q = .closed ↔ q.count = 0 ∧ q.shuttingDown = true := by
  unfold queuePop
  split
  · cases hs : q.shuttingDown <;> simp_all
  · simp_all

end Celeritas
