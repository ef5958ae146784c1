import Celeritas.Lib.Fifo
import Celeritas.Lib.Run
import Celeritas.Queue

/-!
# The connection queue is a queue

`work_queue_t` with its ring of slots against the list it stands for. Every critical section
is a call of the abstract queue (`exec_toFifo`), answer by answer, so what is known of that
one's answers is known of this one's, in whatever order the threads get the mutex.
-/

set_option autoImplicit false

namespace Celeritas

open Lib

variable {α : Type*}

namespace WorkQueue

/-- One critical section; `none` is a wait. `close` is the assignment of
`server_shutdown`, and `closed` the result `-1` of both pops. -/
def exec (q : WorkQueue α) : Fifo.Call α → Option (Fifo.Answer α × WorkQueue α)
  | .push c => (queuePush q c).map fun q' => (.pushed c, q')
  | .pop =>
    match queuePop q with
    | .item c q' => some (.item c, q')
    | .empty => none
    | .closed => some (.closed, q)
  | .trypop =>
    match queueTrypop q with
    | .item c q' => some (.item c, q')
    | .empty => some (.empty, q)
    | .closed => some (.closed, q)
  | .close => some (.closing, q.shutdown)

/-- The queue it stands for. -/
def toFifo (q : WorkQueue α) : Fifo α := ⟨q.contents, q.capacity, q.shuttingDown⟩

theorem toFifo_of_item {q q' : WorkQueue α} {c : α} (h : queuePop q = .item c q') :
    q.toFifo.items = c :: q'.contents ∧ q'.toFifo = { q.toFifo with items := q'.contents } := by
  obtain ⟨hcontents, -, hcapacity, hflag⟩ := queuePop_item h
  refine ⟨hcontents, ?_⟩
  simp only [toFifo, hcapacity, hflag]

theorem toFifo_of_empty {q : WorkQueue α} (h : queuePop q = .empty) :
    q.toFifo.items = [] ∧ q.toFifo.closed = false := by
  obtain ⟨hcount, hflag⟩ := queuePop_eq_empty.mp h
  exact ⟨(count_eq_zero_iff q).mp hcount, hflag⟩

theorem toFifo_of_closed {q : WorkQueue α} (h : queuePop q = .closed) :
    q.toFifo.items = [] ∧ q.toFifo.closed = true := by
  obtain ⟨hcount, hflag⟩ := queuePop_eq_closed.mp h
  exact ⟨(count_eq_zero_iff q).mp hcount, hflag⟩

/-- **A critical section does what the abstract queue does**, and waits when that one does. -/
theorem exec_toFifo (q : WorkQueue α) (call : Fifo.Call α) :
    (q.exec call).map (Prod.map id toFifo) = q.toFifo.exec call := by
  cases call with
  | push c =>
    simp only [exec, Fifo.exec, toFifo, length_contents]
    cases h : queuePush q c with
    | none => rw [if_pos (queuePush_eq_none.mp h)]; rfl
    | some q' =>
      obtain ⟨hlt, hcontents, -, hcapacity, hflag⟩ := queuePush_some h
      rw [if_neg hlt.ne]
      simp [toFifo, hcontents, hcapacity, hflag]
  | pop =>
    simp only [exec, Fifo.exec]
    cases h : queuePop q with
    | item c q' =>
      obtain ⟨hitems, hfifo⟩ := toFifo_of_item h
      simp only [hitems, Option.map_some, Prod.map, id, hfifo]
    | empty =>
      obtain ⟨hitems, hflag⟩ := toFifo_of_empty h
      simp [hitems, hflag]
    | closed =>
      obtain ⟨hitems, hflag⟩ := toFifo_of_closed h
      simp [hitems, hflag]
  | trypop =>
    simp only [exec, Fifo.exec, queueTrypop_eq_queuePop]
    cases h : queuePop q with
    | item c q' =>
      obtain ⟨hitems, hfifo⟩ := toFifo_of_item h
      simp only [hitems, Option.map_some, Prod.map, id, hfifo]
    | empty =>
      obtain ⟨hitems, hflag⟩ := toFifo_of_empty h
      simp [hitems, hflag]
    | closed =>
      obtain ⟨hitems, hflag⟩ := toFifo_of_closed h
      simp [hitems, hflag]
  | close => rfl

/-! ## Whole runs -/

/-- The indices are where they should be, the values popped and the slots from the head on
are the values pushed, in order; both pops hand out the oldest element whether the queue is
shutting down or not, and a `-1` came only after that flag was set and when everything pushed
until then had been handed out. -/
structure Faithful (q : WorkQueue α) (answers : List (Fifo.Answer α)) : Prop where
  count_le : q.count ≤ q.capacity
  head_lt : q.head < q.capacity
  tail_lt : q.tail < q.capacity
  tail_eq : q.tail = (q.head + q.count) % q.capacity
  order : Fifo.left answers ++
    (List.range q.count).map (fun i => q.buf ((q.head + i) % q.capacity)) = Fifo.entered answers
  oldest : ∀ c rest, q.contents = c :: rest → ∃ q', queuePop q = .item c q' ∧
    queueTrypop q = .item c q' ∧ q'.contents = rest
  drained : ∀ before after, answers = before ++ Fifo.Answer.closed :: after →
    Fifo.left before = Fifo.entered before ∧ Fifo.Answer.closing ∈ before

theorem faithful_of_follows {q : WorkQueue α} {answers : List (Fifo.Answer α)}
    (h : q.toFifo.Follows answers) : q.Faithful answers where
  count_le := q.count_le
  head_lt := q.head_lt
  tail_lt := by
    rw [q.tail_eq]
    exact Nat.mod_lt _ q.capacity_pos
  tail_eq := q.tail_eq
  order := h.items
  oldest := by
    intro c rest hc
    have hne : q.count ≠ 0 := by
      rw [Ne, count_eq_zero_iff, hc]
      exact List.cons_ne_nil _ _
    rw [q.contents_dequeue hne] at hc
    obtain ⟨rfl, rfl⟩ := List.cons.inj hc
    exact ⟨q.dequeue hne, dif_neg hne, dif_neg hne, rfl⟩
  drained := h.drained

/-- One critical section after another keeps the abstract queue's promise. -/
theorem follows_answering {s s' : WorkQueue α × List (Fifo.Answer α)} {call : Fifo.Call α}
    (h : s.1.toFifo.Follows s.2) (hs : answering exec s call = some s') :
    s'.1.toFifo.Follows s'.2 := by
  obtain ⟨⟨r, q'⟩, he, rfl⟩ := Option.map_eq_some_iff.mp hs
  have hf : s.1.toFifo.exec call = some (r, q'.toFifo) := by
    rw [← exec_toFifo, he]
    rfl
  exact h.exec hf

/-- **The bounded queue is a FIFO**, in every order of its critical sections. -/
theorem faithful (mem : ℕ → α) (capacity : ℕ) (h : 0 < capacity) (calls : List (Fifo.Call α)) :
    Along (answering exec) (fun s => s.1.Faithful s.2) (queueInit mem capacity h, []) calls := by
  have hinit : (queueInit mem capacity h).toFifo.Follows ([] : List (Fifo.Answer α)) :=
    Fifo.follows_nil capacity
  have hfollows : Along (answering exec) (fun s => s.1.toFifo.Follows s.2)
      (queueInit mem capacity h, []) calls :=
    along_of_inv (fun _ _ _ hI hs => follows_answering hI hs) calls hinit
  exact hfollows.mono fun _ => faithful_of_follows

/-- A queue of one slot, round and round. -/
theorem faithful_oneSlot :
    Along (answering exec) (fun s => s.1.Faithful s.2) (queueInit (fun _ => 0) 1 Nat.one_pos, [])
      [.push 3, .pop, .push 4, .close, .trypop, .pop] :=
  faithful (fun _ => 0) 1 Nat.one_pos [.push 3, .pop, .push 4, .close, .trypop, .pop]

end WorkQueue

end Celeritas
