import Celeritas.Lib.Bag
import Celeritas.Lib.Run
import Celeritas.Queue
import Mathlib.Data.Fintype.Basic

/-!
# No wake-up of the connection queue is lost

The threads that call `queue_push`, `queue_pop` and `queue_trypop` on one queue, with the
mutex and the two condition variables. A critical section, from the test of the `while`
condition to the wait or the `unlock`, is one step of the thread that owns the mutex; nobody
else looks at the queue meanwhile. Everything outside of it can happen in any order: calls,
the acquisition of the mutex, by a newcomer before a thread that was woken, and wake-ups for
no reason.

A signal brings one sleeper on its way, and a newcomer may take what the sleeper was woken
for. What makes up for it is that a woken thread looks again: the elements there are never
outnumber the consumers on their way, as long as one sleeps (`Covered`).
-/

set_option autoImplicit false

namespace Celeritas

open Lib

/-! ## Threads -/

/-- A call of the queue; `shutdown` is the locked part of `server_shutdown`. -/
inductive QueueOp (α : Type*)
  | push (c : α)
  | pop
  | trypop
  | shutdown

/-- The two condition variables. -/
inductive QueueCond
  | notEmpty
  | notFull
  deriving DecidableEq

inductive QueuePc (α : Type*)
  | idle
  /-- in `pthread_mutex_lock` -/
  | locking (op : QueueOp α)
  /-- in `pthread_cond_wait` -/
  | asleep (op : QueueOp α)
  /-- out of the wait, by a signal or without one, and waiting for the mutex -/
  | woken (op : QueueOp α) (signalled : Bool)
  /-- owns the mutex; before the test of the condition -/
  | holding (op : QueueOp α) (signalled : Bool)

/-- The condition variable the call waits on, if it does wait. -/
def QueueOp.cond {α : Type*} : QueueOp α → Option QueueCond
  | .push _ => some .notFull
  | .pop => some .notEmpty
  | _ => none

/-- The thread sleeps on `c`, and has not been signalled. -/
def QueuePc.sleepsOn {α : Type*} (c : QueueCond) : QueuePc α → Bool
  | .asleep op => op.cond == some c
  | _ => false

/-- The thread slept on `c`, has been signalled and has not checked its condition again. -/
def QueuePc.signalledOn {α : Type*} (c : QueueCond) : QueuePc α → Bool
  | .woken op signalled => signalled && op.cond == some c
  | .holding op signalled => signalled && op.cond == some c
  | _ => false

inductive QueueAction (ι α : Type*)
  | call (i : ι) (op : QueueOp α)
  /-- the mutex goes to thread `i` -/
  | acquire (i : ι)
  /-- thread `i` wakes up for no reason -/
  | rouse (i : ι)
  /-- the critical section of thread `i`; `sleeper` is whom its signal wakes, if anybody
  sleeps -/
  | proceed (i : ι) (sleeper : Option ι)

/-- What there is for those who wait: elements for the consumers, room for the producers. -/
def WorkQueue.supply {α : Type*} (q : WorkQueue α) : QueueCond → ℕ
  | .notEmpty => q.count
  | .notFull => q.capacity - q.count

structure QueueSys (ι α : Type*) where
  queue : WorkQueue α
  locked : Bool
  pc : ι → QueuePc α

namespace QueueSys

variable {ι α : Type*} [Fintype ι] [DecidableEq ι]

def init (mem : ℕ → α) (capacity : ℕ) (h : 0 < capacity) : QueueSys ι α where
  queue := queueInit mem capacity h
  locked := false
  pc _ := .idle

def setPc (s : QueueSys ι α) (i : ι) (pc : QueuePc α) : QueueSys ι α :=
  { s with pc := Function.update s.pc i pc }

/-- `pthread_cond_signal` -/
def signal (s : QueueSys ι α) (c : QueueCond) : Option ι → Option (QueueSys ι α)
  | some j =>
    match s.pc j with
    | .asleep op => if op.cond = some c then some (s.setPc j (.woken op true)) else none
    | _ => none
  | none => if ∃ j, (s.pc j).sleepsOn c = true then none else some s

/-- `pthread_cond_broadcast` -/
def broadcast (s : QueueSys ι α) (c : QueueCond) : QueueSys ι α :=
  { s with
    pc := fun j => match s.pc j with
      | .asleep op => if op.cond = some c then .woken op true else .asleep op
      | pc => pc }

/-- The end of a critical section that leaves the queue as `q`: `pthread_mutex_unlock`. -/
def leave (s : QueueSys ι α) (i : ι) (q : WorkQueue α) : QueueSys ι α :=
  ({ s with queue := q, locked := false } : QueueSys ι α).setPc i .idle

/-- `pthread_cond_wait` -/
def sleep (s : QueueSys ι α) (i : ι) (op : QueueOp α) : QueueSys ι α :=
  ({ s with locked := false } : QueueSys ι α).setPc i (.asleep op)

/-- A critical section. -/
def critical (s : QueueSys ι α) (i : ι) (sleeper : Option ι) : QueueOp α → Option (QueueSys ι α)
  | .push c =>
    match queuePush s.queue c with
    | some q => (s.leave i q).signal .notEmpty sleeper
    | none => some (s.sleep i (.push c))
  | .pop =>
    match queuePop s.queue with
    | .item _ q => (s.leave i q).signal .notFull sleeper
    | .empty => some (s.sleep i .pop)
    | .closed => some (s.leave i s.queue)
  | .trypop =>
    match queueTrypop s.queue with
    | .item _ q => (s.leave i q).signal .notFull sleeper
    | .empty => some (s.leave i s.queue)
    | .closed => some (s.leave i s.queue)
  | .shutdown => some ((s.leave i s.queue.shutdown).broadcast .notEmpty)

def step (s : QueueSys ι α) : QueueAction ι α → Option (QueueSys ι α)
  | .call i op =>
    match s.pc i with
    | .idle => some (s.setPc i (.locking op))
    | _ => none
  | .acquire i =>
    if s.locked then none
    else
      match s.pc i with
      | .locking op => some (({ s with locked := true } : QueueSys ι α).setPc i (.holding op false))
      | .woken op signalled =>
        some (({ s with locked := true } : QueueSys ι α).setPc i (.holding op signalled))
      | _ => none
  | .rouse i =>
    match s.pc i with
    | .asleep op => some (s.setPc i (.woken op false))
    | _ => none
  | .proceed i sleeper =>
    match s.pc i with
    | .holding op _ => s.critical i sleeper op
    | _ => none

/-- How many threads have been signalled on `c` and have not checked their condition. -/
def signalled (s : QueueSys ι α) (c : QueueCond) : ℕ :=
  (Finset.univ.filter fun i => (s.pc i).signalledOn c = true).card

/-! ## The counting invariant -/

/-- If somebody sleeps on `c`, then there is a thread on its way for all that there is, but
for `n`. -/
def Covered (n : ℕ) (c : QueueCond) (s : QueueSys ι α) : Prop :=
  (∃ i, (s.pc i).sleepsOn c = true) → s.queue.supply c ≤ s.signalled c + n

theorem signalled_setPc (s : QueueSys ι α) (i : ι) (pc : QueuePc α) (c : QueueCond) :
    (s.setPc i pc).signalled c + ((s.pc i).signalledOn c).toNat =
      s.signalled c + (pc.signalledOn c).toNat :=
  card_filter_update (QueuePc.signalledOn c) s.pc i pc

omit [Fintype ι] in
/-- Where nobody goes to sleep, who sleeps has slept before. -/
theorem sleeper_of_setPc {s : QueueSys ι α} {i : ι} {pc : QueuePc α} {c : QueueCond}
    (hpc : pc.sleepsOn c = false) (h : ∃ j, ((s.setPc i pc).pc j).sleepsOn c = true) :
    ∃ j, (s.pc j).sleepsOn c = true := by
  obtain ⟨j, hj⟩ := h
  by_cases hji : j = i
  · subst hji
    simp only [setPc, Function.update_self] at hj
    rw [hpc] at hj
    exact absurd hj Bool.false_ne_true
  · simp only [setPc, Function.update_of_ne hji] at hj
    exact ⟨j, hj⟩

/-- One thread goes on, without going to sleep on `c`. -/
theorem Covered.setPc {s t : QueueSys ι α} {n m : ℕ} {c : QueueCond} (h : Covered n c s) {i : ι}
    {pc : QueuePc α} (ht : t.pc = s.pc) (hpc : pc.sleepsOn c = false)
    (hsupply : t.queue.supply c + ((s.pc i).signalledOn c).toNat + n ≤
      s.queue.supply c + (pc.signalledOn c).toNat + m) : Covered m c (t.setPc i pc) := by
  intro hsleeper
  have hsleeper' : ∃ j, (s.pc j).sleepsOn c = true := by
    have := sleeper_of_setPc hpc hsleeper
    rwa [ht] at this
  have hle := h hsleeper'
  have hcount := signalled_setPc t i pc c
  have hsame : t.signalled c = s.signalled c := by rw [signalled, signalled, ht]
  rw [ht, hsame] at hcount
  change t.queue.supply c ≤ _
  omega

omit [DecidableEq ι] in
theorem Covered.of_supply {s : QueueSys ι α} {n : ℕ} {c : QueueCond} (h : s.queue.supply c = 0) :
    Covered n c s := by
  intro _
  rw [h]
  exact Nat.zero_le _

/-! ## Signals -/

theorem signal_cases {s s' : QueueSys ι α} {c : QueueCond} {sleeper : Option ι}
    (hs : s.signal c sleeper = some s') :
    ((¬ ∃ j, (s.pc j).sleepsOn c = true) ∧ s' = s) ∨
      ∃ j op, s.pc j = .asleep op ∧ op.cond = some c ∧ s' = s.setPc j (.woken op true) := by
  cases sleeper with
  | none =>
    simp only [signal] at hs
    split_ifs at hs with hno
    exact Or.inl ⟨hno, (Option.some.inj hs).symm⟩
  | some j =>
    simp only [signal] at hs
    cases hpc : s.pc j with
    | asleep op =>
      rw [hpc] at hs
      simp only at hs
      split_ifs at hs with hcond
      exact Or.inr ⟨j, op, hpc, hcond, (Option.some.inj hs).symm⟩
    | _ =>
      rw [hpc] at hs
      cases hs

/-- The signal makes up for one more. -/
theorem Covered.signal {s s' : QueueSys ι α} {c : QueueCond} (h : Covered 1 c s)
    {sleeper : Option ι} (hs : s.signal c sleeper = some s') : Covered 0 c s' := by
  rcases signal_cases hs with ⟨hno, rfl⟩ | ⟨j, op, hpc, hcond, rfl⟩
  · intro hsleeper
    exact absurd hsleeper hno
  · apply h.setPc rfl rfl
    simp [hpc, QueuePc.signalledOn, hcond]

/-- No signal does harm. -/
theorem Covered.signal_any {s s' : QueueSys ι α} {c d : QueueCond} (h : Covered 0 c s)
    {sleeper : Option ι} (hs : s.signal d sleeper = some s') : Covered 0 c s' := by
  rcases signal_cases hs with ⟨-, rfl⟩ | ⟨j, op, hpc, hcond, rfl⟩
  · exact h
  · apply h.setPc rfl rfl
    simp [hpc, QueuePc.signalledOn]

omit [DecidableEq ι] in
/-- Nor does a broadcast. -/
theorem Covered.broadcast {s : QueueSys ι α} {c : QueueCond} (h : Covered 0 c s) (d : QueueCond) :
    Covered 0 c (s.broadcast d) := by
  have hsleeps : ∀ j, ((s.broadcast d).pc j).sleepsOn c = true → (s.pc j).sleepsOn c = true := by
    intro j hj
    simp only [QueueSys.broadcast] at hj
    cases hpc : s.pc j with
    | asleep op =>
      rw [hpc] at hj
      simp only at hj
      split_ifs at hj
      · exact absurd hj Bool.false_ne_true
      · exact hj
    | _ =>
      rw [hpc] at hj
      exact hj
  have hsignalled : s.signalled c ≤ (s.broadcast d).signalled c := by
    apply Finset.card_le_card
    intro j hj
    rw [Finset.mem_filter] at hj ⊢
    refine ⟨hj.1, ?_⟩
    have hsig := hj.2
    simp only [QueueSys.broadcast]
    cases hpc : s.pc j with
    | asleep op =>
      rw [hpc] at hsig
      exact absurd hsig Bool.false_ne_true
    | _ =>
      rw [hpc] at hsig
      exact hsig
  rintro ⟨j, hj⟩
  exact (h ⟨j, hsleeps j hj⟩).trans (Nat.add_le_add_right hsignalled 0)

omit [Fintype ι] [DecidableEq ι] in
theorem broadcast_wakes (s : QueueSys ι α) (c : QueueCond) (j : ι) :
    ((s.broadcast c).pc j).sleepsOn c = false := by
  simp only [QueueSys.broadcast]
  cases s.pc j with
  | asleep op =>
    simp only
    split_ifs with hcond
    · rfl
    · simpa [QueuePc.sleepsOn] using hcond
  | _ => rfl

/-! ## Critical sections -/

/-- The end of a critical section, for those who do not wait in it. -/
theorem Covered.leave {s : QueueSys ι α} {c : QueueCond} (h : Covered 0 c s) {i : ι} {m : ℕ}
    {q : WorkQueue α}
    (hq : q.supply c + ((s.pc i).signalledOn c).toNat ≤ s.queue.supply c + m) :
    Covered m c (s.leave i q) := by
  refine h.setPc rfl rfl ?_
  simpa [QueuePc.signalledOn] using hq

omit [Fintype ι] [DecidableEq ι] in
theorem signalledOn_of_cond {s : QueueSys ι α} {i : ι} {op : QueueOp α} {b : Bool}
    (hi : s.pc i = .holding op b) {c : QueueCond} (hop : op.cond ≠ some c) :
    ((s.pc i).signalledOn c).toNat = 0 := by
  simp [hi, QueuePc.signalledOn, hop]

/-- Taking an element makes room for one producer more. -/
theorem Covered.leave_item {s : QueueSys ι α} (h : ∀ c, Covered 0 c s) {i : ι} {op : QueueOp α}
    {b : Bool} (hi : s.pc i = .holding op b) (hop : op.cond ≠ some .notFull) {x : α}
    {q : WorkQueue α} (hpop : queuePop s.queue = .item x q) :
    Covered 0 .notEmpty (s.leave i q) ∧ Covered 1 .notFull (s.leave i q) := by
  obtain ⟨-, hcount, hcapacity, -⟩ := queuePop_item hpop
  constructor
  · have hone := Bool.toNat_le ((s.pc i).signalledOn .notEmpty)
    apply (h .notEmpty).leave
    simp only [WorkQueue.supply]
    omega
  · have hzero := signalledOn_of_cond hi hop
    apply (h .notFull).leave
    simp only [WorkQueue.supply]
    omega

/-- Storing one is for one consumer more. -/
theorem Covered.leave_push {s : QueueSys ι α} (h : ∀ c, Covered 0 c s) {i : ι} {x : α} {b : Bool}
    (hi : s.pc i = .holding (.push x) b) {q : WorkQueue α} (hpush : queuePush s.queue x = some q) :
    Covered 1 .notEmpty (s.leave i q) ∧ Covered 0 .notFull (s.leave i q) := by
  obtain ⟨hlt, -, hcount, hcapacity, -⟩ := queuePush_some hpush
  constructor
  · have hzero := signalledOn_of_cond hi (c := .notEmpty) (by simp [QueueOp.cond])
    apply (h .notEmpty).leave
    simp only [WorkQueue.supply]
    omega
  · have hone := Bool.toNat_le ((s.pc i).signalledOn .notFull)
    apply (h .notFull).leave
    simp only [WorkQueue.supply]
    omega

/-- A thread goes to sleep where there is nothing for it. -/
theorem Covered.sleep {s : QueueSys ι α} (h : ∀ c, Covered 0 c s) {i : ι} {op : QueueOp α}
    {b : Bool} (hi : s.pc i = .holding op b) {d : QueueCond} (hop : op.cond = some d)
    (hd : s.queue.supply d = 0) (c : QueueCond) : Covered 0 c (s.sleep i op) := by
  by_cases hcd : c = d
  · subst hcd
    exact Covered.of_supply hd
  · have hne : op.cond ≠ some c := by
      rw [hop]
      exact fun he => hcd (Option.some.inj he).symm
    refine (h c).setPc rfl ?_ ?_
    · simpa [QueuePc.sleepsOn] using hne
    · rw [signalledOn_of_cond hi hne]
      simp [QueuePc.signalledOn]

/-! ## Every step -/

/-- Nobody sleeps through a signal, and nobody through the end of the server. -/
structure Attended (s : QueueSys ι α) : Prop where
  covered : ∀ c, Covered 0 c s
  awake : s.queue.shuttingDown = true → ¬ ∃ i, (s.pc i).sleepsOn .notEmpty = true

/-- One thread goes on outside of a critical section. -/
theorem Attended.setPc {s t : QueueSys ι α} (h : s.Attended) {i : ι} {pc : QueuePc α}
    (ht : t.pc = s.pc) (hq : t.queue = s.queue) (hpc : ∀ c, pc.sleepsOn c = false)
    (hsig : ∀ c, (s.pc i).signalledOn c = pc.signalledOn c) : (t.setPc i pc).Attended where
  covered := by
    intro c
    apply (h.covered c).setPc ht (hpc c)
    rw [hq, hsig]
  awake := by
    intro hflag hsleeper
    have hs := sleeper_of_setPc (hpc .notEmpty) hsleeper
    rw [ht] at hs
    exact h.awake (hq ▸ hflag) hs

/-- A critical section that ends with a signal, and is covered but for one on the condition
variable it signals. -/
theorem Attended.leave_signal {s s' : QueueSys ι α} (h : s.Attended) {i : ι} {q : WorkQueue α}
    (hflag : q.shuttingDown = s.queue.shuttingDown) {c : QueueCond}
    (hc : Covered 1 c (s.leave i q)) (hother : ∀ d, d ≠ c → Covered 0 d (s.leave i q))
    {sleeper : Option ι} (hs : (s.leave i q).signal c sleeper = some s') : s'.Attended where
  covered := by
    intro d
    by_cases hdc : d = c
    · subst hdc
      exact hc.signal hs
    · exact (hother d hdc).signal_any hs
  awake := by
    have hleave : q.shuttingDown = true →
        ¬ ∃ j, ((s.leave i q).pc j).sleepsOn .notEmpty = true := by
      intro hq hsleeper
      rw [hflag] at hq
      exact h.awake hq (sleeper_of_setPc (c := .notEmpty) rfl hsleeper)
    rcases signal_cases hs with ⟨-, rfl⟩ | ⟨j, op, -, -, rfl⟩
    · exact hleave
    · intro hq hsleeper
      exact hleave hq (sleeper_of_setPc (c := .notEmpty) rfl hsleeper)

/-- A critical section that ends with nothing done. -/
theorem Attended.leave {s : QueueSys ι α} (h : s.Attended) {i : ι}
    (hsig : ∀ c, s.queue.supply c = 0 ∨ ((s.pc i).signalledOn c).toNat = 0) :
    (s.leave i s.queue).Attended where
  covered := by
    intro c
    rcases hsig c with hsupply | hzero
    · exact Covered.of_supply hsupply
    · apply (h.covered c).leave
      rw [hzero]
  awake := by
    intro hflag hsleeper
    exact h.awake hflag (sleeper_of_setPc (c := .notEmpty) rfl hsleeper)

theorem Attended.critical {s s' : QueueSys ι α} (h : s.Attended) {i : ι} {sleeper : Option ι}
    {op : QueueOp α} {b : Bool} (hi : s.pc i = .holding op b)
    (hs : s.critical i sleeper op = some s') : s'.Attended := by
  cases op with
  | push x =>
    simp only [QueueSys.critical] at hs
    cases hpush : queuePush s.queue x with
    | some q =>
      rw [hpush] at hs
      obtain ⟨hempty, hfull⟩ := Covered.leave_push h.covered hi hpush
      refine h.leave_signal (queuePush_some hpush).2.2.2.2 hempty (fun d hd => ?_) hs
      cases d with
      | notEmpty => exact absurd rfl hd
      | notFull => exact hfull
    | none =>
      rw [hpush] at hs
      cases hs
      have hroom : s.queue.supply .notFull = 0 := by
        rw [WorkQueue.supply, queuePush_eq_none.mp hpush, Nat.sub_self]
      refine ⟨Covered.sleep h.covered hi rfl hroom, fun hflag hsleeper => ?_⟩
      exact h.awake hflag (sleeper_of_setPc (c := .notEmpty) rfl hsleeper)
  | pop =>
    simp only [QueueSys.critical] at hs
    cases hpop : queuePop s.queue with
    | item x q =>
      rw [hpop] at hs
      obtain ⟨hempty, hfull⟩ := Covered.leave_item h.covered hi (by simp [QueueOp.cond]) hpop
      refine h.leave_signal (queuePop_item hpop).2.2.2 hfull (fun d hd => ?_) hs
      cases d with
      | notEmpty => exact hempty
      | notFull => exact absurd rfl hd
    | empty =>
      rw [hpop] at hs
      cases hs
      obtain ⟨hcount, hflag⟩ := queuePop_eq_empty.mp hpop
      refine ⟨Covered.sleep h.covered hi rfl hcount, fun hset => ?_⟩
      rw [show (s.sleep i QueueOp.pop).queue.shuttingDown = false from hflag] at hset
      exact absurd hset Bool.false_ne_true
    | closed =>
      rw [hpop] at hs
      cases hs
      apply h.leave
      intro c
      cases c with
      | notEmpty => exact Or.inl (queuePop_eq_closed.mp hpop).1
      | notFull => exact Or.inr (signalledOn_of_cond hi (by simp [QueueOp.cond]))
  | trypop =>
    simp only [QueueSys.critical, queueTrypop_eq_queuePop] at hs
    have hnone : ∀ c, ((s.pc i).signalledOn c).toNat = 0 := by
      intro c
      exact signalledOn_of_cond hi (by simp [QueueOp.cond])
    cases hpop : queuePop s.queue with
    | item x q =>
      rw [hpop] at hs
      obtain ⟨hempty, hfull⟩ := Covered.leave_item h.covered hi (by simp [QueueOp.cond]) hpop
      refine h.leave_signal (queuePop_item hpop).2.2.2 hfull (fun d hd => ?_) hs
      cases d with
      | notEmpty => exact hempty
      | notFull => exact absurd rfl hd
    | empty =>
      rw [hpop] at hs
      cases hs
      exact h.leave fun c => Or.inr (hnone c)
    | closed =>
      rw [hpop] at hs
      cases hs
      exact h.leave fun c => Or.inr (hnone c)
  | shutdown =>
    cases hs
    refine ⟨fun c => ?_, fun _ hsleeper => ?_⟩
    · refine Covered.broadcast ((h.covered c).leave ?_) .notEmpty
      rw [signalledOn_of_cond hi (by simp [QueueOp.cond])]
      cases c <;> exact Nat.le_refl _
    · obtain ⟨j, hj⟩ := hsleeper
      rw [broadcast_wakes] at hj
      exact Bool.false_ne_true hj

theorem Attended.step {s s' : QueueSys ι α} (h : s.Attended) {a : QueueAction ι α}
    (hs : s.step a = some s') : s'.Attended := by
  cases a with
  | call i op =>
    simp only [QueueSys.step] at hs
    cases hpc : s.pc i <;> rw [hpc] at hs <;> cases hs
    exact h.setPc rfl rfl (fun _ => rfl) fun c => by rw [hpc]; rfl
  | acquire i =>
    simp only [QueueSys.step] at hs
    split_ifs at hs
    cases hpc : s.pc i <;> rw [hpc] at hs <;> cases hs
    · exact h.setPc rfl rfl (fun _ => rfl) fun c => by rw [hpc]; rfl
    · exact h.setPc rfl rfl (fun _ => rfl) fun c => by rw [hpc]; rfl
  | rouse i =>
    simp only [QueueSys.step] at hs
    cases hpc : s.pc i <;> rw [hpc] at hs <;> cases hs
    exact h.setPc rfl rfl (fun _ => rfl) fun c => by rw [hpc]; rfl
  | proceed i sleeper =>
    simp only [QueueSys.step] at hs
    cases hpc : s.pc i <;> rw [hpc] at hs <;> try cases hs
    exact h.critical hpc hs

omit [DecidableEq ι] in
theorem attended_init (mem : ℕ → α) (capacity : ℕ) (h : 0 < capacity) :
    (init mem capacity h : QueueSys ι α).Attended where
  covered := by
    rintro c ⟨i, hi⟩
    exact absurd hi Bool.false_ne_true
  awake := by
    rintro - ⟨i, hi⟩
    exact absurd hi Bool.false_ne_true

/-- While the server runs, the elements in the queue do not outnumber the consumers that have
been signalled, if a consumer sleeps, nor the free places the producers, if one of them
does; and once `server_shutdown` has been there no consumer sleeps. -/
structure NoLostWakeup (s : QueueSys ι α) : Prop where
  consumers : s.queue.shuttingDown = false → (∃ i, (s.pc i).sleepsOn .notEmpty = true) →
    s.queue.count ≤ s.signalled .notEmpty
  producers : s.queue.shuttingDown = false → (∃ i, (s.pc i).sleepsOn .notFull = true) →
    s.queue.capacity - s.queue.count ≤ s.signalled .notFull
  shutdown : s.queue.shuttingDown = true → ¬ ∃ i, (s.pc i).sleepsOn .notEmpty = true

/-- **No wake-up is lost**, whatever the threads call and in whatever order they run. -/
theorem no_lost_wakeup (mem : ℕ → α) (capacity : ℕ) (h : 0 < capacity)
    (as : List (QueueAction ι α)) :
    Along step NoLostWakeup (init mem capacity h : QueueSys ι α) as := by
  have hrun : Along step Attended (init mem capacity h : QueueSys ι α) as :=
    along_of_inv (fun _ _ _ hI hs => hI.step hs) as (attended_init mem capacity h)
  refine hrun.mono fun s hs => ⟨fun _ => ?_, fun _ => ?_, hs.awake⟩
  · exact hs.covered .notEmpty
  · exact hs.covered .notFull

/-- A consumer goes to sleep, a second one takes what it is woken for, and it sleeps again. -/
def bargingRun : List (QueueAction (Fin 4) ℕ) :=
  [.call 0 .pop, .acquire 0, .proceed 0 none, .call 1 (.push 7), .call 2 .pop, .acquire 1,
    .proceed 1 (some 0), .acquire 2, .proceed 2 none, .acquire 0, .proceed 0 none]

theorem no_lost_wakeup_barging :
    (run step (init (fun _ => 0) 1 Nat.one_pos) bargingRun).isSome = true ∧
      Along step NoLostWakeup (init (fun _ => 0) 1 Nat.one_pos) bargingRun :=
  ⟨by decide, no_lost_wakeup (fun _ => 0) 1 Nat.one_pos bargingRun⟩

end QueueSys

end Celeritas
