import Celeritas.CLib.Str
import Celeritas.Lib.Run
import Celeritas.Pool
import Mathlib.Order.Bounds.Basic

/-!
# Sweeping the pool

`pool_sweep_expired` walks the array of the pool while it takes elements out of it, the last
one moving into the place of the one taken. What it does is said once, for the loop from any
index (`sweepFrom_spec`): it closes what has expired and keeps the rest, whatever the order
of the array.

Two things are built on that. The four calls on the pool keep a bag with a bound
(`pool_faithful`); and the time `pool_nearest_timeout_ms` gives the watcher to wait is the
time until the sweep has something to do (`timeout_agrees_with_sweep`).
-/

set_option autoImplicit false

namespace Celeritas

open CLib Lib

/-! ## The sweep -/

/-- What `pool_sweep_expired` calls. -/
inductive SweepCall
  | ioWatcherRemove (fd : ℕ)
  | closeConnection (conn : Conn)
  deriving DecidableEq

/-- `pool->items[i].keepalive_deadline <= now` -/
def Expired (now : ℤ) (c : Conn) : Prop := c.keepaliveDeadline ≤ now

instance (now : ℤ) : DecidablePred (Expired now) :=
  fun c => inferInstanceAs (Decidable (c.keepaliveDeadline ≤ now))

/-- The loop of `pool_sweep_expired`, from index `i` on: its calls in order, and the pool
after it. -/
def sweepFrom (now : ℤ) (p : ConnPool) (i : ℕ) : List SweepCall × ConnPool :=
  if h : i < p.items.length then
    if Expired now p.items[i] then
      -- the last element is at `i` now, so `i` stays
      let rest := sweepFrom now (p.swapOut i) i
      (.ioWatcherRemove p.items[i].fd :: .closeConnection p.items[i] :: rest.1, rest.2)
    else sweepFrom now p (i + 1)
  else ([], p)
termination_by p.items.length - i
decreasing_by
  · simp only [ConnPool.swapOut, length_swapRemove]
    omega
  · omega

/-- `pool_sweep_expired` -/
def poolSweepExpired (now : ℤ) (p : ConnPool) : List SweepCall × ConnPool := sweepFrom now p 0

/-- Each is unregistered, and then closed. -/
def sweepCalls (closed : List Conn) : List SweepCall :=
  closed.flatMap fun c => [.ioWatcherRemove c.fd, .closeConnection c]

/-- What a sweep is for: to close what has expired and to keep what has not. -/
structure Sweeps (now : ℤ) (p : ConnPool) (calls : List SweepCall) (p' : ConnPool)
    (closed : List Conn) : Prop where
  calls : calls = sweepCalls closed
  closed : (closed : Multiset Conn) = (p.items : Multiset Conn).filter (Expired now)
  kept : (p'.items : Multiset Conn) = (p.items : Multiset Conn).filter fun c => ¬ Expired now c
  capacity : p'.capacity = p.capacity

/-- **The loop sweeps**, provided that what it has passed has not expired. -/
theorem sweepFrom_spec (now : ℤ) (p : ConnPool) (i : ℕ)
    (hpassed : ∀ c ∈ p.items.take i, ¬ Expired now c) :
    ∃ closed, Sweeps now p (sweepFrom now p i).1 (sweepFrom now p i).2 closed := by
  induction p, i using sweepFrom.induct now with
  | case1 p i hi hexp ih =>
    -- the last element moves to `i`; what has been passed stays where it is
    rw [sweepFrom, dif_pos hi, if_pos hexp]
    have htake : (p.swapOut i).items.take i = p.items.take i := take_swapRemove hi
    obtain ⟨closed, hsweeps⟩ := ih (htake ▸ hpassed)
    have hitems := ConnPool.coe_swapOut hi
    refine ⟨p.items[i] :: closed, ?_, ?_, ?_, hsweeps.capacity⟩
    · rw [sweepCalls, List.flatMap_cons, ← sweepCalls, ← hsweeps.calls]
      rfl
    · rw [hitems, Multiset.filter_cons_of_pos _ hexp, ← hsweeps.closed]
      rfl
    · rw [hitems, Multiset.filter_cons_of_neg (p := fun c => ¬ Expired now c) _
        (not_not_intro hexp)]
      exact hsweeps.kept
  | case2 p i hi hlive ih =>
    rw [sweepFrom, dif_pos hi, if_neg hlive]
    apply ih
    intro c hc
    rw [List.take_succ_eq_append_getElem hi, List.mem_append, List.mem_singleton] at hc
    rcases hc with hc | rfl
    · exact hpassed c hc
    · exact hlive
  | case3 p i hi =>
    -- all of the array has been passed
    rw [sweepFrom, dif_neg hi]
    rw [List.take_of_length_le (Nat.not_lt.mp hi)] at hpassed
    refine ⟨[], rfl, ?_, ?_, rfl⟩
    · exact (Multiset.filter_eq_nil.mpr hpassed).symm
    · exact (Multiset.filter_eq_self.mpr hpassed).symm

/-- **`pool_sweep_expired` sweeps.** -/
theorem poolSweepExpired_spec (now : ℤ) (p : ConnPool) :
    ∃ closed, Sweeps now p (poolSweepExpired now p).1 (poolSweepExpired now p).2 closed :=
  sweepFrom_spec now p 0 fun _ hc => absurd hc List.not_mem_nil

def SweepCall.closed? : SweepCall → Option Conn
  | .closeConnection c => some c
  | .ioWatcherRemove _ => none

theorem closed_sweepCalls (closed : List Conn) :
    (sweepCalls closed).filterMap SweepCall.closed? = closed := by
  induction closed with
  | nil => rfl
  | cons c closed ih =>
    rw [sweepCalls, List.flatMap_cons, ← sweepCalls, List.filterMap_append, ih]
    rfl

/-! ## The calls on the pool -/

inductive PoolCall
  | add (c : Conn)
  | removeAt (i : ℕ)
  | removeByFd (fd : ℕ)
  | sweepExpired (now : ℤ)

/-- What comes of a call: `0` or `-1` from `pool_add`, the element that `pool_remove_at` has
dropped if it has, `1` with the copy in `out_conn` or `0` from `pool_remove_by_fd`, and what
`pool_sweep_expired` has called. -/
inductive PoolAnswer
  | added (c : Conn)
  | full
  | removed (c : Option Conn)
  | found (c : Conn)
  | notFound
  | swept (calls : List SweepCall)
  deriving DecidableEq

namespace ConnPool

def exec (p : ConnPool) : PoolCall → PoolAnswer × ConnPool
  | .add c =>
    match poolAdd p c with
    | some p' => (.added c, p')
    | none => (.full, p)
  | .removeAt i => (.removed p.items[i]?, poolRemoveAt p i)
  | .removeByFd fd =>
    match poolRemoveByFd p fd with
    | some (c, p') => (.found c, p')
    | none => (.notFound, p)
  | .sweepExpired now =>
    let r := poolSweepExpired now p
    (.swept r.1, r.2)

/-- A call is answered, whatever the pool is. -/
def step : ConnPool × List PoolAnswer → PoolCall → Option (ConnPool × List PoolAnswer) :=
  answering fun p call => some (p.exec call)

/-- What each call is for. -/
def Serves (p : ConnPool) (r : PoolAnswer) (p' : ConnPool) : PoolCall → Prop
  | .add c =>
    (p.count = p.capacity ∧ r = .full ∧ p' = p) ∨
      (p.count < p.capacity ∧ r = .added c ∧
        (p'.items : Multiset Conn) = c ::ₘ (p.items : Multiset Conn))
  | .removeAt i =>
    (p.items[i]? = none ∧ r = .removed none ∧ p' = p) ∨
      ∃ c, p.items[i]? = some c ∧ r = .removed (some c) ∧
        (p.items : Multiset Conn) = c ::ₘ (p'.items : Multiset Conn)
  | .removeByFd fd =>
    ((∀ c ∈ p.items, c.fd ≠ fd) ∧ r = .notFound ∧ p' = p) ∨
      ∃ c, c.fd = fd ∧ r = .found c ∧
        (p.items : Multiset Conn) = c ::ₘ (p'.items : Multiset Conn)
  | .sweepExpired now => ∃ calls closed, r = .swept calls ∧ Sweeps now p calls p' closed

theorem serves_add (p : ConnPool) (c : Conn) :
    p.Serves (p.exec (.add c)).1 (p.exec (.add c)).2 (.add c) := by
  simp only [exec]
  cases h : poolAdd p c with
  | none => exact .inl ⟨Nat.le_antisymm p.length_le (poolAdd_eq_none.mp h), rfl, rfl⟩
  | some p' =>
    obtain ⟨hitems, -, hlt⟩ := poolAdd_some h
    refine .inr ⟨hlt, rfl, ?_⟩
    rw [hitems, Multiset.cons_coe, Multiset.coe_eq_coe]
    exact List.perm_append_singleton c p.items

theorem serves_removeAt (p : ConnPool) (i : ℕ) :
    p.Serves (p.exec (.removeAt i)).1 (p.exec (.removeAt i)).2 (.removeAt i) := by
  simp only [exec, poolRemoveAt]
  split
  · rename_i hge
    have hnone : p.items[i]? = none := List.getElem?_eq_none_iff.mpr hge
    exact .inl ⟨hnone, by rw [hnone], rfl⟩
  · rename_i hlt
    have hi : i < p.items.length := Nat.not_le.mp hlt
    have hsome : p.items[i]? = some p.items[i] := List.getElem?_eq_getElem hi
    exact .inr ⟨p.items[i], hsome, by rw [hsome], coe_swapOut hi⟩

theorem serves_removeByFd (p : ConnPool) (fd : ℕ) :
    p.Serves (p.exec (.removeByFd fd)).1 (p.exec (.removeByFd fd)).2 (.removeByFd fd) := by
  simp only [exec]
  cases h : poolRemoveByFd p fd with
  | none => exact .inl ⟨poolRemoveByFd_eq_none.mp h, rfl, rfl⟩
  | some cp =>
    obtain ⟨hfd, hitems, -⟩ := poolRemoveByFd_some h
    exact .inr ⟨cp.1, hfd, rfl, hitems⟩

theorem serves (p : ConnPool) (call : PoolCall) :
    p.Serves (p.exec call).1 (p.exec call).2 call := by
  cases call with
  | add c => exact serves_add p c
  | removeAt i => exact serves_removeAt p i
  | removeByFd fd => exact serves_removeByFd p fd
  | sweepExpired now =>
    obtain ⟨closed, hsweeps⟩ := poolSweepExpired_spec now p
    exact ⟨_, closed, rfl, hsweeps⟩

theorem capacity_exec (p : ConnPool) (call : PoolCall) :
    (p.exec call).2.capacity = p.capacity := by
  cases call with
  | add c =>
    simp only [exec]
    cases h : poolAdd p c with
    | none => rfl
    | some p' => exact (poolAdd_some h).2.1
  | removeAt i =>
    simp only [exec, poolRemoveAt]
    split <;> rfl
  | removeByFd fd =>
    simp only [exec]
    cases h : poolRemoveByFd p fd with
    | none => rfl
    | some cp => exact (poolRemoveByFd_some h).2.2
  | sweepExpired now =>
    obtain ⟨closed, hsweeps⟩ := poolSweepExpired_spec now p
    exact hsweeps.capacity

/-! ## The pool as a bag -/

/-- The bag it stands for. -/
def toBag (p : ConnPool) : BoundedBag Conn := ⟨p.items, p.capacity⟩

/-- What an answer says of the bag. -/
def bagAnswer : PoolAnswer → BoundedBag.Answer Conn
  | .added c => .put c
  | .full => .full
  | .removed c => .taken c.toList
  | .found c => .taken {c}
  | .notFound => .taken 0
  | .swept calls => .taken (calls.filterMap SweepCall.closed?)

/-- **A call that does what it is for is one on the bag.** -/
theorem Serves.gives {p p' : ConnPool} {r : PoolAnswer} {call : PoolCall}
    (h : p.Serves r p' call) (hcap : p'.capacity = p.capacity) :
    p.toBag.Gives (bagAnswer r) p'.toBag := by
  cases call with
  | add c =>
    rcases h with ⟨hfull, rfl, rfl⟩ | ⟨hlt, rfl, hitems⟩
    · exact ⟨hfull, rfl⟩
    · refine ⟨hlt, ?_⟩
      simp only [toBag, hitems, hcap]
  | removeAt i =>
    rcases h with ⟨-, rfl, rfl⟩ | ⟨c, -, rfl, hitems⟩
    · exact ⟨(zero_add _).symm, rfl⟩
    · exact ⟨hitems, hcap⟩
  | removeByFd fd =>
    rcases h with ⟨-, rfl, rfl⟩ | ⟨c, -, rfl, hitems⟩
    · exact ⟨(zero_add _).symm, rfl⟩
    · exact ⟨hitems, hcap⟩
  | sweepExpired now =>
    obtain ⟨calls, closed, rfl, hsweeps⟩ := h
    refine ⟨?_, hcap⟩
    simp only [toBag, hsweeps.calls, closed_sweepCalls, hsweeps.closed, hsweeps.kept]
    exact (Multiset.filter_add_not _ _).symm

/-- The books are in balance, from call to call. -/
theorem accounts_step {s s' : ConnPool × List PoolAnswer} {call : PoolCall}
    (h : s.1.toBag.Accounts (s.2.map bagAnswer)) (hs : step s call = some s') :
    s'.1.toBag.Accounts (s'.2.map bagAnswer) := by
  obtain rfl := Option.some.inj hs
  rw [List.map_append]
  exact h.gives ((serves s.1 call).gives (capacity_exec s.1 call))

/-- **The pool is a bag with a bound.** In every run there is never more in it than its
capacity, it holds what was added to it and has not left it, and each call has done what it
is for. -/
theorem pool_faithful (maxConns : ℕ) (calls : List PoolCall) :
    Along step (fun s => s.1.count ≤ maxConns ∧ s.1.capacity = maxConns ∧
        s.1.toBag.Accounts (s.2.map bagAnswer)) (poolInit maxConns, []) calls ∧
      EachStep step (fun s call s' => ∃ r, s'.2 = s.2 ++ [r] ∧ s.1.Serves r s'.1 call)
        (poolInit maxConns, []) calls := by
  constructor
  · apply along_of_inv
    · rintro s call s' ⟨-, hcap, hacc⟩ hs
      have hcap' : s'.1.capacity = maxConns := by
        obtain rfl := Option.some.inj hs
        exact (capacity_exec s.1 call).trans hcap
      exact ⟨hcap' ▸ s'.1.length_le, hcap', accounts_step hacc hs⟩
    · exact ⟨Nat.zero_le _, rfl, BoundedBag.accounts_nil maxConns⟩
  · apply EachStep.imp (fun _ _ _ _ _ _ => trivial) _ calls trivial (EachStep.trivially calls _)
    intro s call s' _ hs _
    obtain rfl := Option.some.inj hs
    exact ⟨_, rfl, serves s.1 call⟩

end ConnPool

/-! ## How long to wait -/

/-- `min_expiry` after the loop of `pool_nearest_timeout_ms`, which starts from the first
element. -/
def minExpiry (first : Conn) (rest : List Conn) : ℤ :=
  rest.foldl (fun least c => if c.keepaliveDeadline < least then c.keepaliveDeadline else least)
    first.keepaliveDeadline

/-- `pool_nearest_timeout_ms`; `none` is an overflow of its `int`. -/
def poolNearestTimeoutMs (now : ℤ) (p : ConnPool) : Option ℤ :=
  match p.items with
  | [] => some (-1)
  | first :: rest =>
    let diff := intOfTime (minExpiry first rest - now)
    if diff ≤ 0 then some 0 else intMul diff 1000

/-- A sweep closes something. -/
def Closes (now : ℤ) (p : ConnPool) : Prop :=
  ∃ c, SweepCall.closeConnection c ∈ (poolSweepExpired now p).1

theorem closes_iff {now : ℤ} {p : ConnPool} : Closes now p ↔ ∃ c ∈ p.items, Expired now c := by
  obtain ⟨closed, hsweeps⟩ := poolSweepExpired_spec now p
  have hcalls : ∀ c, SweepCall.closeConnection c ∈ (poolSweepExpired now p).1 ↔ c ∈ closed := by
    intro c
    rw [hsweeps.calls, sweepCalls, List.mem_flatMap]
    simp
  have hclosed : ∀ c, c ∈ closed ↔ c ∈ p.items ∧ Expired now c := by
    intro c
    rw [← Multiset.mem_coe, hsweeps.closed, Multiset.mem_filter, Multiset.mem_coe]
  simp only [Closes, hcalls, hclosed]

theorem minExpiry_snoc (first c : Conn) (rest : List Conn) :
    minExpiry first (rest ++ [c]) = min c.keepaliveDeadline (minExpiry first rest) := by
  rw [minExpiry, List.foldl_append, ← minExpiry, min_def]
  simp only [List.foldl_cons, List.foldl_nil]
  split_ifs <;> omega

/-- The loop finds the nearest deadline. -/
theorem minExpiry_isLeast (first : Conn) (rest : List Conn) :
    IsLeast {t | ∃ c ∈ first :: rest, c.keepaliveDeadline = t} (minExpiry first rest) := by
  induction rest using List.reverseRecOn with
  | nil =>
    have hset : {t | ∃ c ∈ [first], c.keepaliveDeadline = t} = {first.keepaliveDeadline} := by
      ext t
      simp [eq_comm]
    exact hset ▸ isLeast_singleton
  | append_singleton rest c ih =>
    have hset : {t | ∃ d ∈ first :: (rest ++ [c]), d.keepaliveDeadline = t} =
        insert c.keepaliveDeadline {t | ∃ d ∈ first :: rest, d.keepaliveDeadline = t} := by
      ext t
      simp only [← List.cons_append, List.mem_append, List.mem_singleton, Set.mem_ofPred_eq,
        Set.mem_insert_iff, or_and_right, exists_or, exists_eq_left]
      rw [or_comm, eq_comm]
    rw [hset, minExpiry_snoc]
    exact ih.insert c.keepaliveDeadline

/-- A sweep closes something from the nearest deadline on. -/
theorem closes_iff_minExpiry_le {now : ℤ} {p : ConnPool} {first : Conn} {rest : List Conn}
    (h : p.items = first :: rest) : Closes now p ↔ minExpiry first rest ≤ now := by
  obtain ⟨⟨c, hc, hmin⟩, hle⟩ := minExpiry_isLeast first rest
  rw [closes_iff, h]
  constructor
  · rintro ⟨d, hd, hexp⟩
    exact (hle ⟨d, hd, rfl⟩).trans hexp
  · intro hnow
    exact ⟨c, hc, hmin.trans_le hnow⟩

/-- Deadlines as `worker_thread` sets them: 16 bits of seconds ahead at most, and never so long
ago that the difference is no `int`. -/
def DeadlinesNear (now : ℤ) (p : ConnPool) : Prop :=
  ∀ c ∈ p.items, now - 2 ^ 31 < c.keepaliveDeadline ∧ c.keepaliveDeadline ≤ now + 65535

/-- Where the deadlines are near, nothing is cut off and nothing overflows. -/
theorem poolNearestTimeoutMs_cons {now : ℤ} {p : ConnPool} {first : Conn} {rest : List Conn}
    (hp : p.items = first :: rest) (h : DeadlinesNear now p) :
    poolNearestTimeoutMs now p =
      some (if minExpiry first rest ≤ now then 0 else (minExpiry first rest - now) * 1000) := by
  obtain ⟨⟨c, hc, hmin⟩, -⟩ := minExpiry_isLeast first rest
  obtain ⟨hlo, hhi⟩ := h c (hp ▸ hc)
  rw [hmin] at hlo hhi
  have hdiff : intOfTime (minExpiry first rest - now) = minExpiry first rest - now :=
    Int.bmod_eq_of_le (by omega) (by omega)
  simp only [poolNearestTimeoutMs, hp, hdiff]
  split_ifs with hle hnow hnow
  · rfl
  · omega
  · omega
  · exact if_pos ⟨by omega, by omega⟩

/-- **The wait ends when the sweep has something to do**: at once if it has now, and
otherwise at the first second at which it has; and there is no end of it only where the pool
is empty. -/
theorem timeout_agrees_with_sweep (now : ℤ) (p : ConnPool) (h : DeadlinesNear now p) :
    ∃ d, poolNearestTimeoutMs now p = some d ∧
      (d = -1 ↔ p.count = 0) ∧
      (d = 0 ↔ Closes now p) ∧
      (d ≠ -1 → d ≠ 0 → 0 < d ∧ Closes (now + d / 1000) p ∧
        ∀ t < now + d / 1000, ¬ Closes t p) := by
  cases hp : p.items with
  | nil =>
    have hnone : ¬ Closes now p := by simp [closes_iff, hp]
    refine ⟨-1, ?_, ?_, ?_, fun hd => absurd rfl hd⟩
    · simp only [poolNearestTimeoutMs, hp]
    · exact iff_of_true rfl (List.length_eq_zero_iff.mpr hp)
    · exact iff_of_false (by decide) hnone
  | cons first rest =>
    have hcount : p.count ≠ 0 := by simp [ConnPool.count, hp]
    rw [poolNearestTimeoutMs_cons hp h]
    simp only [closes_iff_minExpiry_le hp]
    refine ⟨_, rfl, ?_⟩
    split_ifs with hnow
    · exact ⟨iff_of_false (by decide) hcount, iff_of_true rfl hnow, fun _ hd => absurd rfl hd⟩
    · refine ⟨iff_of_false (by omega) hcount, iff_of_false (by omega) hnow, fun _ _ => ?_⟩
      rw [Int.mul_ediv_cancel _ (by decide)]
      exact ⟨by omega, by omega, fun t ht => by omega⟩

/-- A pool in which one connection is due in two seconds and the other in five. -/
def twoDeadlines : ConnPool where
  items := [{ fd := 4, keepaliveDeadline := 105 }, { fd := 5, keepaliveDeadline := 102 }]
  capacity := 2
  length_le := Nat.le_refl 2

theorem timeout_agrees_with_sweep_twoDeadlines :
    poolNearestTimeoutMs 100 twoDeadlines = some 2000 ∧
      ∃ d, poolNearestTimeoutMs 100 twoDeadlines = some d ∧
        (d = -1 ↔ twoDeadlines.count = 0) ∧
        (d = 0 ↔ Closes 100 twoDeadlines) ∧
        (d ≠ -1 → d ≠ 0 → 0 < d ∧ Closes (100 + d / 1000) twoDeadlines ∧
          ∀ t < 100 + d / 1000, ¬ Closes t twoDeadlines) :=
  ⟨by decide, timeout_agrees_with_sweep 100 twoDeadlines (by
    unfold DeadlinesNear
    decide)⟩

end Celeritas
