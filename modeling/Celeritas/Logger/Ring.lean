import Celeritas.Logger.Entry
import Celeritas.Lib.Ring

/-!
# The log ring and its critical sections

`log_ring_t` with the parts of `log_write` and of `logger_thread` that run with its mutex
held. Each is a function from the logger to the logger and to the way the section ended;
a section that ends by waiting has released the mutex, and its thread comes back to the
`while` test at some later state.

A sleeping `log_write` comes back with the `next_tail` it had computed *before* it slept.
That is why `waitNotFull` takes it as an argument, and why the spec of a store
(`contents_store`) has to ask that it still is the slot after the tail.
-/

set_option autoImplicit false

namespace Celeritas

open Lib

def BATCH_SIZE : ℕ := 32

/-- `log_ring_t`, without its locks. -/
structure LogRing where
  tail : ℕ
  head : ℕ
  entries : ℕ → LogEntry

/-- `logger_t`: the fields the ring's users read. -/
structure Logger where
  ringSize : ℕ
  ring : LogRing
  shutdown : Bool

/-- `logger_init` -/
def Logger.init (ringSize : ℕ) : Logger := ⟨ringSize, ⟨0, 0, fun _ => .zeroed⟩, false⟩

/-- How a pass through the critical section of `log_write` ends. -/
inductive WriteExit
  /-- the entry is in the ring; `log_write` returns -/
  | stored
  /-- the ring was full for an access message; `log_write` returns -/
  | dropped
  /-- shut down while waiting; `log_write` returns -/
  | bailed
  /-- asleep on `not_full`, the mutex released -/
  | waiting (nextTail : ℕ)
  deriving DecidableEq

/-- `entries[tail] = entry; tail = next_tail` -/
def Logger.store (L : Logger) (e : LogEntry) (nextTail : ℕ) : Logger :=
  { L with ring := { L.ring with
      entries := Function.update L.ring.entries L.ring.tail e
      tail := nextTail } }

/-- The `while` on `not_full` from one test of its condition to the next wait or to the end
of `log_write`. -/
def Logger.waitNotFull (L : Logger) (e : LogEntry) (nextTail : ℕ) : WriteExit × Logger :=
  if nextTail = L.ring.head ∧ L.shutdown = false then (.waiting nextTail, L)
  else if L.shutdown then (.bailed, L)
  else (.stored, L.store e nextTail)

/-- `x & (ring_size - 1)`. The subtraction is on `int`, so with no slots at all the mask is `-1`
and keeps every bit. -/
def Logger.masked (L : Logger) (x : ℕ) : ℕ :=
  if L.ringSize = 0 then x else x &&& (L.ringSize - 1)

/-- The slot after the tail, as `log_write` computes it. -/
def Logger.nextTail (L : Logger) : ℕ := L.masked (L.ring.tail + 1)

/-- `log_write`, from taking the mutex to releasing it for the first time. -/
def Logger.logWrite (L : Logger) (e : LogEntry) : WriteExit × Logger :=
  if L.nextTail = L.ring.head then
    if e.target = .access then (.dropped, L) else L.waitNotFull e L.nextTail
  else (.stored, L.store e L.nextTail)

/-- The loop of `logger_thread` that copies out at most `room` entries. -/
def Logger.grab : ℕ → Logger → List LogEntry × Logger
  | 0, L => ([], L)
  | room + 1, L =>
    if L.ring.head ≠ L.ring.tail then
      let L' := { L with ring := { L.ring with head := L.masked (L.ring.head + 1) } }
      (L.ring.entries L.ring.head :: (L'.grab room).1, (L'.grab room).2)
    else ([], L)

/-- How a pass through the critical section of `logger_thread` ends. -/
inductive DrainExit
  /-- asleep on `not_empty` -/
  | asleep
  /-- empty and shut down: the thread leaves its loop -/
  | finished
  | batch (b : List LogEntry)

/-- The critical section of `logger_thread`, from a test of its `while` on. -/
def Logger.drain (L : Logger) : DrainExit × Logger :=
  if L.ring.tail = L.ring.head ∧ L.shutdown = false then (.asleep, L)
  else if L.ring.tail = L.ring.head ∧ L.shutdown = true then (.finished, L)
  else (.batch (L.grab BATCH_SIZE).1, (L.grab BATCH_SIZE).2)

/-! ## The entries in the ring -/

/-- The entries from head to tail, oldest first. -/
def Logger.contents (L : Logger) : List LogEntry :=
  window L.ring.entries L.ringSize L.ring.head (span L.ringSize L.ring.head L.ring.tail)

/-- A ring whose mask works and whose indices lie inside its array. -/
structure Logger.Wf (L : Logger) : Prop where
  size_pow : ∃ k, L.ringSize = 2 ^ (k + 1)
  head_lt : L.ring.head < L.ringSize
  tail_lt : L.ring.tail < L.ringSize

theorem Logger.Wf.size_pos {L : Logger} (h : L.Wf) : 0 < L.ringSize := by
  obtain ⟨k, hk⟩ := h.size_pow
  exact hk ▸ Nat.two_pow_pos _

theorem Logger.Wf.mask {L : Logger} (h : L.Wf) (x : ℕ) : L.masked x = x % L.ringSize := by
  obtain ⟨k, hk⟩ := h.size_pow
  rw [Logger.masked, if_neg (Nat.ne_of_gt h.size_pos)]
  exact and_mask hk x

theorem Logger.Wf.nextTail_lt {L : Logger} (h : L.Wf) : L.nextTail < L.ringSize := by
  rw [Logger.nextTail, h.mask]
  exact Nat.mod_lt _ h.size_pos

theorem Logger.init_wf (k : ℕ) : (Logger.init (2 ^ (k + 1))).Wf :=
  ⟨⟨k, rfl⟩, Nat.two_pow_pos _, Nat.two_pow_pos _⟩

theorem Logger.contents_init (size : ℕ) (h : 0 < size) : (Logger.init size).contents = [] := by
  have : span size 0 0 = 0 := (span_eq_zero h h).mpr rfl
  simp [Logger.contents, Logger.init, this]

theorem Logger.Wf.store {L : Logger} (h : L.Wf) (e : LogEntry) {n : ℕ} (hn : n < L.ringSize) :
    (L.store e n).Wf := ⟨h.size_pow, h.head_lt, hn⟩

/-- A store at the slot after the tail, when that is not the head, appends the entry. -/
theorem Logger.contents_store {L : Logger} (h : L.Wf) (e : LogEntry)
    (hne : L.nextTail ≠ L.ring.head) :
    (L.store e L.nextTail).contents = L.contents ++ [e] := by
  have hnt : L.nextTail = (L.ring.tail + 1) % L.ringSize := h.mask _
  have hspan := span_succ_tail h.head_lt h.tail_lt (hnt ▸ hne)
  have hlt : span L.ringSize L.ring.head L.ring.tail < L.ringSize := span_lt h.tail_lt
  have htail := head_add_span h.head_lt h.tail_lt
  have hpush := window_push L.ring.entries L.ring.head e hlt
  rw [htail] at hpush
  simp only [Logger.contents, Logger.store, hnt, hspan, hpush]

/-- After a store at any slot the ring holds as many entries as lie between its head and
that slot. -/
theorem Logger.length_contents_store (L : Logger) (e : LogEntry) (n : ℕ) :
    (L.store e n).contents.length = span L.ringSize L.ring.head n := by
  simp [Logger.contents, Logger.store]

/-- **The copying loop takes a prefix of the ring**, and leaves the rest and the tail. -/
theorem Logger.grab_spec : ∀ (room : ℕ) {L : Logger}, L.Wf →
    (L.grab room).2.Wf ∧ L.contents = (L.grab room).1 ++ (L.grab room).2.contents ∧
      (L.grab room).2.ring.tail = L.ring.tail ∧ (L.grab room).2.ringSize = L.ringSize ∧
        (L.grab room).2.shutdown = L.shutdown := by
  intro room
  induction room with
  | zero =>
    intro L h
    exact ⟨h, rfl, rfl, rfl, rfl⟩
  | succ room ih =>
    intro L h
    by_cases hne : L.ring.head ≠ L.ring.tail
    · have hmask := h.mask (L.ring.head + 1)
      let L' : Logger := { L with ring := { L.ring with head := L.masked (L.ring.head + 1) } }
      have hwf : L'.Wf := ⟨h.size_pow, by
        change L.masked (L.ring.head + 1) < L.ringSize
        rw [hmask]; exact Nat.mod_lt _ h.size_pos, h.tail_lt⟩
      obtain ⟨w, c, t, z, d⟩ := ih hwf
      have hpos : 1 ≤ span L.ringSize L.ring.head L.ring.tail := by
        have := (span_eq_zero h.head_lt h.tail_lt).not.mpr (Ne.symm hne)
        omega
      have hcons : L.contents = L.ring.entries L.ring.head :: L'.contents := by
        have hdrop := span_drop h.head_lt h.tail_lt hpos
        obtain ⟨n, hn⟩ : ∃ n, span L.ringSize L.ring.head L.ring.tail = n + 1 :=
          ⟨_, (Nat.sub_add_cancel hpos).symm⟩
        simp only [Logger.contents, L', hmask, hdrop, hn, window_succ_head,
          Nat.mod_eq_of_lt h.head_lt, Nat.add_sub_cancel]
      rw [Logger.grab, if_pos hne]
      exact ⟨w, by rw [hcons, c]; rfl, t, z, d⟩
    · rw [Logger.grab, if_neg hne]
      exact ⟨h, rfl, rfl, rfl, rfl⟩

end Celeritas
