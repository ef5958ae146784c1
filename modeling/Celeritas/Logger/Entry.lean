import Celeritas.Types

/-!
# A log record, from `log_write` to `writev`

The two ends of a record's life that touch no shared state: `log_write` formats the
message into a local `log_entry_t` before it takes the ring's mutex, and `logger_thread`
points one `iovec` at each entry of the batch it has copied out.

`len` is what `vsnprintf` *returned*, and `vsnprintf` returns the length the message wanted.
Everything that can be said of a record follows from comparing that number with the
`LOG_LINE_MAX - 1` characters the line can hold (`RecordOk_iff`).
-/

set_option autoImplicit false

namespace Celeritas

open CLib

def LOG_LINE_MAX : ℕ := 2048

/-- The lock-free start of `log_write`: `text` is the message with its arguments
substituted, as `vsnprintf` would print it into a buffer of any size. -/
def logEntry (target : LogTarget) (text : Bytes) : LogEntry where
  target := target
  len := sizeOfInt (snprintfRet text)
  line := snprintfStored LOG_LINE_MAX text ++ [0]

/-- `struct iovec`: the memory at `iov_base`, as far as it is initialised, and `iov_len`. -/
structure Iovec where
  base : Bytes
  len : ℕ
  deriving DecidableEq, Repr

/-- `iov_base = local_batch[i].line; iov_len = local_batch[i].len` -/
def LogEntry.iov (e : LogEntry) : Iovec := ⟨e.line, e.len⟩

/-- The loop that sorts a batch into the two vectors, as seen by one of them. -/
def iovFor (target : LogTarget) (batch : List LogEntry) : List Iovec :=
  (batch.filter fun e => e.target == target).map LogEntry.iov

/-- The bytes `writev` puts out for one vector element: `none` is a byte the program never
stored. -/
def Iovec.emitted (v : Iovec) : List (Option UInt8) := (List.range v.len).map fun i => v.base[i]?

/-- How many message characters the entry holds: its bytes without the terminator. -/
def LogEntry.stored (e : LogEntry) : ℕ := e.line.length - 1

/-- The entry claims no more than it holds, it holds no more than the line has room for,
and what `writev` emits for it is the message. -/
structure RecordOk (e : LogEntry) (text : Bytes) : Prop where
  len_le : e.len ≤ e.stored
  stored_lt : e.stored ≤ LOG_LINE_MAX - 1
  emitted : e.iov.emitted = text.map some

/-! ## What `vsnprintf` leaves -/

@[simp] theorem logEntry_target (t : LogTarget) (text : Bytes) : (logEntry t text).target = t :=
  rfl

@[simp] theorem logEntry_stored (t : LogTarget) (text : Bytes) :
    (logEntry t text).stored = min (LOG_LINE_MAX - 1) text.length := by
  simp [LogEntry.stored, logEntry, snprintfStored]

/-- A message that is no longer than an `int` can say is claimed at its full length. -/
theorem logEntry_len {t : LogTarget} {text : Bytes} (h : text.length ≤ intMax) :
    (logEntry t text).len = text.length := by
  have hlt : text.length < 2 ^ 64 := by unfold intMax at h; omega
  simp only [logEntry, snprintfRet, if_pos h, sizeOfInt]
  omega

/-- One that is longer still comes back as `-1`, which as a `size_t` is the largest. -/
theorem logEntry_len_overflow {t : LogTarget} {text : Bytes} (h : intMax < text.length) :
    (logEntry t text).len = sizeMax := by
  simp only [logEntry, snprintfRet, if_neg (Nat.not_le.mpr h)]
  decide

theorem logEntry_len_le_iff (t : LogTarget) (text : Bytes) :
    (logEntry t text).len ≤ (logEntry t text).stored ↔ text.length ≤ LOG_LINE_MAX - 1 := by
  rw [logEntry_stored]
  rcases Nat.lt_or_ge intMax text.length with h | h
  · rw [logEntry_len_overflow h]
    unfold sizeMax LOG_LINE_MAX intMax at *
    omega
  · rw [logEntry_len h]
    unfold LOG_LINE_MAX
    omega

/-- What is emitted of a message that fits is the message. -/
theorem logEntry_emitted {t : LogTarget} {text : Bytes}
    (h : text.length ≤ LOG_LINE_MAX - 1) :
    (logEntry t text).iov.emitted = text.map some := by
  have hlen : (logEntry t text).len = text.length :=
    logEntry_len (h.trans (by decide))
  have hline : (logEntry t text).line = text ++ [0] := by
    simp only [logEntry, snprintfStored, List.take_of_length_le h]
  apply List.ext_getElem (by simp [Iovec.emitted, LogEntry.iov, hlen])
  intro i hi hi'
  have hit : i < text.length := by simpa using hi'
  simp [Iovec.emitted, LogEntry.iov, hline, List.getElem?_append_left hit, hit]

/-- **A record is sound exactly when its message fits the line.** -/
theorem RecordOk_iff (t : LogTarget) (text : Bytes) :
    RecordOk (logEntry t text) text ↔ text.length ≤ LOG_LINE_MAX - 1 := by
  constructor
  · intro h
    exact (logEntry_len_le_iff t text).mp h.len_le
  · intro h
    refine ⟨(logEntry_len_le_iff t text).mpr h, ?_, logEntry_emitted h⟩
    rw [logEntry_stored]
    exact Nat.min_le_left _ _

end Celeritas
