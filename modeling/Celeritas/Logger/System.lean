import Celeritas.Logger.Ring
import Celeritas.Lib.Run

/-!
# The logging threads

Any number of threads that call `log_write`, and the one `logger_thread`, interleaved at
their mutex-protected sections and at the `writev` calls between them. A thread that waits
on a condition variable has released the mutex and may come back at any time: a signal, a
broadcast and a spurious wake-up are the same step here, so every schedule of the source is
a run of this system.

`logger_thread` is itself a caller of `log_write`, through the `l_warn` after a failed
`writev`; its program points say so.

The lists after the blank line are not in the source. They record what became of every
message, in the order in which it did.
-/

set_option autoImplicit false

namespace Celeritas

open CLib Lib

variable {ι : Type*}

/-- Where a caller of `log_write` is. -/
inductive ProducerPc
  | idle
  /-- asleep on `not_full`, with its entry and the `next_tail` it went to sleep with -/
  | waiting (e : LogEntry) (nextTail : ℕ)
  deriving DecidableEq

/-- Where `logger_thread` is. -/
inductive LoggerPc
  /-- at the head of its loop -/
  | top
  /-- asleep on `not_empty` -/
  | asleep
  /-- before the access and before the event `writev` -/
  | writeAccess (b : List LogEntry)
  | writeEvent (b : List LogEntry)
  /-- in `l_warn`, which is `log_write` -/
  | warn
  | warnWaiting (e : LogEntry) (nextTail : ℕ)
  | finished
  deriving DecidableEq

/-- One call of `writev`. -/
structure WritevCall where
  target : LogTarget
  iov : List Iovec
  ok : Bool

structure LogSys (ι : Type*) where
  log : Logger
  producer : ι → ProducerPc
  thread : LoggerPc

  removed : List LogEntry
  committed : List LogEntry
  dropped : List LogEntry
  bailed : List LogEntry
  writevs : List WritevCall

def LogSys.init (ringSize : ℕ) : LogSys ι where
  log := .init ringSize
  producer _ := .idle
  thread := .top
  removed := []
  committed := []
  dropped := []
  bailed := []
  writevs := []

inductive LogAction (ι : Type*)
  /-- a thread calls `log_write`; `text` is the message with its arguments substituted -/
  | call (i : ι) (target : LogTarget) (text : Bytes)
  /-- a thread asleep on `not_full` tests its condition again -/
  | wake (i : ι)
  /-- `logger_thread` takes the mutex, first or after a wait -/
  | drain
  /-- `logger_thread` gets to its next `writev`, and what the call would return -/
  | writev (ok : Bool)
  | warnCall (text : Bytes)
  | warnWake
  /-- the critical section of `logger_shutdown` -/
  | shutdown

/-- Record how a pass of `log_write` ended. -/
def LogSys.settle (s : LogSys ι) (e : LogEntry) (r : WriteExit × Logger) : LogSys ι :=
  match r.1 with
  | .stored => { s with log := r.2, committed := s.committed ++ [e] }
  | .dropped => { s with log := r.2, dropped := s.dropped ++ [e] }
  | .bailed => { s with log := r.2, bailed := s.bailed ++ [e] }
  | .waiting _ => { s with log := r.2 }

/-- Where a caller of `log_write` is after a pass. -/
def WriteExit.producerPc (e : LogEntry) : WriteExit → ProducerPc
  | .waiting n => .waiting e n
  | _ => .idle

/-- The same for `logger_thread`, which goes back to its loop when `l_warn` returns: after
the access warning by `continue`, after the event warning because nothing follows it. -/
def WriteExit.loggerPc (e : LogEntry) : WriteExit → LoggerPc
  | .waiting n => .warnWaiting e n
  | _ => .top

def LogSys.producerStep [DecidableEq ι] (s : LogSys ι) (i : ι) (e : LogEntry) (r : WriteExit × Logger) :
    LogSys ι :=
  { s.settle e r with producer := Function.update s.producer i (r.1.producerPc e) }

def LogSys.warnStep (s : LogSys ι) (e : LogEntry) (r : WriteExit × Logger) : LogSys ι :=
  { s.settle e r with thread := r.1.loggerPc e }

/-- The critical section of `logger_thread`, with the batch it takes noted. -/
def LogSys.drainStep (s : LogSys ι) : LogSys ι :=
  match s.log.drain with
  | (.asleep, L) => { s with log := L, thread := .asleep }
  | (.finished, L) => { s with log := L, thread := .finished }
  | (.batch b, L) => { s with log := L, thread := .writeAccess b, removed := s.removed ++ b }

/-- The `if (count > 0)` around a `writev`, and the call. -/
def LogSys.writevStep (s : LogSys ι) (target : LogTarget) (b : List LogEntry) (ok : Bool)
    (next : LoggerPc) : LogSys ι :=
  if iovFor target b = [] then { s with thread := next }
  else { s with
    thread := if ok then next else .warn
    writevs := s.writevs ++ [⟨target, iovFor target b, ok⟩] }

def LogSys.step [DecidableEq ι] (s : LogSys ι) : LogAction ι → Option (LogSys ι)
  | .call i target text =>
    match s.producer i with
    | .idle =>
      let e := logEntry target text
      some (s.producerStep i e (s.log.logWrite e))
    | _ => none
  | .wake i =>
    match s.producer i with
    | .waiting e n => some (s.producerStep i e (s.log.waitNotFull e n))
    | _ => none
  | .drain =>
    match s.thread with
    | .top | .asleep => some s.drainStep
    | _ => none
  | .writev ok =>
    match s.thread with
    | .writeAccess b => some (s.writevStep .access b ok (.writeEvent b))
    | .writeEvent b => some (s.writevStep .event b ok .top)
    | _ => none
  | .warnCall text =>
    match s.thread with
    | .warn =>
      let e := logEntry .event text
      some (s.warnStep e (s.log.logWrite e))
    | _ => none
  | .warnWake =>
    match s.thread with
    | .warnWaiting e n => some (s.warnStep e (s.log.waitNotFull e n))
    | _ => none
  | .shutdown => some { s with log := { s.log with shutdown := true } }

/-- The entry and the `next_tail` with which the thread that acts had gone to sleep. -/
def LogSys.sleeper (s : LogSys ι) : LogAction ι → Option (LogEntry × ℕ)
  | .wake i => match s.producer i with
    | .waiting e n => some (e, n)
    | _ => none
  | .warnWake => match s.thread with
    | .warnWaiting e n => some (e, n)
    | _ => none
  | _ => none

/-! ## What a step can do to the ring -/

/-- A step leaves the ring as it is, or stores one entry in it, or takes a batch from it.
A thread that was asleep stores unless its slot is still the head or it is shut down. -/
inductive LogSys.Effect (s : LogSys ι) (a : LogAction ι) (s' : LogSys ι) : Prop
  | quiet (hsize : s'.log.ringSize = s.log.ringSize) (hring : s'.log.ring = s.log.ring)
      (hcom : s'.committed = s.committed) (hrem : s'.removed = s.removed)
      (hsl : ∀ e n, s.sleeper a = some (e, n) → n = s.log.ring.head ∨ s.log.shutdown = true)
  | stored (e : LogEntry) (n : ℕ) (hsize : s'.log.ringSize = s.log.ringSize)
      (hring : s'.log.ring = (s.log.store e n).ring)
      (hcom : s'.committed = s.committed ++ [e]) (hrem : s'.removed = s.removed)
      (hne : n ≠ s.log.ring.head)
      (hn : (n = s.log.nextTail ∧ s.sleeper a = none) ∨
        (s.log.shutdown = false ∧ s.sleeper a = some (e, n)))
  | took (b : List LogEntry) (hgrab : s.log.grab BATCH_SIZE = (b, s'.log))
      (hcom : s'.committed = s.committed) (hrem : s'.removed = s.removed ++ b)
      (hsl : s.sleeper a = none)

/-- The exits of `log_write`, told apart: what each means for the ring and for the lists. -/
theorem Logger.waitNotFull_cases (L : Logger) (e : LogEntry) (n : ℕ) :
    (L.waitNotFull e n = (.waiting n, L) ∧ n = L.ring.head) ∨
    (L.waitNotFull e n = (.bailed, L) ∧ L.shutdown = true) ∨
    (L.waitNotFull e n = (.stored, L.store e n) ∧ n ≠ L.ring.head ∧ L.shutdown = false) := by
  unfold Logger.waitNotFull
  by_cases hs : L.shutdown <;> by_cases hn : n = L.ring.head <;> simp [hs, hn]

theorem Logger.logWrite_cases (L : Logger) (e : LogEntry) :
    (L.logWrite e = (.stored, L.store e L.nextTail) ∧ L.nextTail ≠ L.ring.head) ∨
    (L.logWrite e = (.dropped, L) ∧ L.nextTail = L.ring.head ∧ e.target = .access) ∨
    (L.logWrite e = (.bailed, L) ∧ L.shutdown = true) ∨
    (L.logWrite e = (.waiting L.nextTail, L) ∧ L.nextTail = L.ring.head) := by
  unfold Logger.logWrite
  by_cases hn : L.nextTail = L.ring.head
  · by_cases ht : e.target = .access
    · simp [hn, ht]
    · simp only [hn, ht, if_true, if_false]
      rcases L.waitNotFull_cases e L.ring.head with ⟨h, _⟩ | ⟨h, hs⟩ | ⟨_, hne, _⟩
      · simp [h]
      · simp [h, hs]
      · exact absurd rfl hne
  · simp [hn]

theorem Logger.drain_cases (L : Logger) :
    (L.drain = (.asleep, L) ∨ L.drain = (.finished, L)) ∧ L.ring.tail = L.ring.head ∨
    L.drain = (.batch (L.grab BATCH_SIZE).1, (L.grab BATCH_SIZE).2) := by
  unfold Logger.drain
  by_cases h : L.ring.tail = L.ring.head <;> by_cases hs : L.shutdown <;> simp [h, hs]

end Celeritas
