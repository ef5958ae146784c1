import Celeritas.Queue
import Celeritas.Pool

/-!
# The thread pool: what its threads share and where each of them is

`threadpool.c` and the part of `server.c` that takes it down: two listeners, `nWorkers`
workers, the wait-room thread and `server_shutdown`, which share two bounded queues, a
flag, and the process's descriptor table.

A program point is kept wherever a thread next touches something shared: a mutex-protected
section, the flag, or the kernel. Between two such points a thread works on its own memory.
`close_connection` is therefore two points, before `close` and between `close` and the TLS
part: descriptors are the kernel's, and it may give the number away in between.
-/

set_option autoImplicit false

namespace Celeritas

open CLib

/-- The settings the threads start with. `wait_room_thread` reads `conn_queue_size` a second
time, for its pool. -/
structure Params where
  capacity : ℕ
  poolSize : ℕ
  nWorkers : ℕ
  capacity_pos : 0 < capacity
  poolSize_pos : 0 < poolSize
  nWorkers_pos : 0 < nWorkers

/-- Worker number `0`. -/
def Params.first (p : Params) : Fin p.nWorkers := ⟨0, p.nWorkers_pos⟩

/-! ## Program points -/

/-- `listener_thread` -/
inductive ListenerPc
  /-- before the test of the loop -/
  | top
  /-- in `accept` -/
  | accepting
  /-- `accept_connection` has returned `rv`; before the second test of the flag -/
  | checking (rv : ℤ) (conn : Conn)
  /-- in `queue_push` on the work queue -/
  | pushing (conn : Conn)
  | exited
  deriving DecidableEq

/-- `worker_thread` -/
inductive WorkerPc
  /-- in `queue_pop` on the work queue -/
  | popping
  /-- from the pop to the end of the response -/
  | serving (conn : Conn)
  /-- in `queue_push` on the wait queue -/
  | pushing (conn : Conn)
  /-- answered and not kept alive, before the test of the flag -/
  | checkShutdown (conn : Conn)
  /-- in `close_connection`, before and after `close`; `last` if a `break` follows -/
  | closing (conn : Conn) (last : Bool)
  | closed (conn : Conn) (last : Bool)
  | exited
  deriving DecidableEq

/-- Where `wait_room_thread` goes on after a `close_connection`: in the drain loop, with the
events it has left, or in `pool_sweep_expired` at index `i`. -/
inductive CloseCont
  | drain
  | events (evs : List (ℕ × Bool))
  | sweep (i : ℕ) (now : ℤ)
  deriving DecidableEq

/-- `wait_room_thread`. Its events are descriptors with the flag `is_error`. -/
inductive WaitRoomPc
  | top
  /-- before `queue_trypop` -/
  | draining
  /-- in the body of the drain loop, before `pool_add` -/
  | adding
  /-- before `io_watcher_add` -/
  | registering
  /-- in `io_watcher_wait` -/
  | polling
  | events (evs : List (ℕ × Bool))
  /-- in `queue_push` on the work queue -/
  | pushing (conn : Conn) (evs : List (ℕ × Bool))
  | sweeping (i : ℕ) (now : ℤ)
  | closing (conn : Conn) (k : CloseCont)
  | closed (conn : Conn) (k : CloseCont)
  | exited
  deriving DecidableEq

/-- `server_shutdown`, in the signal thread. -/
inductive ServerPc
  /-- not called yet -/
  | running
  | closeHttp
  | closeHttps
  | joinHttp
  | joinHttps
  | wakeWaitRoom
  | joinWaitRoom
  | wakeWorkers
  | joinWorker (i : ℕ)
  | joined
  deriving DecidableEq

/-! ## The state -/

structure Net (p : Params) where
  /-- the open accepted descriptors, each with the number of its connection -/
  fds : List (ℕ × ℕ)
  nextId : ℕ
  /-- what the watcher has registered, and whether it is armed -/
  watched : ℕ → Option Bool
  /-- whether a listener's socket is open -/
  listening : Bool → Bool
  shuttingDown : Bool
  work : WorkQueue Conn
  wait : WorkQueue Conn
  /-- `true` is the HTTPS listener -/
  listener : Bool → ListenerPc
  worker : Fin p.nWorkers → WorkerPc
  waitRoom : WaitRoomPc
  /-- the local variable `conn` of the wait room's drain loop -/
  wrConn : Conn
  pool : ConnPool
  server : ServerPc
  /-- the connections `close_connection` was called on, in order -/
  closeCalls : List ℕ

/-- All threads started, nothing accepted. `mem` is the memory the queues were allocated
in, `conn` what the wait room's stack holds at its local variable. -/
def Net.init (p : Params) (mem : ℕ → Conn) (conn : Conn) : Net p where
  fds := []
  nextId := 1
  watched _ := none
  listening _ := true
  shuttingDown := false
  work := queueInit mem p.capacity p.capacity_pos
  wait := queueInit mem p.capacity p.capacity_pos
  listener _ := .top
  worker _ := .popping
  waitRoom := .top
  wrConn := conn
  pool := poolInit p.poolSize
  server := .running
  closeCalls := []

namespace Net

variable {p : Params}

/-- `close(fd)`: the number is free again, and the watcher forgets it. -/
def closeFd (s : Net p) (fd : ℕ) : Net p :=
  { s with
    fds := s.fds.filter fun x => x.1 != fd
    watched := Function.update s.watched fd none }

/-- `close_connection` up to the TLS part. -/
def closeConnection (s : Net p) (conn : Conn) : Net p :=
  { s.closeFd conn.fd with closeCalls := s.closeCalls ++ [conn.id] }

def setListener (s : Net p) (tls : Bool) (pc : ListenerPc) : Net p :=
  { s with listener := Function.update s.listener tls pc }

def setWorker (s : Net p) (w : Fin p.nWorkers) (pc : WorkerPc) : Net p :=
  { s with worker := Function.update s.worker w pc }

end Net

end Celeritas
