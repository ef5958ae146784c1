import Celeritas.Net.State

/-!
# The thread pool: steps

One step is what a thread does from one program point to the next. What the kernel, the
peer, the clock and the HTTP layer answer is part of the action, so that every answer is
possible at every step. `none` is a thread that waits, or has exited.

What a step does to a descriptor is written down beside it (`uses`): a descriptor is only a
number, and whom it belongs to has to be asked at the moment it is used.
-/

set_option autoImplicit false

namespace Celeritas

open CLib

def MAX_WAIT_EVENTS : ℕ := 64

/-! ## What the threads are told -/

/-- How `SSL_new` and `SSL_set_fd` go. -/
inductive TlsSetup
  | ok
  | noSsl
  | noSetFd
  deriving DecidableEq

/-- What `accept` comes back with, and `accept_connection` after it. -/
inductive AcceptResult
  | failed
  | accepted (fd : ℕ) (remoteIp : Bytes) (t : TlsSetup)
  deriving DecidableEq

/-- What a worker makes of a connection. `sniffed` is what `demux_protocol` finds. -/
inductive ServeOutcome
  /-- the TLS handshake or `process_ingress` failed -/
  | failed (sniffed : Protocol)
  /-- `send_response` failed, or `should_keep_alive` said no -/
  | answered (sniffed : Protocol)
  | keepAlive (sniffed : Protocol) (deadline : ℤ)
  deriving DecidableEq

inductive NetAction (p : Params)
  /-- a step of a listener other than `accept_connection` -/
  | listen (tls : Bool)
  | accept (tls : Bool) (r : AcceptResult)
  /-- a worker reads or writes its connection, through the TLS layer or not -/
  | io (w : Fin p.nWorkers) (viaTls : Bool)
  | serve (w : Fin p.nWorkers) (o : ServeOutcome)
  /-- any other step of a worker -/
  | work (w : Fin p.nWorkers)
  /-- `io_watcher_add` -/
  | register (ok : Bool)
  /-- `io_watcher_wait` -/
  | poll (evs : List (ℕ × Bool))
  /-- `time(nullptr)` in `pool_sweep_expired` -/
  | clock (now : ℤ)
  /-- any other step of the wait-room thread -/
  | waitRoom
  /-- the next step of `server_shutdown` -/
  | server

inductive Thread (p : Params)
  | listener (tls : Bool)
  | worker (w : Fin p.nWorkers)
  | waitRoom
  | server
  deriving DecidableEq

/-- Whose step an action is. -/
def NetAction.thread {p : Params} : NetAction p → Thread p
  | .listen tls => .listener tls
  | .accept tls _ => .listener tls
  | .io w _ => .worker w
  | .serve w _ => .worker w
  | .work w => .worker w
  | .register _ => .waitRoom
  | .poll _ => .waitRoom
  | .clock _ => .waitRoom
  | .waitRoom => .waitRoom
  | .server => .server

/-! ## Listeners -/

/-- `accept_connection`: its result, and what it leaves in the zeroed `conn_t` it was given.
`id` is the number of the new connection. -/
def acceptConnection (shuttingDown tls : Bool) (id : ℕ) : AcceptResult → ℤ × Conn
  | .failed => (if shuttingDown then 0 else -1, {})
  | .accepted fd remoteIp t =>
    if tls then
      match t with
      | .noSsl => (-1, { id, fd, isTls := true, remoteIp })
      | .noSetFd => (-1, { id, fd, isTls := true, remoteIp, ssl := some ⟨none⟩ })
      | .ok => (0, { id, fd, isTls := true, remoteIp, ssl := some ⟨some fd⟩ })
    else (0, { id, fd, isTls := false, remoteIp })

/-- `demux_protocol` is called while the protocol is unknown. -/
def Conn.demux (c : Conn) (sniffed : Protocol) : Conn :=
  if c.protocol = .unknown then { c with protocol := sniffed } else c

/-- Where a worker goes on from a connection it has served. -/
def ServeOutcome.next (conn : Conn) : ServeOutcome → WorkerPc
  | .failed sniffed => .closing (conn.demux sniffed) false
  | .answered sniffed => .checkShutdown (conn.demux sniffed)
  | .keepAlive sniffed deadline =>
    .pushing { conn.demux sniffed with keepaliveDeadline := deadline }

namespace Net

variable {p : Params}

/-- `accept` gives out descriptors that are not open, while its socket is. -/
def acceptStep (s : Net p) (tls : Bool) (r : AcceptResult) : Option (Net p) :=
  match s.listener tls with
  | .accepting =>
    let (rv, conn) := acceptConnection s.shuttingDown tls s.nextId r
    match r with
    | .failed => some (s.setListener tls (.checking rv conn))
    | .accepted fd _ _ =>
      if s.listening tls ∧ fd ∉ s.fds.map Prod.fst then
        some (({ s with fds := (fd, s.nextId) :: s.fds, nextId := s.nextId + 1 } : Net p).setListener
          tls (.checking rv conn))
      else none
  | _ => none

def listenStep (s : Net p) (tls : Bool) : Option (Net p) :=
  match s.listener tls with
  | .top => some (s.setListener tls (if s.shuttingDown then .exited else .accepting))
  | .checking rv conn =>
    if s.shuttingDown then
      some ((if conn.fd > 0 then s.closeFd conn.fd else s).setListener tls .exited)
    else
      some (s.setListener tls (if rv ≠ 0 then .top else .pushing conn))
  | .pushing conn =>
    (queuePush s.work conn).map fun q => ({ s with work := q } : Net p).setListener tls .top
  | _ => none

/-! ## Workers -/

def serveStep (s : Net p) (w : Fin p.nWorkers) (o : ServeOutcome) : Option (Net p) :=
  match s.worker w with
  | .serving conn => some (s.setWorker w (o.next conn))
  | _ => none

def ioStep (s : Net p) (w : Fin p.nWorkers) : Option (Net p) :=
  match s.worker w with
  | .serving _ => some s
  | _ => none

def workStep (s : Net p) (w : Fin p.nWorkers) : Option (Net p) :=
  match s.worker w with
  | .popping =>
    match queuePop s.work with
    | .item conn q => some (({ s with work := q } : Net p).setWorker w (.serving conn))
    | .empty => none
    | .closed => some (s.setWorker w .exited)
  | .pushing conn =>
    (queuePush s.wait conn).map fun q => ({ s with wait := q } : Net p).setWorker w .popping
  | .checkShutdown conn => some (s.setWorker w (.closing conn s.shuttingDown))
  | .closing conn last => some ((s.closeConnection conn).setWorker w (.closed conn last))
  | .closed _ last => some (s.setWorker w (if last then .exited else .popping))
  | _ => none

/-! ## The wait room -/

/-- Where `wait_room_thread` is once `close_connection` has returned; in the sweep, the
slot is compacted away there. -/
def afterClose (s : Net p) : CloseCont → Net p
  | .drain => { s with waitRoom := .draining }
  | .events evs => { s with waitRoom := .events evs }
  | .sweep i now => { s with pool := s.pool.swapOut i, waitRoom := .sweeping i now }

/-- `io_watcher_add`, which fails on a descriptor that is not open. -/
def registerStep (s : Net p) (ok : Bool) : Option (Net p) :=
  match s.waitRoom with
  | .registering =>
    if ok then
      if s.wrConn.fd ∈ s.fds.map Prod.fst then
        some { s with
          watched := Function.update s.watched s.wrConn.fd (some true), waitRoom := .draining }
      else none
    else
      some { s with
        pool := ((poolRemoveByFd s.pool s.wrConn.fd).map Prod.snd).getD s.pool
        waitRoom := .closing s.wrConn .drain }
  | _ => none

/-- `io_watcher_wait`: some of the armed descriptors, which are then disarmed. -/
def pollStep (s : Net p) (evs : List (ℕ × Bool)) : Option (Net p) :=
  match s.waitRoom with
  | .polling =>
    if evs.length ≤ MAX_WAIT_EVENTS ∧ (evs.map Prod.fst).Nodup ∧
        ∀ e ∈ evs, s.watched e.1 = some true then
      some { s with
        watched := fun fd => if fd ∈ evs.map Prod.fst then some false else s.watched fd
        waitRoom := .events evs }
    else none
  | _ => none

def clockStep (s : Net p) (now : ℤ) : Option (Net p) :=
  match s.waitRoom with
  | .events [] => some { s with waitRoom := .sweeping 0 now }
  | _ => none

def waitRoomStep (s : Net p) : Option (Net p) :=
  match s.waitRoom with
  | .top =>
    if s.shuttingDown then some { s with watched := fun _ => none, waitRoom := .exited }
    else some { s with waitRoom := .draining }
  | .draining =>
    match queueTrypop s.wait with
    | .item conn q => some { s with wait := q, wrConn := conn, waitRoom := .adding }
    | .empty => some { s with waitRoom := .polling }
    | .closed => some { s with waitRoom := .adding }
  | .adding =>
    match poolAdd s.pool s.wrConn with
    | some pool => some { s with pool := pool, waitRoom := .registering }
    | none => some { s with waitRoom := .closing s.wrConn .drain }
  | .events ((fd, isError) :: evs) =>
    match poolRemoveByFd s.pool fd with
    | some (conn, pool) => some { s with
        pool := pool
        waitRoom := if isError then .closing conn (.events evs) else .pushing conn evs }
    | none => some { s with waitRoom := .events evs }
  | .pushing conn evs =>
    (queuePush s.work conn).map fun q => { s with work := q, waitRoom := .events evs }
  | .sweeping i now =>
    match s.pool.items[i]? with
    | some conn =>
      if conn.keepaliveDeadline ≤ now then
        some { s with
          watched := Function.update s.watched conn.fd none
          waitRoom := .closing conn (.sweep i now) }
      else some { s with waitRoom := .sweeping (i + 1) now }
    | none => some { s with waitRoom := .top }
  | .closing conn k => some { s.closeConnection conn with waitRoom := .closed conn k }
  | .closed _ k => some (s.afterClose k)
  | _ => none

/-! ## `server_shutdown` -/

def serverStep (s : Net p) : Option (Net p) :=
  match s.server with
  | .running => some { s with shuttingDown := true, server := .closeHttp }
  | .closeHttp =>
    some { s with listening := Function.update s.listening false false, server := .closeHttps }
  | .closeHttps =>
    some { s with listening := Function.update s.listening true false, server := .joinHttp }
  | .joinHttp => if s.listener false = .exited then some { s with server := .joinHttps } else none
  | .joinHttps =>
    if s.listener true = .exited then some { s with server := .wakeWaitRoom } else none
  | .wakeWaitRoom => some { s with wait := s.wait.shutdown, server := .joinWaitRoom }
  | .joinWaitRoom => if s.waitRoom = .exited then some { s with server := .wakeWorkers } else none
  | .wakeWorkers => some { s with work := s.work.shutdown, server := .joinWorker 0 }
  | .joinWorker i =>
    if h : i < p.nWorkers then
      if s.worker ⟨i, h⟩ = .exited then some { s with server := .joinWorker (i + 1) } else none
    else some { s with server := .joined }
  | .joined => none

/-! ## All threads -/

def step (s : Net p) : NetAction p → Option (Net p)
  | .listen tls => s.listenStep tls
  | .accept tls r => s.acceptStep tls r
  | .io w _ => s.ioStep w
  | .serve w o => s.serveStep w o
  | .work w => s.workStep w
  | .register ok => s.registerStep ok
  | .poll evs => s.pollStep evs
  | .clock now => s.clockStep now
  | .waitRoom => s.waitRoomStep
  | .server => s.serverStep

end Net

/-! ## The use of descriptors -/

inductive UseKind
  /-- reading and writing the socket -/
  | socketIo
  /-- the TLS layer reading and writing, up to the close of the connection -/
  | tlsIo
  /-- the TLS layer writing `close_notify`, in `SSL_shutdown` -/
  | closeNotify
  | close
  | push
  /-- `epoll_ctl` -/
  | watch
  deriving DecidableEq

/-- Descriptor `fd` is used for connection `id`. -/
structure Use where
  kind : UseKind
  fd : ℕ
  id : ℕ
  deriving DecidableEq

def Conn.use (c : Conn) (kind : UseKind) : List Use := [⟨kind, c.fd, c.id⟩]

/-- A use by the TLS layer, which goes to the descriptor `SSL_set_fd` was given. -/
def Conn.tlsUse (c : Conn) (kind : UseKind) : List Use :=
  c.tlsFd.toList.map fun fd => ⟨kind, fd, c.id⟩

/-- The descriptors the action uses, were it taken. -/
def Net.uses {p : Params} (s : Net p) : NetAction p → List Use
  | .listen tls =>
    match s.listener tls with
    | .checking _ conn => if s.shuttingDown ∧ conn.fd > 0 then conn.use .close else []
    | .pushing conn => conn.use .push
    | _ => []
  | .io w viaTls =>
    match s.worker w with
    | .serving conn => if viaTls then conn.tlsUse .tlsIo else conn.use .socketIo
    | _ => []
  | .work w =>
    match s.worker w with
    | .pushing conn => conn.use .push
    | .closing conn _ => conn.use .close
    | .closed conn _ => conn.tlsUse .closeNotify
    | _ => []
  | .register _ =>
    match s.waitRoom with
    | .registering => s.wrConn.use .watch
    | _ => []
  | .waitRoom =>
    match s.waitRoom with
    | .pushing conn _ => conn.use .push
    | .sweeping i now =>
      match s.pool.items[i]? with
      | some conn => if conn.keepaliveDeadline ≤ now then conn.use .watch else []
      | none => []
    | .closing conn _ => conn.use .close
    | .closed conn _ => conn.tlsUse .closeNotify
    | _ => []
  | _ => []

end Celeritas
