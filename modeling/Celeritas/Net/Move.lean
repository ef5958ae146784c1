import Celeritas.Net.Step

/-!
# The thread pool: the steps, branch by branch

The step functions are written as the source is, nested as it is. Every result about them
goes through their branches, so these are listed here once, each with the guards on its
path and the state it leads to; no later proof unfolds a step function again.
-/

set_option autoImplicit false

namespace Celeritas.Net

variable {p : Params}

/-! ## Listeners -/

inductive ListenerMove (s : Net p) (tls : Bool) : NetAction p → Net p → Prop
  | failed {a : NetAction p} (rv : ℤ) (hpc : s.listener tls = .accepting)
      (hrv : rv = 0 → s.shuttingDown = true) :
      ListenerMove s tls a (s.setListener tls (.checking rv {}))
  | accepted (rv : ℤ) (conn : Conn) (remoteIp : CLib.Bytes) (t : TlsSetup)
      (hpc : s.listener tls = .accepting) (hfd : conn.fd ∉ s.fds.map Prod.fst)
      (hid : conn.id = s.nextId)
      (htls : ∀ t, conn.tlsFd = some t → t = conn.fd) :
      ListenerMove s tls (.accept tls (.accepted conn.fd remoteIp t)) (({ s with
        fds := (conn.fd, s.nextId) :: s.fds, nextId := s.nextId + 1 } : Net p).setListener tls
          (.checking rv conn))
  | enter {a : NetAction p} (hpc : s.listener tls = .top) :
      ListenerMove s tls a (s.setListener tls .accepting)
  | leave {a : NetAction p} (hpc : s.listener tls = .top) (hsd : s.shuttingDown = true) :
      ListenerMove s tls a (s.setListener tls .exited)
  | closed {a : NetAction p} (rv : ℤ) (conn : Conn) (hpc : s.listener tls = .checking rv conn)
      (hsd : s.shuttingDown = true) (hfd : conn.fd > 0) :
      ListenerMove s tls a ((s.closeFd conn.fd).setListener tls .exited)
  | dropped {a : NetAction p} (rv : ℤ) (conn : Conn) (hpc : s.listener tls = .checking rv conn)
      (hsd : s.shuttingDown = true) :
      ListenerMove s tls a (s.setListener tls .exited)
  | retry {a : NetAction p} (rv : ℤ) (conn : Conn) (hpc : s.listener tls = .checking rv conn)
      (hrv : rv ≠ 0) : ListenerMove s tls a (s.setListener tls .top)
  | ready {a : NetAction p} (conn : Conn) (hpc : s.listener tls = .checking 0 conn)
      (hsd : s.shuttingDown = false) :
      ListenerMove s tls a (s.setListener tls (.pushing conn))
  | pushed {a : NetAction p} (conn : Conn) (q : WorkQueue Conn) (hpc : s.listener tls = .pushing conn)
      (hq : queuePush s.work conn = some q) :
      ListenerMove s tls a (({ s with work := q } : Net p).setListener tls .top)

/-- An accepted connection has the descriptor, the next number, and its own descriptor in
its TLS object if it has one. -/
theorem acceptConnection_accepted (sd tls : Bool) (id fd : ℕ) (remoteIp : CLib.Bytes)
    (t : TlsSetup) :
    (acceptConnection sd tls id (.accepted fd remoteIp t)).2.id = id ∧
      (acceptConnection sd tls id (.accepted fd remoteIp t)).2.fd = fd ∧
      ∀ u, (acceptConnection sd tls id (.accepted fd remoteIp t)).2.tlsFd = some u → u = fd := by
  cases tls <;> cases t <;> simp [acceptConnection, Conn.tlsFd]

theorem acceptStep_cases {s s' : Net p} {tls : Bool} {r : AcceptResult}
    (h : s.acceptStep tls r = some s') : ListenerMove s tls (.accept tls r) s' := by
  unfold acceptStep at h
  cases hpc : s.listener tls <;> simp only [hpc, reduceCtorEq] at h
  cases r with
  | failed =>
    obtain rfl := Option.some.inj h
    refine .failed _ hpc fun hrv => ?_
    by_contra hsd
    simp [acceptConnection, hsd] at hrv
  | accepted fd remoteIp t =>
    obtain ⟨hid, hfd, htls⟩ := acceptConnection_accepted s.shuttingDown tls s.nextId fd remoteIp t
    simp only at h
    split at h
    · rename_i hg
      obtain rfl := Option.some.inj h
      have hm := ListenerMove.accepted (s := s) (acceptConnection s.shuttingDown tls s.nextId
        (.accepted fd remoteIp t)).1 _ remoteIp t hpc (by rw [hfd]; exact hg.2) hid
        (by rw [hfd]; exact htls)
      rwa [hfd] at hm
    · exact absurd h (by simp)

theorem listenStep_cases {s s' : Net p} {tls : Bool} (h : s.listenStep tls = some s') :
    ListenerMove s tls (.listen tls) s' := by
  unfold listenStep at h
  cases hpc : s.listener tls <;> simp only [hpc, reduceCtorEq] at h
  case top =>
    obtain rfl := Option.some.inj h
    cases hsd : s.shuttingDown
    · exact .enter hpc
    · exact .leave hpc hsd
  case checking rv conn =>
    split at h <;> rename_i hsd <;> obtain rfl := Option.some.inj h
    · by_cases hfd : conn.fd > 0
      · rw [if_pos hfd]
        exact .closed rv conn hpc hsd hfd
      · rw [if_neg hfd]
        exact .dropped rv conn hpc hsd
    · by_cases hrv : rv = 0
      · subst hrv
        exact .ready conn hpc (Bool.eq_false_iff.mpr hsd)
      · rw [if_pos hrv]
        exact .retry rv conn hpc hrv
  case pushing conn =>
    obtain ⟨q, hq, rfl⟩ := Option.map_eq_some_iff.mp h
    exact .pushed conn q hpc hq

/-! ## Workers -/

inductive WorkerMove (s : Net p) (w : Fin p.nWorkers) : Net p → Prop
  | io (conn : Conn) (hpc : s.worker w = .serving conn) : WorkerMove s w s
  | served (conn : Conn) (o : ServeOutcome) (hpc : s.worker w = .serving conn) :
      WorkerMove s w (s.setWorker w (o.next conn))
  | popped (conn : Conn) (q : WorkQueue Conn) (hpc : s.worker w = .popping)
      (hq : queuePop s.work = .item conn q) :
      WorkerMove s w (({ s with work := q } : Net p).setWorker w (.serving conn))
  | leave (hpc : s.worker w = .popping) (hq : queuePop s.work = .closed) :
      WorkerMove s w (s.setWorker w .exited)
  | pushed (conn : Conn) (q : WorkQueue Conn) (hpc : s.worker w = .pushing conn)
      (hq : queuePush s.wait conn = some q) :
      WorkerMove s w (({ s with wait := q } : Net p).setWorker w .popping)
  | check (conn : Conn) (hpc : s.worker w = .checkShutdown conn) :
      WorkerMove s w (s.setWorker w (.closing conn s.shuttingDown))
  | close (conn : Conn) (last : Bool) (hpc : s.worker w = .closing conn last) :
      WorkerMove s w ((s.closeConnection conn).setWorker w (.closed conn last))
  | resume (conn : Conn) (last : Bool) (hpc : s.worker w = .closed conn last) :
      WorkerMove s w (s.setWorker w (if last then .exited else .popping))

theorem ioStep_cases {s s' : Net p} {w : Fin p.nWorkers} (h : s.ioStep w = some s') :
    WorkerMove s w s' := by
  unfold ioStep at h
  split at h
  · obtain rfl := Option.some.inj h
    exact .io _ ‹_›
  · exact absurd h (by simp)

theorem serveStep_cases {s s' : Net p} {w : Fin p.nWorkers} {o : ServeOutcome}
    (h : s.serveStep w o = some s') : WorkerMove s w s' := by
  unfold serveStep at h
  split at h
  · obtain rfl := Option.some.inj h
    exact .served _ o ‹_›
  · exact absurd h (by simp)

theorem workStep_cases {s s' : Net p} {w : Fin p.nWorkers} (h : s.workStep w = some s') :
    WorkerMove s w s' := by
  unfold workStep at h
  cases hpc : s.worker w <;> simp only [hpc, reduceCtorEq] at h
  case popping =>
    cases hq : queuePop s.work <;> simp only [hq, reduceCtorEq, Option.some.injEq] at h <;>
      subst h
    case item conn q => exact .popped conn q hpc hq
    case closed => exact .leave hpc hq
  case pushing conn =>
    obtain ⟨q, hq, rfl⟩ := Option.map_eq_some_iff.mp h
    exact .pushed conn q hpc hq
  case checkShutdown conn =>
    obtain rfl := Option.some.inj h
    exact .check conn hpc
  case closing conn last =>
    obtain rfl := Option.some.inj h
    exact .close conn last hpc
  case closed conn last =>
    obtain rfl := Option.some.inj h
    exact .resume conn last hpc

/-! ## The wait room -/

inductive WaitRoomMove (s : Net p) : Net p → Prop
  | leave (hpc : s.waitRoom = .top) (hsd : s.shuttingDown = true) :
      WaitRoomMove s { s with watched := fun _ => none, waitRoom := .exited }
  | enter (hpc : s.waitRoom = .top) (hsd : s.shuttingDown = false) :
      WaitRoomMove s { s with waitRoom := .draining }
  | popped (conn : Conn) (q : WorkQueue Conn) (hpc : s.waitRoom = .draining)
      (hq : queuePop s.wait = .item conn q) :
      WaitRoomMove s { s with wait := q, wrConn := conn, waitRoom := .adding }
  | drained (hpc : s.waitRoom = .draining) (hq : s.wait.shuttingDown = false) :
      WaitRoomMove s { s with waitRoom := .polling }
  | stale (hpc : s.waitRoom = .draining) (hc : s.wait.count = 0)
      (hq : s.wait.shuttingDown = true) :
      WaitRoomMove s { s with waitRoom := .adding }
  | added (pool : ConnPool) (hpc : s.waitRoom = .adding)
      (hadd : poolAdd s.pool s.wrConn = some pool) :
      WaitRoomMove s { s with pool := pool, waitRoom := .registering }
  | full (hpc : s.waitRoom = .adding) :
      WaitRoomMove s { s with waitRoom := .closing s.wrConn .drain }
  | unknown (e : ℕ × Bool) (evs : List (ℕ × Bool)) (hpc : s.waitRoom = .events (e :: evs)) :
      WaitRoomMove s { s with waitRoom := .events evs }
  | broken (fd : ℕ) (evs : List (ℕ × Bool)) (conn : Conn) (pool : ConnPool)
      (hpc : s.waitRoom = .events ((fd, true) :: evs))
      (hrem : poolRemoveByFd s.pool fd = some (conn, pool)) :
      WaitRoomMove s { s with pool := pool, waitRoom := .closing conn (.events evs) }
  | readable (fd : ℕ) (evs : List (ℕ × Bool)) (conn : Conn) (pool : ConnPool)
      (hpc : s.waitRoom = .events ((fd, false) :: evs))
      (hrem : poolRemoveByFd s.pool fd = some (conn, pool)) :
      WaitRoomMove s { s with pool := pool, waitRoom := .pushing conn evs }
  | pushed (conn : Conn) (evs : List (ℕ × Bool)) (q : WorkQueue Conn)
      (hpc : s.waitRoom = .pushing conn evs) (hq : queuePush s.work conn = some q) :
      WaitRoomMove s { s with work := q, waitRoom := .events evs }
  | expired (i : ℕ) (now : ℤ) (conn : Conn) (hpc : s.waitRoom = .sweeping i now)
      (hi : s.pool.items[i]? = some conn) :
      WaitRoomMove s { s with
        watched := Function.update s.watched conn.fd none
        waitRoom := .closing conn (.sweep i now) }
  | kept (i : ℕ) (now : ℤ) (hpc : s.waitRoom = .sweeping i now) :
      WaitRoomMove s { s with waitRoom := .sweeping (i + 1) now }
  | swept (i : ℕ) (now : ℤ) (hpc : s.waitRoom = .sweeping i now) :
      WaitRoomMove s { s with waitRoom := .top }
  | close (conn : Conn) (k : CloseCont) (hpc : s.waitRoom = .closing conn k) :
      WaitRoomMove s { s.closeConnection conn with waitRoom := .closed conn k }
  | resume (conn : Conn) (k : CloseCont) (hpc : s.waitRoom = .closed conn k) :
      WaitRoomMove s (s.afterClose k)
  | registered (hpc : s.waitRoom = .registering) (hfd : s.wrConn.fd ∈ s.fds.map Prod.fst) :
      WaitRoomMove s { s with
        watched := Function.update s.watched s.wrConn.fd (some true), waitRoom := .draining }
  | refused (hpc : s.waitRoom = .registering) :
      WaitRoomMove s { s with
        pool := ((poolRemoveByFd s.pool s.wrConn.fd).map Prod.snd).getD s.pool
        waitRoom := .closing s.wrConn .drain }
  | polled (evs : List (ℕ × Bool)) (hpc : s.waitRoom = .polling) :
      WaitRoomMove s { s with
        watched := fun fd => if fd ∈ evs.map Prod.fst then some false else s.watched fd
        waitRoom := .events evs }
  | clock (now : ℤ) (hpc : s.waitRoom = .events []) :
      WaitRoomMove s { s with waitRoom := .sweeping 0 now }

theorem waitRoomStep_cases {s s' : Net p} (h : s.waitRoomStep = some s') :
    WaitRoomMove s s' := by
  unfold waitRoomStep at h
  cases hpc : s.waitRoom <;> simp only [hpc, reduceCtorEq] at h
  case top =>
    split at h <;> rename_i hsd <;> obtain rfl := Option.some.inj h
    · exact .leave hpc hsd
    · exact .enter hpc (Bool.eq_false_iff.mpr hsd)
  case draining =>
    rw [queueTrypop_eq_queuePop] at h
    cases hq : queuePop s.wait <;> simp only [hq] at h <;> obtain rfl := Option.some.inj h
    case item conn q => exact .popped conn q hpc hq
    case empty => exact .drained hpc (queuePop_eq_empty.mp hq).2
    case closed =>
      obtain ⟨hc, hsd⟩ := queuePop_eq_closed.mp hq
      exact .stale hpc hc hsd
  case adding =>
    split at h <;> obtain rfl := Option.some.inj h
    · exact .added _ hpc ‹_›
    · exact .full hpc
  case events evs =>
    match evs with
    | [] => exact absurd h (by simp)
    | (fd, isError) :: evs =>
      simp only at h
      cases hrem : poolRemoveByFd s.pool fd <;> simp only [hrem] at h <;>
        obtain rfl := Option.some.inj h
      case none => exact .unknown _ evs hpc
      case some cp =>
        cases isError
        · exact .readable fd evs cp.1 cp.2 hpc hrem
        · exact .broken fd evs cp.1 cp.2 hpc hrem
  case pushing conn evs =>
    obtain ⟨q, hq, rfl⟩ := Option.map_eq_some_iff.mp h
    exact .pushed conn evs q hpc hq
  case sweeping i now =>
    split at h
    · split at h <;> obtain rfl := Option.some.inj h
      · exact .expired i now _ hpc ‹_›
      · exact .kept i now hpc
    · obtain rfl := Option.some.inj h
      exact .swept i now hpc
  case closing conn k =>
    obtain rfl := Option.some.inj h
    exact .close conn k hpc
  case closed conn k =>
    obtain rfl := Option.some.inj h
    exact .resume conn k hpc

theorem registerStep_cases {s s' : Net p} {ok : Bool} (h : s.registerStep ok = some s') :
    WaitRoomMove s s' := by
  unfold registerStep at h
  cases hpc : s.waitRoom <;> simp only [hpc, reduceCtorEq] at h
  split at h
  · split at h
    · obtain rfl := Option.some.inj h
      exact .registered hpc ‹_›
    · exact absurd h (by simp)
  · obtain rfl := Option.some.inj h
    exact .refused hpc

theorem pollStep_cases {s s' : Net p} {evs : List (ℕ × Bool)} (h : s.pollStep evs = some s') :
    WaitRoomMove s s' := by
  unfold pollStep at h
  cases hpc : s.waitRoom <;> simp only [hpc, reduceCtorEq] at h
  split at h
  · obtain rfl := Option.some.inj h
    exact .polled evs hpc
  · exact absurd h (by simp)

theorem clockStep_cases {s s' : Net p} {now : ℤ} (h : s.clockStep now = some s') :
    WaitRoomMove s s' := by
  unfold clockStep at h
  split at h
  · obtain rfl := Option.some.inj h
    exact .clock now ‹_›
  · exact absurd h (by simp)

/-! ## All threads -/

/-- A step, by the thread that takes it. -/
inductive Move (s s' : Net p) : NetAction p → Prop
  | listener (tls : Bool) (a : NetAction p) (ha : a.thread = .listener tls)
      (h : ListenerMove s tls a s') : Move s s' a
  | worker (w : Fin p.nWorkers) (a : NetAction p) (ha : a.thread = .worker w)
      (h : WorkerMove s w s') : Move s s' a
  | waitRoom (a : NetAction p) (ha : a.thread = .waitRoom) (h : WaitRoomMove s s') : Move s s' a
  | server (h : s.serverStep = some s') : Move s s' .server

theorem step_cases {s s' : Net p} {a : NetAction p} (h : s.step a = some s') : Move s s' a := by
  cases a with
  | listen tls => exact .listener tls _ rfl (listenStep_cases h)
  | accept tls r => exact .listener tls _ rfl (acceptStep_cases h)
  | io w viaTls => exact .worker w _ rfl (ioStep_cases h)
  | serve w o => exact .worker w _ rfl (serveStep_cases h)
  | work w => exact .worker w _ rfl (workStep_cases h)
  | register ok => exact .waitRoom _ rfl (registerStep_cases h)
  | poll evs => exact .waitRoom _ rfl (pollStep_cases h)
  | clock now => exact .waitRoom _ rfl (clockStep_cases h)
  | waitRoom => exact .waitRoom _ rfl (waitRoomStep_cases h)
  | server => exact .server h

end Celeritas.Net
