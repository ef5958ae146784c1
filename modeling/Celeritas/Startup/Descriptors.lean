import Celeritas.Config.Data
import Celeritas.CLib.Str
import Celeritas.Lib.FdTable

/-!
# What the descriptors name when the server has started

`main` opens the two logs and the two listening sockets, and keeps their numbers. Then
`daemonize` puts `/dev/null` in the place of 0, 1 and 2, whatever they are. A process may be
started with some of the three closed, and `open` and `socket` return the lowest number that is
free: then one of the four has such a number, and it is overwritten. Nobody finds out.
`started_descriptors` tells which of the four are lost.

Whether a call succeeds is an input. What `setsockopt` does to a socket is left out, as its
result is not looked at.
-/

set_option autoImplicit false

namespace Celeritas

open CLib Lib

inductive SocketState
  | unbound
  | bound
  | listening
  deriving DecidableEq

/-- What a descriptor names. -/
inductive File
  /-- something that the process was started with, or that a library keeps open -/
  | other (k : ℕ)
  | file (path : Bytes)
  /-- for an address that `getaddrinfo` has returned -/
  | socket (addr : ℕ) (state : SocketState)
  deriving DecidableEq

def File.devNull : File := .file (lit "/dev/null")

abbrev Fds := FdTable File

/-! ## `create_listener` -/

/-- `struct addrinfo`, and what the calls for it come to -/
structure AddrInfo where
  addr : ℕ
  socket : Bool
  bind : Bool
  deriving DecidableEq

/-- A socket is bound to it. -/
def AddrInfo.usable (p : AddrInfo) : Bool := p.socket && p.bind

/-- What the calls of one `create_listener` come to. -/
structure ListenResults where
  /-- for the text of the port; `none` where `getaddrinfo` fails -/
  getaddrinfo : Bytes → Option (List AddrInfo)
  listen : Bool

/-- The loop over the addresses. -/
def bindFirst : List AddrInfo → Fds → Option (ℕ × AddrInfo) × Fds
  | [], t => (none, t)
  | p :: res, t =>
    if p.socket then
      let (fd, t) := t.alloc (.socket p.addr .unbound)
      if p.bind then (some (fd, p), t.put fd (some (.socket p.addr .bound)))
      else bindFirst res (t.close fd)
    else bindFirst res t

/-- `port_str` -/
def portText (port : UInt16) : Bytes := snprintfStored 6 (decimalNat port.toNat)

/-- `create_listener`, with `none` for `-1`. -/
def createListener (port : UInt16) (r : ListenResults) (t : Fds) : Option ℕ × Fds :=
  match r.getaddrinfo (portText port) with
  | none => (none, t)
  | some res =>
    match bindFirst res t with
    | (none, t) => (none, t)
    | (some (fd, p), t) =>
      if r.listen then (some fd, t.put fd (some (.socket p.addr .listening)))
      else (none, t.close fd)

/-- The socket that listens afterwards. -/
def ListenResults.socket (r : ListenResults) (port : UInt16) : Option File :=
  ((r.getaddrinfo (portText port)).bind (·.find? AddrInfo.usable)).map fun p =>
    .socket p.addr .listening

/-! ## `daemonize` -/

structure DaemonResults where
  fork : Bool
  forkAgain : Bool
  chdir : Bool
  devNull : Bool

def openFile (path : Bytes) (ok : Bool) (t : Fds) : Option (ℕ × Fds) :=
  if ok then some (t.alloc (.file path)) else none

/-- The child that is left over, with a copy of the table; `none` where it exits. -/
def daemonize (r : DaemonResults) (t : Fds) : Option Fds :=
  if r.fork && r.forkAgain && r.chdir then
    (openFile (lit "/dev/null") r.devNull t).map fun (devNull, t) =>
      let t := ((t.dup2 devNull 0).dup2 devNull 1).dup2 devNull 2
      if devNull > 2 then t.close devNull else t
  else none

/-! ## `main` -/

/-- The constants of `main`. -/
inductive MainFd
  | eventLogFd
  | accessLogFd
  | httpSock
  | httpsSock
  deriving DecidableEq

/-- In which order they get their numbers. -/
def MainFd.index : MainFd → ℕ
  | .eventLogFd => 0
  | .accessLogFd => 1
  | .httpSock => 2
  | .httpsSock => 3

structure StartResults where
  eventLog : Bool
  accessLog : Bool
  http : ListenResults
  https : ListenResults
  daemon : DaemonResults

/-- Where `main` has a descriptor, and what it has opened there. -/
structure StartedFds where
  fd : MainFd → ℕ
  table : Fds

/-- `main`, from the first `open` to the return of `daemonize`. -/
def startDescriptors (conf : ConfigData) (r : StartResults) (t : Fds) : Option StartedFds := do
  let (eventLogFd, t) ← openFile conf.eventLog r.eventLog t
  let (accessLogFd, t) ← openFile conf.accessLog r.accessLog t
  let (some httpSock, t) := createListener conf.httpPort r.http t | none
  let (some httpsSock, t) := createListener conf.httpsPort r.https t | none
  let t ← daemonize r.daemon t
  return ⟨fun
    | .eventLogFd => eventLogFd
    | .accessLogFd => accessLogFd
    | .httpSock => httpSock
    | .httpsSock => httpsSock, t⟩

/-- What a constant of `main` is for. -/
def StartResults.meant (conf : ConfigData) (r : StartResults) : MainFd → Option File
  | .eventLogFd => some (.file conf.eventLog)
  | .accessLogFd => some (.file conf.accessLog)
  | .httpSock => r.http.socket conf.httpPort
  | .httpsSock => r.https.socket conf.httpsPort

/-! ## One call -/

variable {t t' : Fds}

theorem takes_openFile {path : Bytes} {ok : Bool} {fd : ℕ}
    (h : openFile path ok t = some (fd, t')) : t.Takes fd (.file path) t' := by
  unfold openFile at h
  split at h
  · obtain ⟨rfl, rfl⟩ := Prod.mk.inj (Option.some.inj h)
    exact t.takes_alloc _
  · exact absurd h (by simp)

/-- A socket that could not be bound is closed, and its number is there for the next address. -/
theorem bindFirst_spec (res : List AddrInfo) (t : Fds) :
    match bindFirst res t with
    | (some (fd, p), t') => res.find? AddrInfo.usable = some p ∧
        t.Takes fd (.socket p.addr .bound) t'
    | (none, t') => ∀ n, t'.get n = t.get n := by
  induction res generalizing t with
  | nil => exact fun _ => rfl
  | cons p res ih =>
    simp only [bindFirst, List.find?_cons, AddrInfo.usable]
    cases hs : p.socket with
    | false => exact ih t
    | true =>
      have hnew := t.takes_alloc (File.socket p.addr .unbound)
      cases hb : p.bind with
      | true => exact ⟨rfl, hnew.put⟩
      | false =>
        have hclosed : ∀ m, ((t.alloc (File.socket p.addr .unbound)).2.close
            (t.alloc (File.socket p.addr .unbound)).1).get m = t.get m := fun m => hnew.get_close
        have hrest := ih ((t.alloc (File.socket p.addr .unbound)).2.close
          (t.alloc (File.socket p.addr .unbound)).1)
        simp only [Bool.and_false, if_true, Bool.false_eq_true, if_false]
        split at hrest
        · exact ⟨hrest.1, hrest.2.congr fun m => (hclosed m)⟩
        · exact fun n => (hrest n).trans (hclosed n)

theorem createListener_spec (port : UInt16) (r : ListenResults) (t : Fds) :
    match createListener port r t with
    | (some fd, t') => ∃ f, r.socket port = some f ∧ t.Takes fd f t'
    | (none, t') => ∀ n, t'.get n = t.get n := by
  unfold createListener ListenResults.socket
  cases hinfo : r.getaddrinfo (portText port) with
  | none => exact fun _ => rfl
  | some res =>
    have hbound := bindFirst_spec res t
    cases hb : bindFirst res t with
    | mk o t' =>
      cases o with
      | none => simpa [hb] using hbound
      | some q =>
        obtain ⟨fd, p⟩ := q
        simp only [hb] at hbound ⊢
        obtain ⟨hfind, htakes⟩ := hbound
        cases hl : r.listen with
        | true => exact ⟨_, by simp [hfind], htakes.put⟩
        | false => exact fun n => htakes.get_close

theorem takes_createListener {port : UInt16} {r : ListenResults} {fd : ℕ}
    (h : createListener port r t = (some fd, t')) :
    ∃ f, r.socket port = some f ∧ t.Takes fd f t' := by
  have hspec := createListener_spec port r t
  rwa [h] at hspec

/-- Wherever `/dev/null` comes to lie, the first three numbers name it at the end, and the
others what they did. -/
theorem daemonize_get {r : DaemonResults} (h : daemonize r t = some t') (n : ℕ) :
    t'.get n = if n ≤ 2 then some .devNull else t.get n := by
  unfold daemonize at h
  split at h
  · obtain ⟨⟨fd, s⟩, hopen, rfl⟩ := Option.map_eq_some_iff.mp h
    have hs := takes_openFile hopen
    have h0 : ∀ m, (s.dup2 fd 0).get m = if m = 0 then some File.devNull else s.get m :=
      fun m => FdTable.get_dup2 hs.get_self
    have hfd0 : (s.dup2 fd 0).get fd = some File.devNull := by
      rw [h0, hs.get_self]
      exact ite_self _
    have h1 : ∀ m, ((s.dup2 fd 0).dup2 fd 1).get m =
        if m = 1 then some File.devNull else (s.dup2 fd 0).get m :=
      fun m => FdTable.get_dup2 hfd0
    have hfd1 : ((s.dup2 fd 0).dup2 fd 1).get fd = some File.devNull := by
      rw [h1, hfd0]
      exact ite_self _
    have hall : ∀ m, (((s.dup2 fd 0).dup2 fd 1).dup2 fd 2).get m =
        if m ≤ 2 then some File.devNull else s.get m := by
      intro m
      rw [FdTable.get_dup2 hfd1, h1, h0]
      grind
    dsimp only
    split
    · rw [FdTable.get_close, hall, hs.get]
      have hfree := hs.free
      grind
    · rw [hall, hs.get]
      grind
  · exact absurd h (by simp)

/-! ## All of them -/

/-- The four take their numbers one after the other, and `daemonize` starts with what they
leave. -/
theorem takesAll_startDescriptors {conf : ConfigData} {r : StartResults} {s : StartedFds}
    (h : startDescriptors conf r t = some s) :
    ∃ f : MainFd → File, ∃ t', (∀ o, r.meant conf o = some (f o)) ∧
      t.TakesAll ([.eventLogFd, .accessLogFd, .httpSock, .httpsSock].map fun o => (s.fd o, f o)) t' ∧
      daemonize r.daemon t' = some s.table := by
  unfold startDescriptors at h
  obtain ⟨⟨eventLogFd, t₁⟩, hevent, h⟩ := Option.bind_eq_some_iff.mp h
  obtain ⟨⟨accessLogFd, t₂⟩, haccess, h⟩ := Option.bind_eq_some_iff.mp h
  cases hhttp : createListener conf.httpPort r.http t₂ with
  | mk o t₃ =>
    cases o with
    | none => simp [hhttp] at h
    | some httpSock =>
      cases hhttps : createListener conf.httpsPort r.https t₃ with
      | mk o t₄ =>
        cases o with
        | none => simp [hhttp, hhttps] at h
        | some httpsSock =>
          simp only [hhttp, hhttps] at h
          obtain ⟨t₅, hdaemon, hs⟩ := Option.bind_eq_some_iff.mp h
          obtain rfl := Option.some.inj hs
          obtain ⟨f, hf, htakes⟩ := takes_createListener hhttp
          obtain ⟨g, hg, htakes'⟩ := takes_createListener hhttps
          refine ⟨fun
            | .eventLogFd => .file conf.eventLog
            | .accessLogFd => .file conf.accessLog
            | .httpSock => f
            | .httpsSock => g, t₄, ?_, ?_, hdaemon⟩
          · intro o
            cases o with
            | eventLogFd => rfl
            | accessLogFd => rfl
            | httpSock => exact hf
            | httpsSock => exact hg
          · exact .cons (takes_openFile hevent) (.cons (takes_openFile haccess)
              (.cons htakes (.cons htakes' .nil)))

/-- **The descriptors of a server that has started.** The first three name `/dev/null`. Of the
four of `main` as many are lost, from the event log on, as of the first three were closed when
the process was started: they name `/dev/null`, and the others what they are for. The HTTPS
socket is never lost. What else the process had open it still has, and nothing more. -/
theorem started_descriptors {conf : ConfigData} {r : StartResults} {s : StartedFds}
    (h : startDescriptors conf r t = some s) :
    (∀ n ≤ 2, s.table.get n = some .devNull) ∧
    (∀ o, t.get (s.fd o) = none ∧ s.table.get (s.fd o) =
      if o.index < t.closedBelow 3 then some .devNull else r.meant conf o) ∧
    s.table.get (s.fd .httpsSock) = r.meant conf .httpsSock ∧
    ∀ n > 2, (∀ o, s.fd o ≠ n) → s.table.get n = t.get n := by
  obtain ⟨f, t', hmeant, htakes, hdaemon⟩ := takesAll_startDescriptors h
  have hget := daemonize_get hdaemon
  have hindex : ∀ o, ([.eventLogFd, .accessLogFd, .httpSock, .httpsSock].map
      fun o => (s.fd o, f o))[o.index]? = some (s.fd o, f o) := by
    intro o
    cases o <;> rfl
  have hfour : ∀ o, t.get (s.fd o) = none ∧ s.table.get (s.fd o) =
      if o.index < t.closedBelow 3 then some .devNull else r.meant conf o := by
    intro o
    have hmem := List.mem_of_getElem? (hindex o)
    have hlow : s.fd o ≤ 2 ↔ o.index < t.closedBelow 3 :=
      Nat.lt_succ_iff.symm.trans (htakes.lt_iff (hindex o))
    refine ⟨htakes.free _ hmem, ?_⟩
    rw [hget, htakes.get_of_mem hmem, hmeant]
    simp only [hlow]
  refine ⟨fun n hn => by rw [hget, if_pos hn], hfour, ?_, ?_⟩
  · have hthree : t.closedBelow 3 ≤ 3 := List.countP_le_length
    rw [(hfour .httpsSock).2]
    exact if_neg (Nat.not_lt.mpr hthree)
  · intro n hn hne
    rw [hget, if_neg (Nat.not_le.mpr hn)]
    refine htakes.get_of_notMem fun p hp => ?_
    obtain ⟨o, -, rfl⟩ := List.mem_map.mp hp
    exact hne o

/-- Started without a standard input, on a host where the first address of the HTTP port is
in use. -/
def noStdin : StartResults where
  eventLog := true
  accessLog := true
  http := ⟨fun _ => some [⟨0, true, false⟩, ⟨1, true, true⟩], true⟩
  https := ⟨fun _ => some [⟨2, true, true⟩], true⟩
  daemon := ⟨true, true, true, true⟩

/-- The events of this server go to `/dev/null`, and its requests are logged. -/
theorem started_descriptors_noStdin :
    ∃ s, startDescriptors .zeroed noStdin ⟨[none, some (.other 1), some (.other 2)]⟩ = some s ∧
      s.fd .eventLogFd = 0 ∧ s.table.get (s.fd .eventLogFd) = some .devNull ∧
      s.table.get (s.fd .accessLogFd) = some (.file []) := by
  have hstart : ∃ s, startDescriptors .zeroed noStdin
      ⟨[none, some (.other 1), some (.other 2)]⟩ = some s ∧ s.fd .eventLogFd = 0 := ⟨_, rfl, rfl⟩
  obtain ⟨s, hs, hfd⟩ := hstart
  have hfour := (started_descriptors hs).2.1
  exact ⟨s, hs, hfd, (hfour .eventLogFd).2, (hfour .accessLogFd).2⟩

end Celeritas
