import Celeritas.Http.DocRoot
import Celeritas.Http.Framing
import Celeritas.Worker.Release
import Mathlib.Data.List.DropRight

/-!
# Who closes the connection

`should_keep_alive` decides between closing a connection and waiting for another request. It
reads the first `Connection` header of the request, the `Connection` headers of the response
and the protocol. Two things follow from what it does not read. A client can ask for the
connection to be closed in ways it does not see (`honoursClose_iff`), and `handle_options`
and `handle_get_head`, which announce that the connection is kept, do not know what will be
decided (`announcesTruly_iff`).
-/

set_option autoImplicit false

namespace Celeritas

open CLib Lib

/-! ## `should_keep_alive` -/

/-- The values of the headers with a name. -/
def headerValues (headers : List Header) (name : Bytes) : List Bytes :=
  (headers.filter fun h => strcasecmpEq h.key name).map Header.value

def connections (headers : List Header) : List Bytes := headerValues headers (lit "Connection")

/-- There is a header `Connection: v`. -/
def Announces (headers : List Header) (v : Bytes) : Prop :=
  ∃ c ∈ connections headers, strcasecmpEq c v = true

/-- The first `Connection` header of the request is `close`, in these letters. -/
def ClosesFirst (r : Http1Req) : Prop :=
  ∃ v, getHeaderValue r (lit "Connection") = some v ∧ strcmpEq (lit "close") v = true

/-- A header that is found is there. -/
theorem confirmHeaderExists_of_getHeaderValue {r : Http1Req} {key v : Bytes}
    (h : getHeaderValue r key = some v) : confirmHeaderExists r key = true := by
  rw [getHeaderValue, Option.map_eq_some_iff] at h
  obtain ⟨e, hfind, -⟩ := h
  have hkey := List.find?_some hfind
  exact List.any_eq_true.mpr ⟨e, List.mem_of_find?_eq_some hfind, hkey⟩

theorem closesFirst_iff (r : Http1Req) :
    ClosesFirst r ↔ confirmHeaderExists r (lit "Connection") = true ∧
      (getHeaderValue r (lit "Connection")).any (strcmpEq (lit "close")) = true := by
  rw [ClosesFirst, Option.any_eq_true]
  exact ⟨fun ⟨v, hv, hclose⟩ => ⟨confirmHeaderExists_of_getHeaderValue hv, v, hv, hclose⟩,
    fun ⟨_, h⟩ => h⟩

theorem announces_iff {headers : List Header} {v : Bytes} :
    Announces headers v ↔ (headers.any fun h =>
      strcasecmpEq h.key (lit "Connection") && strcasecmpEq h.value v) = true := by
  simp only [Announces, connections, headerValues, List.mem_map, List.mem_filter, List.any_eq_true,
    Bool.and_eq_true]
  constructor
  · rintro ⟨_, ⟨h, ⟨hmem, hkey⟩, rfl⟩, hv⟩
    exact ⟨h, hmem, hkey, hv⟩
  · rintro ⟨h, hmem, hkey, hv⟩
    exact ⟨h.value, ⟨h, ⟨hmem, hkey⟩, rfl⟩, hv⟩

theorem shouldKeepAlive_iff (protocol : Protocol) (r : Http1Req) (headers : List Header) :
    shouldKeepAlive protocol r headers = true ↔
      ¬ ClosesFirst r ∧ ¬ Announces headers (lit "close") ∧ protocol = .http11 := by
  rw [closesFirst_iff, announces_iff, shouldKeepAlive]
  split_ifs with hclient hserver
  · simp [hclient]
  · simp [hserver]
  · simp [hclient, hserver]

/-! ## What the client asks for -/

def isOws (c : UInt8) : Bool := c == charByte ' ' || c == charByte '\t'

/-- The tokens of a comma-separated value. -/
def tokens (v : Bytes) : List Bytes :=
  (v.splitOn (charByte ',')).map fun t => (t.dropWhile isOws).rdropWhile isOws

/-- Some `Connection` header has the token `close`. -/
def AsksClose (r : Http1Req) : Prop :=
  ∃ v ∈ connections r.headers, ∃ t ∈ tokens (cstr v), EqIgnoringCase t (lit "close")

instance (r : Http1Req) : Decidable (AsksClose r) :=
  inferInstanceAs (Decidable (∃ v ∈ connections r.headers, ∃ t ∈ tokens (cstr v),
    t.map toLower = (lit "close").map toLower))

/-- A client that asks for the connection to be closed gets it closed. -/
def HonoursClose (protocol : Protocol) (r : Http1Req) (headers : List Header) : Prop :=
  AsksClose r → shouldKeepAlive protocol r headers = false

instance (protocol : Protocol) (r : Http1Req) (headers : List Header) :
    Decidable (HonoursClose protocol r headers) :=
  inferInstanceAs (Decidable (AsksClose r → shouldKeepAlive protocol r headers = false))

/-- **The client is heard if its first `Connection` header is `close` and nothing else, or
if the connection is closed for a reason of its own.** -/
theorem honoursClose_iff (protocol : Protocol) (r : Http1Req) (headers : List Header) :
    HonoursClose protocol r headers ↔
      (AsksClose r → ClosesFirst r ∨ Announces headers (lit "close") ∨ protocol ≠ .http11) := by
  have hfalse : shouldKeepAlive protocol r headers = false ↔
      ClosesFirst r ∨ Announces headers (lit "close") ∨ protocol ≠ .http11 := by
    rw [← Bool.not_eq_true, shouldKeepAlive_iff, not_and_or, not_and_or, not_not, not_not]
  rw [HonoursClose, hfalse]

/-- What the worker has read when it answers. -/
def Serve.ingress (s : Serve) : Ingress := (processIngress s.protocol s.evs).1

/-- The headers of the answer. -/
def Serve.headers (s : Serve) : List Header :=
  (respond s.env s.ingress.protocol s.ingress.req).2.headers

/-- A request whose `Connection` header says `v`. -/
def getConnection (v : String) : Serve :=
  { keptAlive with
    evs := [.data (lit "GET /a HTTP/1.1\r\nHost: h\r\nConnection: " ++ lit v ++ eoh)] }

/-- Not in capitals, not among other tokens, not in a second header. -/
theorem close_not_honoured :
    let capital := getConnection "Close"
    let listed := getConnection "TE, close"
    let second := getConnection "TE\r\nConnection: close"
    (capital.answered = true ∧
        ¬ HonoursClose capital.ingress.protocol capital.ingress.req capital.headers) ∧
      (listed.answered = true ∧
        ¬ HonoursClose listed.ingress.protocol listed.ingress.req listed.headers) ∧
      (second.answered = true ∧
        ¬ HonoursClose second.ingress.protocol second.ingress.req second.headers) := by
  decide +kernel

/-! ## What the server announces -/

/-- `handle_options`, or `handle_get_head` on a file that is there. -/
def AnswersInFull (env : Env) (protocol : Protocol) (r : Http1Req) : Prop :=
  ((validateRequest protocol r).2 < 400 ∧ (validateRequest protocol r).1 = .options) ∨
    (SentToGetHead protocol r ∧ (env.files (statPath env r)).stat.isSome = true)

theorem connections_handleError (env : Env) (st : ℕ) :
    connections (handleError env st).headers = [lit "close"] := by
  by_cases hst : st = 405
  · simp only [Response.headers, handleError, if_pos hst]
    rfl
  · simp only [Response.headers, handleError, if_neg hst]
    rfl

theorem connections_handleOptions (env : Env) (st : ℕ) :
    connections (handleOptions env st).headers = [lit "keep-alive"] := rfl

theorem connections_handleGetHead (env : Env) (st : ℕ) (method : HttpMethod) (r : Http1Req) :
    connections (handleGetHead env st method r.uri).headers =
      if (env.files (statPath env r)).stat.isSome then [lit "keep-alive"] else [lit "close"] := by
  unfold statPath
  cases hst : (env.files (resolvePath (strncpy env.docRoot PATH_MAX) r.uri)).stat with
  | none =>
    simp only [handleGetHead, hst]
    exact connections_handleError env 404
  | some st =>
    simp only [handleGetHead, hst, Response.headers]
    rfl

/-- **What is announced is a matter of the request's method and of the file.** -/
theorem connections_respond (env : Env) (protocol : Protocol) (r : Http1Req) :
    (AnswersInFull env protocol r ∧
        connections (respond env protocol r).2.headers = [lit "keep-alive"]) ∨
      (¬ AnswersInFull env protocol r ∧
        (connections (respond env protocol r).2.headers = [lit "close"] ∨
          connections (respond env protocol r).2.headers = [])) := by
  rcases validateRequest_cases protocol r with hbad | ⟨hok, hsupported⟩
  · -- `validate_request` has refused it
    have hnot : ¬ AnswersInFull env protocol r := by
      rintro (⟨hlt, -⟩ | ⟨⟨hlt, -⟩, -⟩)
      · exact absurd hlt (Nat.not_lt.mpr hbad)
      · exact absurd hlt (Nat.not_lt.mpr hbad)
    refine .inr ⟨hnot, .inl ?_⟩
    simp only [respond, ge_iff_le, if_pos hbad]
    exact connections_handleError env _
  have hlt : (validateRequest protocol r).2 < 400 := by rw [hok]; decide
  by_cases hget : (validateRequest protocol r).1 = .get ∨ (validateRequest protocol r).1 = .head
  · have hsent : SentToGetHead protocol r := ⟨hlt, hget⟩
    have hno : (validateRequest protocol r).1 ≠ .options := by
      rcases hget with hm | hm
      · rw [hm]; decide
      · rw [hm]; decide
    rw [respond_of_sentToGetHead hsent, connections_handleGetHead]
    by_cases hfile : (env.files (statPath env r)).stat.isSome = true
    · exact .inl ⟨.inr ⟨hsent, hfile⟩, if_pos hfile⟩
    · refine .inr ⟨?_, .inl (if_neg hfile)⟩
      rintro (⟨-, hm⟩ | ⟨-, hf⟩)
      · exact hno hm
      · exact hfile hf
  have hrun : (respond env protocol r).2 =
      handleStatic env (validateRequest protocol r).2 (validateRequest protocol r).1 r.uri := by
    simp only [respond, ge_iff_le, if_neg (Nat.not_le.mpr hlt)]
  rw [hrun]
  cases hm : (validateRequest protocol r).1 with
  | get => exact absurd (.inl hm) hget
  | head => exact absurd (.inr hm) hget
  | options => exact .inl ⟨.inl ⟨hlt, hm⟩, connections_handleOptions env _⟩
  | put =>
    -- the stub writes no header at all
    refine .inr ⟨?_, .inr rfl⟩
    rintro (⟨-, hopt⟩ | ⟨hsent, -⟩)
    · exact absurd (hm.symm.trans hopt) (by decide)
    · exact hget hsent.2
  | _ => rw [hm] at hsupported; exact absurd hsupported (by decide)

theorem announces_of_connections {headers : List Header} {c : Bytes}
    (h : connections headers = [c]) (v : Bytes) :
    Announces headers v ↔ strcasecmpEq c v = true := by
  simp [Announces, h]

/-- The client is told what becomes of the connection. -/
structure Serve.AnnouncesTruly (s : Serve) (m : Memory) : Prop where
  kept : Announces s.headers (lit "keep-alive") →
    s.keepAlive = true ∧ ∃ m', workerIteration s m = some (.kept, m')
  closed : Announces s.headers (lit "close") → s.keepAlive = false
  one : ¬ (Announces s.headers (lit "keep-alive") ∧ Announces s.headers (lit "close"))

/-- **The announcement holds if and only if a request that is answered in full comes by
HTTP/1.1 and does not ask for the connection to be closed.** -/
theorem announcesTruly_iff (s : Serve) (m : Memory) (hans : s.answered = true)
    (hsent : s.sent = 0) :
    s.AnnouncesTruly m ↔ (AnswersInFull s.env s.ingress.protocol s.ingress.req →
      s.ingress.protocol = .http11 ∧ ¬ ClosesFirst s.ingress.req) := by
  have hkeep : s.keepAlive = true ↔ ¬ ClosesFirst s.ingress.req ∧
      ¬ Announces s.headers (lit "close") ∧ s.ingress.protocol = .http11 :=
    shouldKeepAlive_iff _ _ _
  rcases connections_respond s.env s.ingress.protocol s.ingress.req with
    ⟨hfull, hconn⟩ | ⟨hnot, hconn | hconn⟩
  · -- answered in full: what is announced holds only if the request lets it
    have hka : Announces s.headers (lit "keep-alive") :=
      (announces_of_connections hconn _).mpr (by decide)
    have hclose : ¬ Announces s.headers (lit "close") := by
      rw [Serve.headers, announces_of_connections hconn]
      decide
    constructor
    · intro h _
      obtain ⟨hfirst, -, hprotocol⟩ := hkeep.mp (h.kept hka).1
      exact ⟨hprotocol, hfirst⟩
    · intro h
      obtain ⟨hprotocol, hfirst⟩ := h hfull
      have hkept : s.keepAlive = true := hkeep.mpr ⟨hfirst, hclose, hprotocol⟩
      obtain ⟨_, m', -, hrun⟩ := workerIteration_of_answered hans m
      rw [if_pos ⟨hsent, hkept⟩] at hrun
      exact ⟨fun _ => ⟨hkept, m', hrun⟩, fun hc => absurd hc hclose, fun hc => hclose hc.2⟩
  · -- answered by `handle_error`, whose header `should_keep_alive` finds
    have hka : ¬ Announces s.headers (lit "keep-alive") := by
      rw [Serve.headers, announces_of_connections hconn]
      decide
    have hclose : Announces s.headers (lit "close") :=
      (announces_of_connections hconn _).mpr (by decide)
    refine iff_of_true ⟨fun hc => absurd hc hka, fun _ => ?_, fun hc => hka hc.1⟩
      fun hfull => absurd hfull hnot
    rw [← Bool.not_eq_true, hkeep]
    exact fun h => h.2.1 hclose
  · -- nothing is announced
    have hnone : ∀ v, ¬ Announces s.headers v := by
      intro v
      simp [Serve.headers, Announces, hconn]
    exact iff_of_true ⟨fun hc => absurd hc (hnone _), fun hc => absurd hc (hnone _),
      fun hc => hnone _ hc.1⟩ fun hfull => absurd hfull hnot

theorem announcesTruly_iff_keptAlive :
    keptAlive.AnnouncesTruly .empty ↔
      (AnswersInFull keptAlive.env keptAlive.ingress.protocol keptAlive.ingress.req →
        keptAlive.ingress.protocol = .http11 ∧ ¬ ClosesFirst keptAlive.ingress.req) :=
  announcesTruly_iff keptAlive .empty (by decide) rfl

/-- The connection is announced as kept, and is closed. -/
theorem getConnection_announced_kept :
    (getConnection "close").answered = true ∧ (getConnection "close").sent = 0 ∧
      Announces (getConnection "close").headers (lit "keep-alive") ∧
      (getConnection "close").keepAlive = false ∧
      ¬ (getConnection "close").AnnouncesTruly .empty := by
  have hka : Announces (getConnection "close").headers (lit "keep-alive") :=
    announces_iff.mpr (by decide +kernel)
  have hclosed : (getConnection "close").keepAlive = false := by decide +kernel
  refine ⟨by decide +kernel, rfl, hka, hclosed, fun h => ?_⟩
  have hkept := (h.kept hka).1
  rw [hclosed] at hkept
  exact absurd hkept (by decide)

end Celeritas
