import Celeritas.Http.Reading
import Celeritas.Http.Response

/-!
# A persistent connection

`process_ingress` and the visits of one connection to the workers. Every visit starts with a
`request_ctx_t` from `calloc`, so all that goes from one visit to the next is what the
connection itself holds: its protocol, and what the socket still has to deliver. The bytes
that `read_http_headers` took beyond the header block stay behind in the old context.

A client that sends its requests back to back is therefore understood exactly as long as
the reads stop where the requests do. `Aligned` says so of the segments alone, and
`inStep_iff_aligned` that it is the whole condition.
-/

set_option autoImplicit false

namespace Celeritas

open CLib

/-- What `process_ingress` leaves behind: whether it returned `0`, the status it set (`0` is
the `calloc`ed one), what it gave to `parse_http1`, the request and the protocol. -/
structure Ingress where
  ok : Bool
  statusCode : ℕ
  block : Option Bytes
  req : Http1Req
  protocol : Protocol

/-- The `switch` on a failed `read_http_headers`. -/
def ingressStatus (status : ℤ) : ℕ :=
  if status = -3 then 431
  else if status = -2 ∨ status = -4 then 0
  else if status = -1 then 500
  else 400

/-- `process_ingress` from `parse_http1` on. -/
def parseBlock (protocol : Protocol) (block : Bytes) : Ingress :=
  let (status, req, protocol) := parseHttp1 protocol block
  { ok := status == 0
    statusCode := if status = 1 then 101 else if status ≠ 0 then 400 else 0
    block := some block
    req
    protocol }

/-- `process_ingress` -/
def processIngress (protocol : Protocol) (evs : List SockEvent) : Ingress × List SockEvent :=
  match readHttpHeaders [] evs with
  | (.failed status, rest) => (⟨false, ingressStatus status, none, {}, protocol⟩, rest)
  | (.complete buf headerBytesRead _, rest) =>
    if protocol = .http2 then (⟨false, 505, none, {}, protocol⟩, rest)
    else (parseBlock protocol (buf.take headerBytesRead), rest)

/-- What a worker is told from outside during a visit: the file system and the like, and
whether `send_response` gets its bytes out. -/
structure VisitEnv where
  env : Env
  sent : Bool

/-- Whether the worker pushes the connection to the wait queue at the end of the visit. -/
def Ingress.keptOpen (v : VisitEnv) (i : Ingress) : Bool :=
  i.ok && v.sent && shouldKeepAlive i.protocol i.req (respond v.env i.protocol i.req).2.headers

/-- A visit: what the socket has to deliver when it begins, and what is parsed. -/
structure Visit where
  start : List SockEvent
  block : Option Bytes

/-- The visits of a connection, one after the other for as long as it is kept open. -/
def serve : Protocol → List VisitEnv → List SockEvent → List Visit
  | _, [], _ => []
  | protocol, v :: vs, evs =>
    let (i, rest) := processIngress protocol evs
    ⟨evs, i.block⟩ :: if i.keptOpen v then serve i.protocol vs rest else []

theorem serve_cons (protocol : Protocol) (v : VisitEnv) (vs : List VisitEnv)
    (evs : List SockEvent) : serve protocol (v :: vs) evs =
      ⟨evs, (processIngress protocol evs).1.block⟩ ::
        if (processIngress protocol evs).1.keptOpen v then
          serve (processIngress protocol evs).1.protocol vs (processIngress protocol evs).2
        else [] := rfl

/-! ## What the client sends -/

/-- A request: its header block, and its body, to which the server pays no attention. -/
structure ClientRequest where
  block : Bytes
  body : Bytes
  isHeaderBlock : IsHeaderBlock block

def ClientRequest.bytes (r : ClientRequest) : Bytes := r.block ++ r.body

/-- The stream of requests sent back to back. -/
def stream (rs : List ClientRequest) : Bytes := rs.flatMap ClientRequest.bytes

theorem ClientRequest.stream_cons (r : ClientRequest) (rs : List ClientRequest) :
    stream (r :: rs) = r.block ++ (r.body ++ stream rs) := by
  simp [stream, ClientRequest.bytes]

/-- The `j`-th visit finds the `j`-th request next in the stream, and if it parses a
request, it is that one. -/
def InStep (rs : List ClientRequest) (visits : List Visit) : Prop :=
  ∀ j visit, visits[j]? = some visit →
    pending visit.start = stream (rs.drop j) ∧
      ∀ block, visit.block = some block → ∃ r, rs[j]? = some r ∧ block = r.block

/-- Of every request after which the connection is kept open and visited again: the read that
completes its header block ends where the request ends, or the buffer does. -/
def Aligned : List VisitEnv → List ClientRequest → List SockEvent → Prop
  | v :: w :: vs, r :: rs, evs =>
    (parseBlock .http11 r.block).keptOpen v = true →
      ∀ k, arrived r.block.length evs = some k →
        min k (MAX_HEADER_SIZE - 1) = r.bytes.length ∧
          Aligned (w :: vs) rs (discard r.bytes.length evs)
  | _, _, _ => True

/-! ## One visit -/

/-- A connection is kept open with the protocol it has. -/
theorem Ingress.protocol_of_keptOpen {v : VisitEnv} {i : Ingress} (h : i.keptOpen v = true) :
    i.protocol = .http11 := by
  have hk : shouldKeepAlive i.protocol i.req (respond v.env i.protocol i.req).2.headers = true := by
    simp only [Ingress.keptOpen, Bool.and_eq_true] at h
    exact h.2
  unfold shouldKeepAlive at hk
  split_ifs at hk
  exact beq_iff_eq.mp hk

/-- With a request next in the stream, the visit parses it, or nothing. -/
theorem processIngress_stream {r : ClientRequest} {tail : Bytes} {evs : List SockEvent}
    (h : pending evs = r.block ++ tail) :
    match arrived r.block.length evs with
    | none => (processIngress .http11 evs).1.ok = false ∧ (processIngress .http11 evs).1.block = none
    | some k => processIngress .http11 evs =
        (parseBlock .http11 r.block, discard (min k (MAX_HEADER_SIZE - 1)) evs) := by
  have h4 := r.isHeaderBlock.four_le
  have hread := readsBlock tail r.isHeaderBlock evs [] h (by rw [List.length_nil]; omega)
  simp only [ReadsBlock, List.length_nil, Nat.sub_zero, Nat.zero_add] at hread
  cases hk : arrived r.block.length evs with
  | none =>
    rw [hk] at hread
    obtain ⟨st, rest, hr⟩ := hread
    simp only [processIngress, hr, and_self]
  | some k =>
    rw [hk] at hread
    have hle := (arrived_bounds hk).1
    have hmax := r.isHeaderBlock.length_le
    have htake : ((r.block ++ tail).take (min k (MAX_HEADER_SIZE - 1))).take r.block.length =
        r.block := by
      rw [List.take_take, Nat.min_eq_left (by omega), List.take_left]
    simp only [processIngress, hread, reduceCtorEq, if_false, htake]

/-- What a visit parses is the next request's header block. -/
theorem block_of_processIngress {r : ClientRequest} {rs : List ClientRequest}
    {evs : List SockEvent} {block : Bytes} (h : pending evs = stream (r :: rs))
    (hb : (processIngress .http11 evs).1.block = some block) : block = r.block := by
  have hvisit := processIngress_stream (h.trans (r.stream_cons rs))
  cases hk : arrived r.block.length evs with
  | none =>
    rw [hk] at hvisit
    rw [hvisit.2] at hb
    cases hb
  | some k =>
    rw [hk] at hvisit
    simp only at hvisit
    rw [hvisit] at hb
    exact (Option.some.inj hb).symm

/-- Only what was parsed lets the visit go on. -/
theorem ok_eq_false_of_block {protocol : Protocol} {evs : List SockEvent}
    (h : (processIngress protocol evs).1.block = none) :
    (processIngress protocol evs).1.ok = false := by
  revert h
  unfold processIngress
  split
  · simp
  · split
    · simp
    · simp [parseBlock]

/-- With nothing in the stream, nothing is parsed. -/
theorem processIngress_of_pending_nil {evs : List SockEvent} (protocol : Protocol)
    (h : pending evs = []) :
    (processIngress protocol evs).1.ok = false ∧ (processIngress protocol evs).1.block = none := by
  obtain ⟨st, rest, hr⟩ := readHttpHeaders_of_pending_nil evs [] h
  simp only [processIngress, hr, and_self]

/-! ## All visits -/

theorem inStep_nil (rs : List ClientRequest) : InStep rs [] := by simp [InStep]

theorem inStep_cons {rs : List ClientRequest} {visit : Visit} {visits : List Visit} :
    InStep rs (visit :: visits) ↔
      (pending visit.start = stream rs ∧ ∀ block, visit.block = some block →
        ∃ r, rs[0]? = some r ∧ block = r.block) ∧ InStep rs.tail visits := by
  constructor
  · intro h
    refine ⟨h 0 visit rfl, fun j w hw => ?_⟩
    have := h (j + 1) w hw
    rwa [← List.drop_tail, ← List.getElem?_tail] at this
  · rintro ⟨h₀, h⟩ (_ | j) w hw
    · cases hw
      exact h₀
    · have := h j w hw
      rwa [List.drop_tail, List.getElem?_tail] at this

/-- What a visit leaves in the socket starts with the next request only if the visit took
the whole of its own and no more. -/
theorem pending_discard_eq_stream_iff {r : ClientRequest} {rs : List ClientRequest}
    {evs : List SockEvent} {m : ℕ} (h : pending evs = stream (r :: rs))
    (hm : m ≤ (pending evs).length) :
    pending (discard m evs) = stream rs ↔ m = r.bytes.length := by
  have hcons : stream (r :: rs) = r.bytes ++ stream rs := by simp [stream]
  rw [pending_discard, h, hcons]
  constructor
  · intro hd
    have hlen := congrArg List.length hd
    rw [h, hcons, List.length_append] at hm
    rw [List.length_drop, List.length_append] at hlen
    omega
  · rintro rfl
    exact List.drop_left

theorem inStep_iff_aligned : ∀ (vs : List VisitEnv) (rs : List ClientRequest)
    (evs : List SockEvent), pending evs = stream rs →
      (InStep rs (serve .http11 vs evs) ↔ Aligned vs rs evs) := by
  intro vs
  induction vs with
  | nil => exact fun rs _ _ => iff_of_true (inStep_nil rs) trivial
  | cons v vs ih =>
    intro rs evs h
    cases rs with
    | nil =>
      obtain ⟨hok, hblock⟩ := processIngress_of_pending_nil .http11 h
      refine iff_of_true ?_ (by simp [Aligned])
      have hkept : (processIngress .http11 evs).1.keptOpen v = false := by
        simp [Ingress.keptOpen, hok]
      simp only [serve_cons, hkept, Bool.false_eq_true, if_false]
      exact inStep_cons.mpr ⟨⟨h, by simp [hblock]⟩, inStep_nil _⟩
    | cons r rs =>
      have hfirst : pending evs = stream (r :: rs) ∧ ∀ block,
          (processIngress .http11 evs).1.block = some block →
            ∃ r', (r :: rs)[0]? = some r' ∧ block = r'.block :=
        ⟨h, fun block hb => ⟨r, rfl, block_of_processIngress h hb⟩⟩
      cases vs with
      | nil =>
        refine iff_of_true ?_ trivial
        simp only [serve, ite_self]
        exact inStep_cons.mpr ⟨hfirst, inStep_nil _⟩
      | cons w vs =>
        have hvisit := processIngress_stream (h.trans (r.stream_cons rs))
        rw [serve_cons, inStep_cons, and_iff_right hfirst, Aligned]
        cases hk : arrived r.block.length evs with
        | none =>
          rw [hk] at hvisit
          have hkept : (processIngress .http11 evs).1.keptOpen v = false := by
            simp [Ingress.keptOpen, hvisit.1]
          simp [hkept, inStep_nil]
        | some k =>
          rw [hk] at hvisit
          simp only at hvisit
          simp only [hvisit, Option.some.injEq, forall_eq']
          by_cases hkept : (parseBlock .http11 r.block).keptOpen v = true
          · rw [if_pos hkept, Ingress.protocol_of_keptOpen hkept, List.tail_cons]
            simp only [hkept, forall_const]
            have hmem : min k (MAX_HEADER_SIZE - 1) ≤ (pending evs).length :=
              (Nat.min_le_left _ _).trans (arrived_bounds hk).2
            have hrest := pending_discard_eq_stream_iff h hmem
            constructor
            · intro hin
              have hm : min k (MAX_HEADER_SIZE - 1) = r.bytes.length := by
                rw [serve_cons, inStep_cons] at hin
                exact hrest.mp hin.1.1
              rw [hm] at hin hrest
              exact ⟨hm, (ih rs _ (hrest.mpr rfl)).mp hin⟩
            · rintro ⟨hm, hal⟩
              rw [hm] at hrest ⊢
              exact (ih rs _ (hrest.mpr rfl)).mpr hal
          · simp [hkept, inStep_nil]

/-- The requests parsed in a connection's visits, in order. -/
def parsed (visits : List Visit) : List Bytes := visits.filterMap Visit.block

/-- A visit after which the connection is kept open has parsed a request, so that visits in
step parse a prefix of what was sent. -/
theorem InStep.parsed_initial : ∀ {vs : List VisitEnv} {protocol : Protocol}
    {rs : List ClientRequest} {evs : List SockEvent}, InStep rs (serve protocol vs evs) →
      parsed (serve protocol vs evs) <+: rs.map ClientRequest.block := by
  intro vs
  induction vs with
  | nil => exact fun _ => List.nil_prefix
  | cons v vs ih =>
    intro protocol rs evs h
    rw [serve_cons, inStep_cons] at h
    obtain ⟨⟨-, hblock⟩, hrest⟩ := h
    rw [serve_cons, parsed]
    cases hb : (processIngress protocol evs).1.block with
    | none =>
      have hkept : (processIngress protocol evs).1.keptOpen v = false := by
        simp [Ingress.keptOpen, ok_eq_false_of_block hb]
      simp [hkept]
    | some block =>
      obtain ⟨r, hr, rfl⟩ := hblock block hb
      obtain ⟨rs, rfl⟩ : ∃ rs', rs = r :: rs' := by
        cases rs with
        | nil => cases hr
        | cons r' rs => cases hr; exact ⟨rs, rfl⟩
      simp only [List.filterMap_cons, List.map_cons]
      refine List.cons_prefix_cons.mpr ⟨rfl, ?_⟩
      split_ifs at hrest ⊢
      · exact ih hrest
      · exact List.nil_prefix

/-- Every visit has its own request next in the stream and parses that one, **if and only if
every read that completes the header block of a request after which the connection is kept
open and visited again ends where the request does**; and then the parsed requests are a
prefix of those sent. -/
theorem served_in_step (vs : List VisitEnv) (rs : List ClientRequest) (evs : List SockEvent)
    (h : pending evs = stream rs) :
    (InStep rs (serve .http11 vs evs) ↔ Aligned vs rs evs) ∧
      (Aligned vs rs evs →
        parsed (serve .http11 vs evs) <+: rs.map ClientRequest.block) :=
  have hiff := inStep_iff_aligned vs rs evs h
  ⟨hiff, fun hal => (hiff.mpr hal).parsed_initial⟩

/-! ## Two requests in one read, and a body in a read of its own -/

/-- Every file is there and has twelve bytes. -/
def plainVisit : VisitEnv where
  env := {
    docRoot := lit "/srv"
    serverTok := lit "celeritas"
    dateNow := lit "Thu, 01 Jan 1970 00:00:00 GMT"
    files := fun _ => ⟨some (12, lit "Thu, 01 Jan 1970 00:00:00 GMT"), true, true⟩ }
  sent := true

def getA : ClientRequest where
  block := lit "GET /a HTTP/1.1\r\nHost: h\r\n\r\n"
  body := []
  isHeaderBlock := ⟨by decide, by decide, by decide⟩

def getB : ClientRequest where
  block := lit "GET /b HTTP/1.1\r\nHost: h\r\n\r\n"
  body := []
  isHeaderBlock := ⟨by decide, by decide, by decide⟩

/-- A `PUT` whose body reads like a request. -/
def putGetB : ClientRequest where
  block := lit "PUT /a HTTP/1.1\r\nHost: h\r\nContent-Length: 28\r\n\r\n"
  body := getB.block
  isHeaderBlock := ⟨by decide, by decide, by decide⟩

/-- Each in a read of its own, the body with its header block. -/
def ownReads : List SockEvent := [.data getA.block, .data putGetB.bytes, .data getB.block]

theorem served_in_step_ownReads :
    InStep [getA, putGetB, getB]
        (serve .http11 [plainVisit, plainVisit, plainVisit] ownReads) ∧
      parsed (serve .http11 [plainVisit, plainVisit, plainVisit] ownReads) =
        [getA.block, putGetB.block, getB.block] := by
  have haligned : Aligned [plainVisit, plainVisit, plainVisit] [getA, putGetB, getB] ownReads := by
    intro _ k hk
    obtain rfl : getA.bytes.length = k :=
      Option.some.inj ((show arrived _ _ = some getA.bytes.length by decide).symm.trans hk)
    refine ⟨by decide, fun _ k hk => ?_⟩
    obtain rfl : putGetB.bytes.length = k :=
      Option.some.inj ((show arrived _ _ = some putGetB.bytes.length by decide).symm.trans hk)
    exact ⟨by decide, trivial⟩
  refine ⟨?_, by decide⟩
  exact (served_in_step [plainVisit, plainVisit, plainVisit] [getA, putGetB, getB] ownReads
    (by decide)).1.mpr haligned

/-- The second of two requests in one read is skipped, and a body is parsed. -/
theorem pipelined_out_of_step :
    (pending [.data (getA.block ++ getB.block), .data getA.block] = stream [getA, getB, getA] ∧
      parsed (serve .http11 [plainVisit, plainVisit] [.data (getA.block ++ getB.block),
        .data getA.block]) = [getA.block, getA.block] ∧
      ¬ InStep [getA, getB, getA] (serve .http11 [plainVisit, plainVisit]
        [.data (getA.block ++ getB.block), .data getA.block])) ∧
    (pending [.data putGetB.block, .data putGetB.body] = stream [putGetB] ∧
      parsed (serve .http11 [plainVisit, plainVisit] [.data putGetB.block,
        .data putGetB.body]) = [putGetB.block, putGetB.body] ∧
      ¬ InStep [putGetB] (serve .http11 [plainVisit, plainVisit]
        [.data putGetB.block, .data putGetB.body])) := by
  have hskip : parsed (serve .http11 [plainVisit, plainVisit]
      [.data (getA.block ++ getB.block), .data getA.block]) = [getA.block, getA.block] := by decide
  have hbody : parsed (serve .http11 [plainVisit, plainVisit]
      [.data putGetB.block, .data putGetB.body]) = [putGetB.block, putGetB.body] := by decide
  refine ⟨⟨by decide, hskip, fun h => ?_⟩, by decide, hbody, fun h => ?_⟩
  · have hpre := h.parsed_initial
    rw [hskip] at hpre
    exact absurd hpre (by decide)
  · have hpre := h.parsed_initial
    rw [hbody] at hpre
    exact absurd hpre (by decide)

end Celeritas
