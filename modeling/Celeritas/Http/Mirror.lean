import Celeritas.Http.Build
import Celeritas.Http.Pipeline

/-!
# `HEAD` mirrors `GET`

Two runs of the pipeline, for two requests that differ in the method. What the method does
steer is the mapping of the file and the sending of the body. Neither is seen in the status
or in the calls of `resp_add_header` (`sameHead_handleGetHead`), on which the rest depends.
-/

set_option autoImplicit false

namespace Celeritas

open CLib

/-- A `GET`, and the same request as a `HEAD`. -/
structure Mirrored (g h : Http1Req) : Prop where
  get : strcmpEq (lit "GET") g.method = true
  head : strcmpEq (lit "HEAD") h.method = true
  rest : { g with method := h.method } = h

/-- Two responses that a client cannot tell apart before the body. -/
structure SameHead (a b : Response) : Prop where
  statusCode : a.statusCode = b.statusCode
  ops : a.ops = b.ops

theorem SameHead.refl (a : Response) : SameHead a a := ⟨rfl, rfl⟩

theorem SameHead.headers {a b : Response} (h : SameHead a b) : a.headers = b.headers := by
  rw [Response.headers, h.ops, Response.headers]

/-- `handle_get_head` writes the same head for either method, whether the file is missing,
is empty, cannot be opened or cannot be mapped. -/
theorem sameHead_handleGetHead (env : Env) (statusCode : ℕ) (m m' : HttpMethod) (uri : Bytes) :
    SameHead (handleGetHead env statusCode m uri) (handleGetHead env statusCode m' uri) := by
  cases hst : (env.files (resolvePath (strncpy env.docRoot PATH_MAX) uri)).stat with
  | none =>
    simp only [handleGetHead, hst]
    exact SameHead.refl _
  | some st =>
    simp only [handleGetHead, hst]
    exact ⟨rfl, rfl⟩

section

variable {g h : Http1Req} (hm : Mirrored g h)
include hm

theorem Mirrored.uri : h.uri = g.uri := by rw [← hm.rest]

theorem Mirrored.confirmHeaderExists (key : Bytes) :
    confirmHeaderExists h key = confirmHeaderExists g key := by
  rw [← hm.rest]
  rfl

theorem Mirrored.methodOf_get : methodOf g.method = .get := by
  rw [methodOf, if_pos hm.get]

theorem Mirrored.methodOf_head : methodOf h.method = .head := by
  have hne : ¬ strcmpEq (lit "GET") h.method = true := by
    intro hget
    have hhead := hm.head
    rw [strcmpEq, beq_iff_eq] at hget hhead
    exact absurd (hget.trans hhead.symm) (by decide)
  rw [methodOf, if_neg hne, if_pos hm.head]

/-- The checks of `validate_request` are the same for both. -/
theorem Mirrored.validateRequest (protocol : Protocol) :
    (validateRequest protocol g).1 = .get ∧ (validateRequest protocol h).1 = .head ∧
      (validateRequest protocol h).2 = (validateRequest protocol g).2 := by
  unfold Celeritas.validateRequest
  rw [hm.methodOf_get, hm.methodOf_head, hm.uri, hm.confirmHeaderExists]
  -- both methods are known and in the mask; the other checks do not look at the method
  simp only [reduceCtorEq, if_false, HttpMethod.supported, not_true_eq_false]
  split_ifs
  all_goals exact ⟨rfl, rfl, rfl⟩

theorem Mirrored.sameHead_respond (env : Env) (protocol : Protocol) :
    SameHead (respond env protocol h).2 (respond env protocol g).2 := by
  obtain ⟨hget, hhead, hstatus⟩ := hm.validateRequest protocol
  simp only [respond, hget, hhead, hstatus, hm.uri, handleStatic]
  split
  · exact SameHead.refl _
  · exact sameHead_handleGetHead env _ .head .get g.uri

theorem Mirrored.shouldKeepAlive (protocol : Protocol) (headers : List Header) :
    shouldKeepAlive protocol h headers = shouldKeepAlive protocol g headers := by
  rw [← hm.rest]
  rfl

end

/-- For a `HEAD`, `send_response` sends a part of the header block, whatever body the handler
attached. -/
theorem sendResponse_head (tls : Bool) (statusCode : ℕ) (headers : List Header)
    (bodyData : Option Bytes) (w w' : SysWrite) :
    (sendResponse tls statusCode headers .head bodyData w w').accepted <+:
      respBuildResponse statusCode headers := by
  have hbody : bodyToSend .head bodyData = none := by simp [bodyToSend]
  unfold sendResponse
  simp only [hbody]
  split
  · exact List.nil_prefix
  · exact List.take_prefix _ _

/-- What a client sees of a `HEAD` is what it sees of the `GET`, without the body. -/
structure Mirrors (env : Env) (protocol : Protocol) (g h : Http1Req) : Prop where
  statusCode : (respond env protocol h).2.statusCode = (respond env protocol g).2.statusCode
  headers : (respond env protocol h).2.headers = (respond env protocol g).2.headers
  block : ∀ buf : Bytes,
    respBuildResponseInto (respond env protocol h).2.statusCode (respond env protocol h).2.headers
        buf =
      respBuildResponseInto (respond env protocol g).2.statusCode (respond env protocol g).2.headers
        buf
  keepAlive : shouldKeepAlive protocol h (respond env protocol h).2.headers =
    shouldKeepAlive protocol g (respond env protocol g).2.headers
  noBody : ∀ tls bodyData w w',
    (sendResponse tls (respond env protocol h).2.statusCode (respond env protocol h).2.headers
        (respond env protocol h).1 bodyData w w').accepted <+:
      respBuildResponse (respond env protocol h).2.statusCode (respond env protocol h).2.headers

/-- **`HEAD` mirrors `GET`.** -/
theorem head_mirrors_get (env : Env) (protocol : Protocol) {g h : Http1Req}
    (hm : Mirrored g h) : Mirrors env protocol g h := by
  have hsame := hm.sameHead_respond env protocol
  refine ⟨hsame.statusCode, hsame.headers, fun buf => ?_, ?_, fun tls bodyData w w' => ?_⟩
  · rw [hsame.statusCode, hsame.headers]
  · rw [hm.shouldKeepAlive, hsame.headers]
  · have hhead : (respond env protocol h).1 = .head := (hm.validateRequest protocol).2.1
    rw [hhead]
    exact sendResponse_head tls _ _ bodyData w w'

/-- The request of `getA`, as a `HEAD`. -/
def headA : Bytes := lit "HEAD /a HTTP/1.1\r\nHost: h\r\n\r\n"

theorem head_mirrors_get_headA :
    Mirrors plainVisit.env .http11 (parseFields getA.block) (parseFields headA) :=
  head_mirrors_get plainVisit.env .http11
    ⟨by decide +kernel, by decide +kernel, by decide +kernel⟩

end Celeritas
