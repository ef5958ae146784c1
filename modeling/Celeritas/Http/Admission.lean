import Celeritas.Http.KeepAlive

/-!
# Which requests are admitted

`validate_request` makes four checks, one after the other, and `route_request` chooses the
handler by the status they leave. Two more places know the methods: the `Allow` headers of
`handle_error` and `handle_options`, which list three, and the mask of the last check, which
has a fourth. It is the only thing the three disagree about (`admits_iff`).
-/

set_option autoImplicit false

namespace Celeritas

open CLib

/-! ## `route_request` -/

/-- What `route_request` puts into `handler`. -/
inductive Handler
  | error
  | static
  deriving DecidableEq

/-- `route_request` -/
def routeRequest (statusCode : ℕ) : Handler := if statusCode ≥ 400 then .error else .static

def Handler.run (h : Handler) (env : Env) (statusCode : ℕ) (method : HttpMethod) (uri : Bytes) :
    Response :=
  match h with
  | .error => handleError env statusCode
  | .static => handleStatic env statusCode method uri

/-- The three steps of a worker. -/
theorem respond_eq_run (env : Env) (protocol : Protocol) (r : Http1Req) :
    (respond env protocol r).2 = (routeRequest (validateRequest protocol r).2).run env
      (validateRequest protocol r).2 (validateRequest protocol r).1 r.uri := by
  unfold respond routeRequest
  dsimp only
  split_ifs
  · rfl
  · rfl

/-! ## The methods -/

/-- The comparisons of `validate_request`. -/
def methods : List (Bytes × HttpMethod) :=
  [(lit "GET", .get), (lit "HEAD", .head), (lit "PUT", .put), (lit "DELETE", .delete),
    (lit "TRACE", .trace), (lit "POST", .post), (lit "OPTIONS", .options)]

/-- The value of the `Allow` headers. -/
def allow : Bytes := lit "GET, HEAD, OPTIONS"

/-- The chain of comparisons is a search. -/
theorem methodOf_eq (m : Bytes) :
    methodOf m = ((methods.find? fun e => strcmpEq e.1 m).map Prod.snd).getD .invalid := by
  unfold methodOf methods
  split_ifs <;> simp [*]

/-- A known method is its name. -/
theorem methodOf_cases (m : Bytes) :
    (∃ e ∈ methods, e.1 = cstr m ∧ methodOf m = e.2) ∨
      (cstr m ∉ methods.map Prod.fst ∧ methodOf m = .invalid) := by
  have hname : ∀ e ∈ methods, (strcmpEq e.1 m = true ↔ e.1 = cstr m) := by
    intro e he
    have hcstr : cstr e.1 = e.1 := (by decide : ∀ e ∈ methods, cstr e.1 = e.1) e he
    rw [strcmpEq, beq_iff_eq, hcstr]
  rw [methodOf_eq]
  cases hfind : methods.find? fun e => strcmpEq e.1 m with
  | some e =>
    have he := List.mem_of_find?_eq_some hfind
    have hm := List.find?_some hfind
    exact .inl ⟨e, he, (hname e he).mp hm, rfl⟩
  | none =>
    refine .inr ⟨fun hm => ?_, rfl⟩
    obtain ⟨e, he, hem⟩ := List.mem_map.mp hm
    exact List.find?_eq_none.mp hfind e he ((hname e he).mpr hem)

/-- A method the server knows. -/
def Known (r : Http1Req) : Prop := cstr r.method ∈ methods.map Prod.fst

/-- A method the server advertises. -/
def Listed (r : Http1Req) : Prop := cstr r.method ∈ tokens allow

def IsPut (r : Http1Req) : Prop := cstr r.method = lit "PUT"

theorem invalid_iff (r : Http1Req) : methodOf r.method = .invalid ↔ ¬ Known r := by
  rcases methodOf_cases r.method with ⟨e, he, hname, hm⟩ | ⟨hno, hm⟩
  · have hvalid : e.2 ≠ .invalid := (by decide : ∀ e ∈ methods, e.2 ≠ .invalid) e he
    have hknown : Known r := List.mem_map.mpr ⟨e, he, hname⟩
    rw [hm]
    exact iff_of_false hvalid (not_not_intro hknown)
  · exact iff_of_true hm hno

/-- **The mask is the advertised methods, and one more.** -/
theorem supported_iff (r : Http1Req) :
    (methodOf r.method).supported = true ↔ Listed r ∨ IsPut r := by
  have hmask : ∀ e ∈ methods,
      (e.2.supported = true ↔ e.1 ∈ tokens allow ∨ e.1 = lit "PUT") := by decide
  have hknown : ∀ m, m ∈ tokens allow ∨ m = lit "PUT" → m ∈ methods.map Prod.fst := by
    rintro m (hm | rfl)
    · exact (by decide : tokens allow ⊆ methods.map Prod.fst) hm
    · decide
  unfold Listed IsPut
  rcases methodOf_cases r.method with ⟨e, he, hname, hm⟩ | ⟨hno, hm⟩
  · rw [hm, ← hname]
    exact hmask e he
  · rw [hm]
    exact iff_of_false (by decide) fun h => hno (hknown _ h)

/-! ## The other checks -/

/-- The request names a host, or need not. -/
def HostNamed (protocol : Protocol) (r : Http1Req) : Prop :=
  protocol = .http10 ∨ ∃ h ∈ r.headers, EqIgnoringCase (cstr h.key) (lit "Host")

def Climbs (r : Http1Req) : Prop := lit ".." <:+: cstr r.uri

theorem hostNamed_iff (protocol : Protocol) (r : Http1Req) :
    ¬ (protocol ≠ .http10 ∧ ¬ confirmHeaderExists r (lit "Host") = true) ↔
      HostNamed protocol r := by
  have hkey : ∀ h : Header, strcasecmpEq h.key (lit "Host") = true ↔
      EqIgnoringCase (cstr h.key) (lit "Host") := by
    intro h
    have hcstr : cstr (lit "Host") = lit "Host" := by decide
    rw [strcasecmpEq, hcstr, beq_iff_eq]
    rfl
  simp only [HostNamed, confirmHeaderExists, List.any_eq_true, hkey, ne_eq, not_and_or, not_not]

theorem climbs_iff (r : Http1Req) : (strstr r.uri (lit "..")).isSome = true ↔ Climbs r :=
  isSome_indexOf

/-! ## Admission -/

variable (protocol : Protocol) (r : Http1Req)

open scoped Classical in
/-- **`validate_request`, by the first check that fails.** -/
theorem validateRequest_status : (validateRequest protocol r).2 =
    if ¬ Known r ∨ ¬ HostNamed protocol r then 400
    else if Climbs r then 403
    else if Listed r ∨ IsPut r then 200
    else 405 := by
  have hinvalid := invalid_iff r
  have hhost := hostNamed_iff protocol r
  have hclimbs := climbs_iff r
  have hmask := supported_iff r
  unfold validateRequest
  dsimp only
  by_cases hk : Known r
  swap
  · rw [if_pos (hinvalid.mpr hk), if_pos (.inl hk)]
  rw [if_neg fun h => hinvalid.mp h hk]
  by_cases hh : HostNamed protocol r
  swap
  · rw [if_pos (not_not.mp fun h => hh (hhost.mp h)), if_pos (.inr hh)]
  have hfine : ¬ (¬ Known r ∨ ¬ HostNamed protocol r) := by
    rintro (hn | hn)
    · exact hn hk
    · exact hn hh
  rw [if_neg (hhost.mpr hh), if_neg hfine]
  by_cases hc : Climbs r
  · rw [if_pos (hclimbs.mpr hc), if_pos hc]
  rw [if_neg (hclimbs.not.mpr hc), if_neg hc]
  by_cases hm : Listed r ∨ IsPut r
  · rw [if_neg (not_not.mpr (hmask.mpr hm)), if_pos hm]
  · rw [if_pos (hmask.not.mpr hm), if_neg hm]

/-- What the server advertises it can do. -/
def Admissible : Prop := Listed r ∧ HostNamed protocol r ∧ ¬ Climbs r

/-- The status of `validate_request`, and the handler `route_request` chooses by it. -/
def Admitted : Prop :=
  (validateRequest protocol r).2 = 200 ∧ routeRequest (validateRequest protocol r).2 = .static

def Refused (statusCode : ℕ) : Prop :=
  (validateRequest protocol r).2 = statusCode ∧
    routeRequest (validateRequest protocol r).2 = .error

/-- What is advertised is admitted, and everything else is refused, by the first check that
fails. -/
structure AdmitsAdvertised : Prop where
  admitted : Admitted protocol r ↔ Admissible protocol r
  bad : ¬ Known r ∨ ¬ HostNamed protocol r → Refused protocol r 400
  forbidden : Known r → HostNamed protocol r → Climbs r → Refused protocol r 403
  notAllowed : Known r → HostNamed protocol r → ¬ Climbs r → ¬ Listed r → Refused protocol r 405

variable {protocol r}

theorem refused_of_status {statusCode : ℕ} (h : (validateRequest protocol r).2 = statusCode)
    (hbad : 400 ≤ statusCode) : Refused protocol r statusCode := by
  refine ⟨h, ?_⟩
  rw [h, routeRequest, if_pos hbad]

theorem admitted_of_status (h : (validateRequest protocol r).2 = 200) : Admitted protocol r := by
  refine ⟨h, ?_⟩
  rw [h]
  rfl

theorem Listed.known (h : Listed r) : Known r :=
  (by decide : tokens allow ⊆ methods.map Prod.fst) h

theorem IsPut.known (h : IsPut r) : Known r := by
  rw [Known, h]
  decide

theorem IsPut.not_listed (h : IsPut r) : ¬ Listed r := by
  rw [Listed, h]
  decide

/-- **The server admits what it advertises, and nothing else, if and only if the request is
no `PUT` that passes the other checks.** -/
theorem admitsAdvertised_iff (protocol : Protocol) (r : Http1Req) :
    AdmitsAdvertised protocol r ↔ ¬ (IsPut r ∧ HostNamed protocol r ∧ ¬ Climbs r) := by
  have hstatus := validateRequest_status protocol r
  have hfine : Known r → HostNamed protocol r → ¬ (¬ Known r ∨ ¬ HostNamed protocol r) := by
    rintro hk hh (hn | hn)
    · exact hn hk
    · exact hn hh
  constructor
  · -- such a `PUT` passes the mask, and is not advertised
    rintro h ⟨hput, hh, hc⟩
    have hrefused := (h.notAllowed hput.known hh hc hput.not_listed).1
    rw [hstatus, if_neg (hfine hput.known hh), if_neg hc, if_pos (.inr hput)] at hrefused
    exact absurd hrefused (by decide)
  · intro hput
    refine ⟨⟨fun h => ?_, fun h => ?_⟩, fun hbad => ?_, fun hk hh hc => ?_, fun hk hh hc hl => ?_⟩
    · have hok := h.1
      rw [hstatus] at hok
      split_ifs at hok with hbad hc hm
      · exact absurd hok (by decide)
      · exact absurd hok (by decide)
      · have hh : HostNamed protocol r := not_not.mp (not_or.mp hbad).2
        exact ⟨hm.resolve_right fun hp => hput ⟨hp, hh, hc⟩, hh, hc⟩
      · exact absurd hok (by decide)
    · obtain ⟨hl, hh, hc⟩ := h
      rw [if_neg (hfine hl.known hh), if_neg hc, if_pos (.inl hl)] at hstatus
      exact admitted_of_status hstatus
    · rw [if_pos hbad] at hstatus
      exact refused_of_status hstatus (by decide)
    · rw [if_neg (hfine hk hh), if_pos hc] at hstatus
      exact refused_of_status hstatus (by decide)
    · have hmask : ¬ (Listed r ∨ IsPut r) := by
        rintro (hm | hp)
        · exact hl hm
        · exact hput ⟨hp, hh, hc⟩
      rw [if_neg (hfine hk hh), if_neg hc, if_neg hmask] at hstatus
      exact refused_of_status hstatus (by decide)

/-- It gets a status line and no header. -/
theorem putGetB_admitted :
    let i := (processIngress .http11 [.data putGetB.block]).1
    i.ok = true ∧ Admitted i.protocol i.req ∧ ¬ Listed i.req ∧
      (respond plainVisit.env i.protocol i.req).2.headers = [] ∧
      ¬ AdmitsAdvertised i.protocol i.req := by
  intro i
  have hadmitted : Admitted i.protocol i.req := ⟨by decide +kernel, by decide +kernel⟩
  have hlisted : ¬ Listed i.req := by
    unfold Listed
    decide +kernel
  refine ⟨by decide +kernel, hadmitted, hlisted, by decide +kernel, fun h => ?_⟩
  exact hlisted (h.admitted.mp hadmitted).1

/-! ## The `Allow` headers -/

theorem allow_handleError (env : Env) (st : ℕ) :
    ∀ v ∈ headerValues (handleError env st).headers (lit "Allow"), v = allow := by
  by_cases hst : st = 405
  · have hvalues : headerValues (handleError env st).headers (lit "Allow") = [allow] := by
      simp only [Response.headers, handleError, if_pos hst]
      rfl
    rw [hvalues, List.forall_mem_singleton]
  · have hvalues : headerValues (handleError env st).headers (lit "Allow") = [] := by
      simp only [Response.headers, handleError, if_neg hst]
      rfl
    rw [hvalues]
    exact List.forall_mem_nil _

/-- **The server never advertises other methods.** -/
theorem allow_of_respond (env : Env) (protocol : Protocol) (r : Http1Req) :
    ∀ v ∈ headerValues (respond env protocol r).2.headers (lit "Allow"), v = allow := by
  refine respond_cases (P := fun resp => ∀ v ∈ headerValues resp.headers (lit "Allow"), v = allow)
    env protocol r ?_ ?_ ?_ ?_
  · exact fun st _ => allow_handleError env st
  · intro method
    cases hst : (env.files (resolvePath (strncpy env.docRoot PATH_MAX) r.uri)).stat with
    | none =>
      simp only [handleGetHead, hst]
      exact allow_handleError env 404
    | some st =>
      have hvalues : headerValues (handleGetHead env 200 method r.uri).headers (lit "Allow") =
          [] := by
        simp only [handleGetHead, hst, Response.headers]
        rfl
      rw [hvalues]
      exact List.forall_mem_nil _
  · have hvalues : headerValues (handleOptions env 200).headers (lit "Allow") = [allow] := rfl
    rw [hvalues, List.forall_mem_singleton]
  · exact List.forall_mem_nil _

end Celeritas
