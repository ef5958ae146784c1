import Celeritas.Http.Response

/-!
# Response framing

A kept-alive client finds the end of a response by its `Content-Length`. The handlers write
that header from what `stat` said, as an `int`, and attach the body afterwards; `handle_put`
writes none. `Framed` is what the client needs, `Sized` is when it gets it, in terms of the
request's method and of what the file system answers (`framed_iff_sized`).
-/

set_option autoImplicit false

namespace Celeritas

open CLib

/-- The values of the `Content-Length` headers. -/
def contentLengths (headers : List Header) : List Bytes :=
  (headers.filter fun h => strcasecmpEq h.key (lit "Content-Length")).map Header.value

/-- One `Content-Length`, a length, and for `GET` the number of body bytes offered. -/
def Framed (method : HttpMethod) (resp : Response) : Prop :=
  ∃ n : ℕ, contentLengths resp.headers = [decimalNat n] ∧
    (method = .get → n = bodyOffered method resp)

/-- What the file system has to answer for a method. -/
def Sized (method : HttpMethod) (file : FileOutcome) : Prop :=
  match method, file.stat with
  | .get, some (size, _) =>
    (size = 0 ∨ (file.opens ∧ file.maps) → size ≤ intMax) ∧
      (¬ (size = 0 ∨ (file.opens ∧ file.maps)) → size % 2 ^ 32 = 0)
  | .head, some (size, _) => size % 2 ^ 32 ≤ intMax
  | .options, _ => True
  | _, _ => False

/-- The file a request is about. -/
def requestedFile (env : Env) (r : Http1Req) : FileOutcome :=
  env.files (resolvePath (strncpy env.docRoot PATH_MAX) r.uri)

/-! ## The headers that are written -/

/-- The text of an `int` fits the buffer of `int_to_string`. -/
theorem intToString_eq {i : ℤ} (hlo : -2 ^ 31 ≤ i) (hhi : i < 2 ^ 31) :
    intToString i = decimal i := by
  have h := length_decimal_le hlo hhi
  exact List.take_of_length_le (by omega)

theorem strncpy_intToString {i : ℤ} (hlo : -2 ^ 31 ≤ i) (hhi : i < 2 ^ 31) :
    strncpy (intToString i) 4096 = decimal i := by
  have h := length_decimal_le hlo hhi
  rw [strncpy, intToString_eq hlo hhi, cstr_eq_self (zero_not_mem_decimal i)]
  exact List.take_of_length_le (by omega)

theorem intOfSize_bounds (n : ℕ) : -2 ^ 31 ≤ intOfSize n ∧ intOfSize n < 2 ^ 31 := by
  unfold intOfSize
  constructor
  · exact (Int.le_bmod (by decide))
  · exact (Int.bmod_lt (by decide))

/-- A size comes back from the narrowing as a length exactly if its low half is one. -/
theorem intOfSize_eq_natCast_iff {size n : ℕ} :
    intOfSize size = n ↔ n = size % 2 ^ 32 ∧ n ≤ intMax := by
  unfold intOfSize intMax
  rw [Int.bmod_def]
  split <;> omega

/-- A header with another name is none. -/
theorem contentLengths_cons_add {name value : Bytes} {ops : List HeaderOp}
    (h : strcasecmpEq (strncpy name 128) (lit "Content-Length") = false) :
    contentLengths ((HeaderOp.add name value :: ops).map HeaderOp.header) =
      contentLengths (ops.map HeaderOp.header) := by
  have hkey : ¬ strcasecmpEq (HeaderOp.add name value).header.key (lit "Content-Length") = true :=
    Bool.eq_false_iff.mp h
  simp only [contentLengths, List.map_cons, List.filter_cons, if_neg hkey]

theorem contentLengths_cons_addInt {i : ℤ} {ops : List HeaderOp} (hlo : -2 ^ 31 ≤ i)
    (hhi : i < 2 ^ 31) :
    contentLengths ((HeaderOp.addInt (lit "Content-Length") i :: ops).map HeaderOp.header) =
      decimal i :: contentLengths (ops.map HeaderOp.header) := by
  have hkey : strcasecmpEq (strncpy (lit "Content-Length") 128) (lit "Content-Length") = true := by
    decide
  simp only [contentLengths, List.map_cons, List.filter_cons, HeaderOp.header, respAddHeader,
    strncpy_intToString hlo hhi, hkey, if_true]

theorem contentLengths_handleOptions (env : Env) (st : ℕ) :
    contentLengths (handleOptions env st).headers = [decimalNat 0] := by
  rw [Response.headers, handleOptions, commonHeaders, List.cons_append, List.cons_append,
    List.nil_append, contentLengths_cons_add (by decide), contentLengths_cons_add (by decide),
    contentLengths_cons_add (by decide), contentLengths_cons_add (by decide),
    contentLengths_cons_addInt (by decide) (by decide), contentLengths_cons_add (by decide)]
  rfl

theorem contentLengths_handleGetHead {env : Env} {st size : ℕ} {method : HttpMethod}
    {uri lastMod : Bytes}
    (h : (env.files (resolvePath (strncpy env.docRoot PATH_MAX) uri)).stat = some (size, lastMod)) :
    contentLengths (handleGetHead env st method uri).headers = [decimal (intOfSize size)] := by
  obtain ⟨hlo, hhi⟩ := intOfSize_bounds size
  simp only [Response.headers, handleGetHead, h, commonHeaders, List.cons_append, List.nil_append]
  rw [contentLengths_cons_add (by decide), contentLengths_cons_add (by decide),
    contentLengths_cons_add (by decide), contentLengths_cons_add (by decide),
    contentLengths_cons_addInt hlo hhi, contentLengths_cons_add (by decide),
    contentLengths_cons_add (by decide)]
  rfl

/-- `handle_error` says that it closes. -/
theorem shouldKeepAlive_handleError (env : Env) (st : ℕ) (protocol : Protocol) (r : Http1Req) :
    shouldKeepAlive protocol r (handleError env st).headers = false := by
  have hmem : respAddHeader (lit "Connection") (lit "close") ∈ (handleError env st).headers := by
    refine List.mem_map.mpr ⟨.add (lit "Connection") (lit "close"), ?_, rfl⟩
    simp [handleError]
  have hany : ((handleError env st).headers.any fun h =>
      strcasecmpEq h.key (lit "Connection") && strcasecmpEq h.value (lit "close")) = true :=
    List.any_eq_true.mpr ⟨_, hmem, by decide⟩
  simp only [shouldKeepAlive, hany, if_true, ite_self]

/-! ## Framing -/

theorem validateRequest_cases (protocol : Protocol) (r : Http1Req) :
    400 ≤ (validateRequest protocol r).2 ∨
      ((validateRequest protocol r).2 = 200 ∧ (validateRequest protocol r).1.supported = true) := by
  unfold validateRequest
  simp only
  split_ifs with h₁ h₂ h₃ h₄
  · exact .inl le_rfl
  · exact .inl le_rfl
  · exact .inl (Nat.le_add_right 400 3)
  · exact .inr ⟨rfl, h₄⟩
  · exact .inl (Nat.le_add_right 400 5)

theorem validateRequest_le (protocol : Protocol) (r : Http1Req) :
    (validateRequest protocol r).2 ≤ 405 := by
  unfold validateRequest
  dsimp only
  split_ifs
  all_goals
    dsimp only
    omega

/-- What holds of all that the handlers leave holds of every response. -/
theorem respond_cases {P : Response → Prop} (env : Env) (protocol : Protocol) (r : Http1Req)
    (herror : ∀ st ≤ 405, P (handleError env st))
    (hgetHead : ∀ method, P (handleGetHead env 200 method r.uri))
    (hoptions : P (handleOptions env 200)) (hput : P (handlePut 200)) :
    P (respond env protocol r).2 := by
  rcases validateRequest_cases protocol r with hbad | ⟨hok, hsupported⟩
  · simp only [respond, ge_iff_le, if_pos hbad]
    exact herror _ (validateRequest_le protocol r)
  simp only [respond, hok]
  cases hm : (validateRequest protocol r).1 with
  | get => exact hgetHead .get
  | head => exact hgetHead .head
  | options => exact hoptions
  | put => exact hput
  | _ => rw [hm] at hsupported; exact absurd hsupported (by decide)

/-- The body of a `GET` is offered whole, or not at all. -/
theorem bodyOffered_handleGetHead {env : Env} {st size : ℕ} {uri lastMod : Bytes}
    (h : (env.files (resolvePath (strncpy env.docRoot PATH_MAX) uri)).stat = some (size, lastMod)) :
    bodyOffered .get (handleGetHead env st .get uri) =
      if size = 0 ∨ ((env.files (resolvePath (strncpy env.docRoot PATH_MAX) uri)).opens ∧
        (env.files (resolvePath (strncpy env.docRoot PATH_MAX) uri)).maps) then size else 0 := by
  generalize hf : env.files (resolvePath (strncpy env.docRoot PATH_MAX) uri) = file at h
  rcases Nat.eq_zero_or_pos size with rfl | hpos
  · simp [bodyOffered, handleGetHead, hf, h]
  · cases ho : file.opens <;> cases hm : file.maps <;>
      simp [bodyOffered, handleGetHead, respMapFileToCtx, hf, h, ho, hm, hpos, hpos.ne']

theorem framed_iff_of_length {method : HttpMethod} {resp : Response} {size : ℕ}
    (h : contentLengths resp.headers = [decimal (intOfSize size)]) :
    Framed method resp ↔ size % 2 ^ 32 ≤ intMax ∧
      (method = .get → size % 2 ^ 32 = bodyOffered method resp) := by
  unfold Framed
  rw [h]
  constructor
  · rintro ⟨n, hn, hget⟩
    have hdec : decimal (intOfSize size) = decimal n := (List.cons.inj hn).1
    obtain ⟨rfl, hle⟩ := intOfSize_eq_natCast_iff.mp (decimal_injective hdec)
    exact ⟨hle, hget⟩
  · rintro ⟨hle, hget⟩
    refine ⟨size % 2 ^ 32, ?_, hget⟩
    rw [intOfSize_eq_natCast_iff.mpr ⟨rfl, hle⟩]
    rfl

theorem framed_handleGetHead_iff {env : Env} {st : ℕ} {method : HttpMethod} {r : Http1Req}
    (hm : method = .get ∨ method = .head) (hstat : (requestedFile env r).stat ≠ none) :
    Framed method (handleGetHead env st method r.uri) ↔ Sized method (requestedFile env r) := by
  obtain ⟨⟨size, lastMod⟩, hs⟩ := Option.ne_none_iff_exists'.mp hstat
  rw [framed_iff_of_length (contentLengths_handleGetHead hs)]
  rcases hm with rfl | rfl
  · rw [bodyOffered_handleGetHead hs]
    simp only [Sized, requestedFile] at hs ⊢
    simp only [hs, forall_const]
    have hmax : intMax < 2 ^ 32 := by decide
    split_ifs with hmap
    · constructor
      · rintro ⟨hle, hmod⟩
        exact ⟨fun _ => hmod ▸ hle, fun hn => absurd hmap hn⟩
      · rintro ⟨hle, _⟩
        have hmod := Nat.mod_eq_of_lt ((hle hmap).trans_lt hmax)
        exact ⟨hmod.symm ▸ hle hmap, hmod⟩
    · constructor
      · rintro ⟨_, hmod⟩
        exact ⟨fun hp => absurd hp hmap, fun _ => hmod⟩
      · rintro ⟨_, hmod⟩
        exact ⟨(hmod hmap).symm ▸ Nat.zero_le _, hmod hmap⟩
  · simp only [Sized, requestedFile] at hs ⊢
    simp only [hs, reduceCtorEq, false_implies, and_true]

/-- **A response after which the connection is kept open is framed if and only if the file
system's answers suit the method**, and the method is not `PUT`. -/
theorem framed_iff_sized (env : Env) (protocol : Protocol) (r : Http1Req)
    (h : shouldKeepAlive protocol r (respond env protocol r).2.headers = true) :
    Framed (respond env protocol r).1 (respond env protocol r).2 ↔
      Sized (respond env protocol r).1 (requestedFile env r) := by
  have hclose : ∀ st, (respond env protocol r).2 ≠ handleError env st := by
    intro st he
    rw [he, shouldKeepAlive_handleError] at h
    exact absurd h (by simp)
  rcases validateRequest_cases protocol r with hst | ⟨hst, hsup⟩
  · refine absurd ?_ (hclose (validateRequest protocol r).2)
    simp only [respond, if_pos hst]
  · have hresp : (respond env protocol r).2 =
        handleStatic env 200 (respond env protocol r).1 r.uri := by
      simp only [respond, hst]
      rfl
    have hmeth : (respond env protocol r).1 = (validateRequest protocol r).1 := rfl
    rw [← hmeth] at hsup
    rw [hresp] at hclose ⊢
    generalize (respond env protocol r).1 = method at hsup hclose ⊢
    have hstat : method = .get ∨ method = .head → (requestedFile env r).stat ≠ none := by
      rintro hm hnone
      apply hclose 404
      rcases hm with rfl | rfl <;>
        simp only [handleStatic, handleGetHead, ← requestedFile.eq_1, hnone]
    cases method with
    | get => exact framed_handleGetHead_iff (.inl rfl) (hstat (.inl rfl))
    | head => exact framed_handleGetHead_iff (.inr rfl) (hstat (.inr rfl))
    | options =>
      refine iff_of_true ⟨0, contentLengths_handleOptions env 200, fun hg => ?_⟩ ?_
      · exact absurd hg (by simp)
      · simp only [Sized]
    | put =>
      refine iff_of_false (fun ⟨n, hn, _⟩ => ?_) ?_
      · rw [show contentLengths (handleStatic env 200 .put r.uri).headers = [] from rfl] at hn
        exact absurd hn (by simp)
      · simp only [Sized, not_false_eq_true]
    | _ => exact absurd hsup (by decide)

/-! ## A directory

`stat` and `open` succeed on a directory, `mmap` does not. -/

def directoryEnv : Env where
  docRoot := lit "/srv"
  serverTok := lit "celeritas"
  dateNow := lit "Thu, 01 Jan 1970 00:00:00 GMT"
  files _ := ⟨some (4096, lit "Thu, 01 Jan 1970 00:00:00 GMT"), true, false⟩

def getDirectory : Http1Req := parseFields (lit "GET /sub HTTP/1.1\r\nHost: h\r\n\r\n")

theorem framed_iff_sized_directory :
    shouldKeepAlive .http11 getDirectory (respond directoryEnv .http11 getDirectory).2.headers =
        true ∧
      (Framed (respond directoryEnv .http11 getDirectory).1
          (respond directoryEnv .http11 getDirectory).2 ↔
        Sized (respond directoryEnv .http11 getDirectory).1
          (requestedFile directoryEnv getDirectory)) :=
  ⟨by decide, framed_iff_sized directoryEnv .http11 getDirectory (by decide)⟩

/-- The response promises 4096 bytes and offers none, and the connection is kept open. -/
theorem directory_not_framed :
    shouldKeepAlive .http11 getDirectory (respond directoryEnv .http11 getDirectory).2.headers =
        true ∧
      contentLengths (respond directoryEnv .http11 getDirectory).2.headers = [decimalNat 4096] ∧
      bodyOffered (respond directoryEnv .http11 getDirectory).1
        (respond directoryEnv .http11 getDirectory).2 = 0 ∧
      ¬ Framed (respond directoryEnv .http11 getDirectory).1
        (respond directoryEnv .http11 getDirectory).2 := by
  have hlen : contentLengths (respond directoryEnv .http11 getDirectory).2.headers =
      [decimalNat 4096] := by decide
  have hbody : bodyOffered (respond directoryEnv .http11 getDirectory).1
      (respond directoryEnv .http11 getDirectory).2 = 0 := by decide
  have hget : (respond directoryEnv .http11 getDirectory).1 = .get := by decide
  refine ⟨by decide, hlen, hbody, ?_⟩
  rintro ⟨n, hn, heq⟩
  rw [hlen] at hn
  have hn' : 4096 = n := decimalNat_injective (List.cons.inj hn).1
  rw [heq hget, hbody] at hn'
  exact absurd hn' (by decide)

end Celeritas
