import Celeritas.Http.Grammar

/-!
# The document root

What `handle_get_head` passes to `stat`, for a request of any client: a path that starts with
the document root, with no `..` behind it. The path is put together from strings without
two full stops in a row, and the places where they meet are the only ones to look at
(`not_infix_append`).
-/

set_option autoImplicit false

namespace Celeritas

open CLib

/-! ## Two full stops in a row -/

/-- Where two texts meet a pair of equal bytes comes about only if the second starts with
one. -/
theorem not_infix_append {c : UInt8} {a b : Bytes} (ha : ¬ [c, c] <:+: a) (hb : ¬ [c, c] <:+: b)
    (hhead : b.head? ≠ some c) : ¬ [c, c] <:+: a ++ b := by
  induction a with
  | nil => exact hb
  | cons x a ih =>
    have ha' : ¬ [c, c] <:+: a := by
      intro h
      exact ha (List.infix_cons h)
    rw [List.cons_append, List.infix_cons_iff]
    rintro (hpre | hin)
    · obtain ⟨hx, hrest⟩ := List.cons_prefix_cons.mp hpre
      cases a with
      | nil =>
        obtain ⟨t, ht⟩ := hrest
        exact hhead (by rw [← List.nil_append b, ← ht]; rfl)
      | cons y a =>
        have hy : c = y := (List.cons_prefix_cons.mp hrest).1
        refine ha (List.IsPrefix.isInfix ?_)
        rw [← hx, ← hy]
        exact ⟨a, rfl⟩
    · exact ih ha' hin

theorem dots_eq : lit ".." = [charByte '.', charByte '.'] := by decide

/-! ## `resolve_path` -/

/-- Text without a NUL and without two full stops in a row. -/
def Plain (s : Bytes) : Prop := 0 ∉ s ∧ ¬ [charByte '.', charByte '.'] <:+: s

theorem Plain.of_infix {s t : Bytes} (h : Plain s) (hin : t <:+: s) : Plain t :=
  ⟨fun hm => h.1 (hin.subset hm), fun hd => h.2 (hd.trans hin)⟩

theorem Plain.slash {s : Bytes} (h : Plain s) : Plain (charByte '/' :: s) := by
  refine ⟨?_, ?_⟩
  · rw [List.mem_cons, not_or]
    exact ⟨by decide, h.1⟩
  · rw [List.infix_cons_iff]
    rintro (hpre | hin)
    · exact absurd (List.cons_prefix_cons.mp hpre).1 (by decide)
    · exact h.2 hin

/-- The URI with one slash, as it is put behind the document root. -/
theorem resolvePath_text (docRoot : Bytes) {uri : Bytes} (huri : Plain uri) : ∃ s : Bytes,
    Plain s ∧ resolvePath docRoot uri =
      (let path := snprintfStored PATH_MAX (docRoot ++ s)
      if path.getLast? = some (charByte '/') then
        path ++ (lit "index.html").take (PATH_MAX - path.length - 1)
      else path) := by
  unfold resolvePath
  by_cases hboth : docRoot.getLast? = some (charByte '/') ∧ uri.head? = some (charByte '/')
  · refine ⟨uri.tail, huri.of_infix (List.tail_suffix _).isInfix, ?_⟩
    simp only [if_pos hboth]
  by_cases hnone : ¬ docRoot.getLast? = some (charByte '/') ∧ ¬ uri.head? = some (charByte '/')
  · refine ⟨charByte '/' :: uri, huri.slash, ?_⟩
    simp only [if_neg hboth, if_pos hnone, List.append_assoc]
    rfl
  · refine ⟨uri, huri, ?_⟩
    simp only [if_neg hboth, if_neg hnone]

/-- Any part of the index's name. -/
theorem take_index (n : ℕ) : Plain ((lit "index.html").take n) ∧
    ((lit "index.html").take n).head? ≠ some (charByte '.') := by
  have hindex : Plain (lit "index.html") := ⟨by decide, by decide⟩
  refine ⟨hindex.of_infix (List.take_prefix _ _).isInfix, ?_⟩
  cases n with
  | zero => simp
  | succ n => simp [lit, charByte, String.utf8EncodeChar]

/-- **The path stays under the document root**, whether a slash is put in, kept or left out,
an index is appended or the end is cut off. -/
theorem resolvePath_under {docRoot uri : Bytes} (hlen : docRoot.length ≤ PATH_MAX - 1)
    (hroot : 0 ∉ docRoot) (huri : 0 ∉ uri) (hdots : ¬ lit ".." <:+: uri) :
    docRoot <+: resolvePath docRoot uri ∧ (resolvePath docRoot uri).length ≤ PATH_MAX - 1 ∧
      0 ∉ resolvePath docRoot uri ∧
      ¬ lit ".." <:+: (resolvePath docRoot uri).drop docRoot.length := by
  rw [dots_eq] at hdots ⊢
  obtain ⟨s, hs, hpath⟩ := resolvePath_text docRoot ⟨huri, hdots⟩
  -- the cut leaves the root whole, and of the rest a part
  have hcut : snprintfStored PATH_MAX (docRoot ++ s) =
      docRoot ++ s.take (PATH_MAX - 1 - docRoot.length) := by
    rw [snprintfStored, List.take_append, List.take_of_length_le hlen]
  have hrest : Plain (s.take (PATH_MAX - 1 - docRoot.length)) :=
    hs.of_infix (List.take_prefix _ _).isInfix
  have hcutlen : (docRoot ++ s.take (PATH_MAX - 1 - docRoot.length)).length ≤ PATH_MAX - 1 := by
    rw [List.length_append, List.length_take]
    omega
  simp only [hcut] at hpath
  rw [hpath]
  split_ifs
  · obtain ⟨hindex, hhead⟩ := take_index (PATH_MAX -
      (docRoot ++ s.take (PATH_MAX - 1 - docRoot.length)).length - 1)
    refine ⟨?_, ?_, ?_, ?_⟩
    · rw [List.append_assoc]
      exact List.prefix_append _ _
    · rw [List.length_append, List.length_take]
      omega
    · exact List.not_mem_append (List.not_mem_append hroot hrest.1) hindex.1
    · rw [List.append_assoc, List.drop_left]
      exact not_infix_append hrest.2 hindex.2 hhead
  · refine ⟨List.prefix_append _ _, hcutlen, List.not_mem_append hroot hrest.1, ?_⟩
    rw [List.drop_left]
    exact hrest.2

/-! ## From the socket to `stat` -/

/-- `validate_request`, `route_request` and `handle_static` come to `handle_get_head`. -/
def SentToGetHead (protocol : Protocol) (r : Http1Req) : Prop :=
  (validateRequest protocol r).2 < 400 ∧
    ((validateRequest protocol r).1 = .get ∨ (validateRequest protocol r).1 = .head)

/-- The path `handle_get_head` passes to `stat`. -/
def statPath (env : Env) (r : Http1Req) : Bytes :=
  resolvePath (strncpy env.docRoot PATH_MAX) r.uri

theorem respond_of_sentToGetHead {env : Env} {protocol : Protocol} {r : Http1Req}
    (h : SentToGetHead protocol r) : (respond env protocol r).2 =
      handleGetHead env (validateRequest protocol r).2 (validateRequest protocol r).1 r.uri := by
  obtain ⟨hstatus, hmethod⟩ := h
  simp only [respond, ge_iff_le, if_neg (Nat.not_le.mpr hstatus)]
  rcases hmethod with hm | hm
  · rw [hm, handleStatic]
  · rw [hm, handleStatic]

/-- The check of `validate_request`. -/
theorem dots_not_infix_of_validated {protocol : Protocol} {r : Http1Req}
    (h : (validateRequest protocol r).2 < 400) (h0 : 0 ∉ r.uri) : ¬ lit ".." <:+: r.uri := by
  intro hin
  have hfound : (strstr r.uri (lit "..")).isSome = true := (isSome_strstr h0).mpr hin
  simp only [validateRequest, hfound, if_true] at h
  split_ifs at h
  all_goals exact absurd h (by simp)

/-- **No request escapes the document root.** -/
theorem statPath_under_docRoot (protocol : Protocol) (evs : List SockEvent) (env : Env)
    (hlen : env.docRoot.length ≤ PATH_MAX - 1) (hroot : 0 ∉ env.docRoot)
    (hok : (processIngress protocol evs).1.ok = true)
    (hsent : SentToGetHead (processIngress protocol evs).1.protocol
      (processIngress protocol evs).1.req) :
    env.docRoot <+: statPath env (processIngress protocol evs).1.req ∧
      (statPath env (processIngress protocol evs).1.req).length < PATH_MAX ∧
      0 ∉ statPath env (processIngress protocol evs).1.req ∧
      ¬ lit ".." <:+:
        (statPath env (processIngress protocol evs).1.req).drop env.docRoot.length := by
  obtain ⟨block, hblock, hparse⟩ := parseBlock_of_ok hok
  have huri : 0 ∉ (processIngress protocol evs).1.req.uri := by
    rw [hparse, parseBlock_eq, (parseFields_method_uri block).2]
    intro hm
    have hraw := (List.takeWhile_sublist _).subset (List.mem_of_mem_take hm)
    exact hblock ((List.dropWhile_sublist _).subset (List.mem_of_mem_tail hraw))
  have hdocRoot : strncpy env.docRoot PATH_MAX = env.docRoot := by
    rw [strncpy, cstr_eq_self hroot, List.take_of_length_le (hlen.trans (Nat.sub_le _ _))]
  have hdots := dots_not_infix_of_validated hsent.1 huri
  obtain ⟨hpre, hle, h0, hno⟩ := resolvePath_under hlen hroot huri hdots
  rw [statPath, hdocRoot]
  exact ⟨hpre, Nat.lt_of_le_of_lt hle (by decide), h0, hno⟩

/-- The request of a directory. -/
def getDir : List SockEvent := [.data (lit "GET /a/ HTTP/1.1\r\nHost: h\r\n\r\n")]

theorem statPath_under_docRoot_getDir :
    SentToGetHead (processIngress .unknown getDir).1.protocol (processIngress .unknown getDir).1.req ∧
      plainVisit.env.docRoot <+: statPath plainVisit.env (processIngress .unknown getDir).1.req := by
  have hsent : SentToGetHead (processIngress .unknown getDir).1.protocol
      (processIngress .unknown getDir).1.req := ⟨by decide, by decide⟩
  exact ⟨hsent, (statPath_under_docRoot .unknown getDir plainVisit.env (by decide) (by decide)
    (by decide) hsent).1⟩

/-! ## The file that was asked for

The path is put together in a buffer of `PATH_MAX` bytes, and what does not fit is left out
without a word. -/

/-- A document root and a URI with one slash between them. -/
def joined (docRoot uri : Bytes) : Bytes :=
  (if docRoot.getLast? = some (charByte '/') then docRoot.dropLast else docRoot) ++
    charByte '/' :: (if uri.head? = some (charByte '/') then uri.tail else uri)

/-- The path of the file that a URI asks for. -/
def requestedPath (docRoot uri : Bytes) : Bytes :=
  joined docRoot uri ++
    if (joined docRoot uri).getLast? = some (charByte '/') then lit "index.html" else []

theorem resolvePath_joined (docRoot uri : Bytes) :
    resolvePath docRoot uri =
      (let path := snprintfStored PATH_MAX (joined docRoot uri)
      if path.getLast? = some (charByte '/') then
        path ++ (lit "index.html").take (PATH_MAX - path.length - 1)
      else path) := by
  have hslash : lit "/" = [charByte '/'] := by decide
  have hroot : ∀ {l : Bytes}, l.getLast? = some (charByte '/') →
      l.dropLast ++ [charByte '/'] = l := by
    intro l hl
    obtain ⟨init, rfl⟩ := List.getLast?_eq_some_iff.mp hl
    rw [List.dropLast_concat]
  have huri : ∀ {l : Bytes}, l.head? = some (charByte '/') → charByte '/' :: l.tail = l := by
    intro l hl
    obtain ⟨tail, rfl⟩ := List.head?_eq_some_iff.mp hl
    rfl
  have htext : (if docRoot.getLast? = some (charByte '/') ∧ uri.head? = some (charByte '/') then
        docRoot ++ uri.tail
      else if ¬ docRoot.getLast? = some (charByte '/') ∧ ¬ uri.head? = some (charByte '/') then
        docRoot ++ lit "/" ++ uri
      else docRoot ++ uri) = joined docRoot uri := by
    unfold joined
    by_cases hr : docRoot.getLast? = some (charByte '/')
    · by_cases hu : uri.head? = some (charByte '/')
      · simp only [hr, hu, and_self, if_true]
        rw [List.append_cons, hroot hr]
      · simp only [hr, hu, and_false, not_true_eq_false, false_and, if_true, if_false]
        rw [List.append_cons, hroot hr]
    · by_cases hu : uri.head? = some (charByte '/')
      · simp only [hr, hu, false_and, and_false, not_true_eq_false, if_true, if_false, huri hu]
      · simp only [hr, hu, and_self, not_false_eq_true, if_true, if_false, hslash,
          List.append_assoc, List.singleton_append]
  rw [← htext]
  rfl

/-- A path always fits. -/
theorem length_resolvePath_lt (docRoot uri : Bytes) :
    (resolvePath docRoot uri).length < PATH_MAX := by
  have hmax : 0 < PATH_MAX := by decide
  have hle : (snprintfStored PATH_MAX (joined docRoot uri)).length ≤ PATH_MAX - 1 :=
    List.length_take_le _ _
  rw [resolvePath_joined]
  dsimp only
  split
  · rw [List.length_append, List.length_take]
    omega
  · omega

/-- **`resolve_path` finds the file exactly if its path fits.** -/
theorem resolvePath_eq_iff (docRoot uri : Bytes) :
    resolvePath docRoot uri = requestedPath docRoot uri ↔
      (requestedPath docRoot uri).length < PATH_MAX := by
  constructor
  · intro h
    rw [← h]
    exact length_resolvePath_lt docRoot uri
  · intro h
    rw [requestedPath, List.length_append] at h
    have hstored : snprintfStored PATH_MAX (joined docRoot uri) = joined docRoot uri :=
      List.take_of_length_le (by omega)
    rw [resolvePath_joined, requestedPath]
    simp only [hstored]
    split_ifs at h ⊢ with hslash
    · rw [List.take_of_length_le (by omega)]
    · rw [List.append_nil]

/-- `handle_get_head` calls `stat` for the file that was asked for, or answers with an error;
the path it passes has lost nothing. -/
def ServesRequested (env : Env) (statusCode : ℕ) (method : HttpMethod) (r : Http1Req) : Prop :=
  (statPath env r = requestedPath env.docRoot r.uri ∨
      400 ≤ (handleGetHead env statusCode method r.uri).statusCode) ∧
    (requestedPath env.docRoot r.uri).length ≤ (statPath env r).length

/-- **The file that was asked for is served if and only if its path is shorter than
`PATH_MAX`.** Otherwise `stat` is called for a path that was cut. -/
theorem servesRequested_iff (env : Env) (statusCode : ℕ) (method : HttpMethod) (r : Http1Req)
    (hlen : env.docRoot.length < PATH_MAX) (hroot : 0 ∉ env.docRoot) :
    ServesRequested env statusCode method r ↔
      (requestedPath env.docRoot r.uri).length < PATH_MAX := by
  have hpath : statPath env r = resolvePath env.docRoot r.uri := by
    rw [statPath, strncpy, cstr_eq_self hroot, List.take_of_length_le hlen.le]
  rw [ServesRequested, hpath]
  constructor
  · rintro ⟨-, hle⟩
    exact Nat.lt_of_le_of_lt hle (length_resolvePath_lt env.docRoot r.uri)
  · intro hfit
    have heq := (resolvePath_eq_iff env.docRoot r.uri).mpr hfit
    exact ⟨Or.inl heq, by rw [heq]⟩

theorem servesRequested_iff_slash :
    ServesRequested plainVisit.env 200 .get { uri := lit "/a/" } ↔
      (requestedPath plainVisit.env.docRoot (lit "/a/")).length < PATH_MAX :=
  servesRequested_iff plainVisit.env 200 .get { uri := lit "/a/" } (by decide) (by decide)

/-- Many slashes, and a name whose end does not fit. -/
def slashes : Bytes := List.replicate 4076 (charByte '/')

theorem length_slashes : slashes.length = 4076 := List.length_replicate

/-- Another file is served. -/
theorem shortened_path_served :
    let env : Env := { plainVisit.env with docRoot := lit "/var/www/html" }
    let r : Http1Req := { uri := slashes ++ lit "a.html.bak" }
    (0 ∉ r.uri ∧ r.uri.length ≤ 4095) ∧
      requestedPath env.docRoot r.uri = lit "/var/www/html" ++ slashes ++ lit "a.html.bak" ∧
      statPath env r = lit "/var/www/html" ++ slashes ++ lit "a.html" ∧
      (handleGetHead env 200 .get r.uri).statusCode = 200 ∧
      ¬ ServesRequested env 200 .get r := by
  intro env r
  have hcons : slashes = charByte '/' :: List.replicate 4075 (charByte '/') := rfl
  have h0 : (0 : UInt8) ∉ slashes := fun h => absurd (List.eq_of_mem_replicate h) (by decide)
  have hname : lit "a.html.bak" = lit "a.html" ++ lit ".bak" := by decide
  have hjoined : joined env.docRoot r.uri =
      (lit "/var/www/html" ++ slashes ++ lit "a.html") ++ lit ".bak" := by
    have hroot : ¬ (lit "/var/www/html").getLast? = some (charByte '/') := by decide
    have huri : r.uri = charByte '/' :: (List.replicate 4075 (charByte '/') ++ lit "a.html.bak") :=
      congrArg (· ++ lit "a.html.bak") hcons
    have hslash : r.uri.head? = some (charByte '/') := congrArg List.head? huri
    rw [joined, if_neg hroot, if_pos hslash, List.append_assoc, ← hname, List.append_assoc]
    exact congrArg (lit "/var/www/html" ++ ·) huri.symm
  have hlen : (lit "/var/www/html" ++ slashes ++ lit "a.html").length = 4095 := by
    rw [List.length_append, List.length_append, length_slashes]
    decide
  have hrequested : requestedPath env.docRoot r.uri =
      (lit "/var/www/html" ++ slashes ++ lit "a.html") ++ lit ".bak" := by
    have hlast : ¬ (joined env.docRoot r.uri).getLast? = some (charByte '/') := by
      rw [hjoined, List.getLast?_append]
      decide
    rw [requestedPath, if_neg hlast, hjoined, List.append_nil]
  have hstored : snprintfStored PATH_MAX (joined env.docRoot r.uri) =
      lit "/var/www/html" ++ slashes ++ lit "a.html" := by
    rw [snprintfStored, hjoined]
    exact List.take_left' hlen
  have hstat : statPath env r = lit "/var/www/html" ++ slashes ++ lit "a.html" := by
    have hlast : ¬ (lit "/var/www/html" ++ slashes ++ lit "a.html").getLast? =
        some (charByte '/') := by
      rw [List.getLast?_append]
      decide
    have hroot : strncpy env.docRoot PATH_MAX = env.docRoot := by decide
    rw [statPath, hroot, resolvePath_joined]
    simp only [hstored, if_neg hlast]
  refine ⟨⟨List.not_mem_append h0 (by decide), ?_⟩, ?_, hstat, rfl, ?_⟩
  · rw [List.length_append, length_slashes]
    decide
  · rw [hrequested, hname, ← List.append_assoc]
  · rintro ⟨-, hle⟩
    rw [hstat, hrequested, List.length_append, hlen] at hle
    exact absurd hle (by decide)

end Celeritas
