import Celeritas.Http.Head
import Celeritas.Http.Pipeline

/-!
# What the parser accepts

The form of a request head, and the two things one may ask of a parser that is given any
buffer at all: what it accepts is a head and is stored as it stands there, and what is no
head is refused (`Ingress.Strict`). `parse_http1` has no way to refuse anything, so that
`process_ingress` never comes to its `400`; `strict_iff` says which buffers this does no
harm to.

How a header line falls into key, blanks and value is not unique if the key may have a
colon inside. The parser takes the first one, and a line can always be read that way
(`HeadLine.exists_split`).
-/

set_option autoImplicit false

namespace Celeritas

open CLib

/-! ## The form of a request head -/

def IsDigit (c : UInt8) : Prop := charByte '0' ≤ c ∧ c ≤ charByte '9'

/-- `HTTP/` and two digits around a full stop -/
def IsHttpVersion (v : Bytes) : Prop :=
  ∃ a b : UInt8, IsDigit a ∧ IsDigit b ∧ v = lit "HTTP/" ++ [a, charByte '.', b]

structure Head.Formed (h : Head) : Prop where
  method_blank : charByte ' ' ∉ h.method
  method_line : OneLine h.method
  uri_blank : charByte ' ' ∉ h.uri
  uri_line : OneLine h.uri
  version : IsHttpVersion h.version
  lines : ∀ l ∈ h.lines, OneLine l.key ∧ OneLine l.value

def IsRequestHead (buf : Bytes) : Prop := ∃ h : Head, h.Formed ∧ h.bytes = buf

/-- The tokens of a head. -/
def Head.request (h : Head) : Http1Req where
  method := h.method
  uri := h.uri
  version := h.version
  headers := h.lines.map fun l => ⟨l.key, l.value⟩

/-- The fields as everybody reads them, up to their first NUL. -/
def Http1Req.strings (r : Http1Req) : Http1Req where
  method := cstr r.method
  uri := cstr r.uri
  version := cstr r.version
  headers := r.headers.map fun h => ⟨cstr h.key, cstr h.value⟩

/-- `process_ingress` behind `read_http_headers` -/
def ingressOf (protocol : Protocol) (buf : Bytes) : Ingress :=
  if protocol = .http2 then ⟨false, 505, none, {}, protocol⟩ else parseBlock protocol buf

theorem processIngress_complete {protocol : Protocol} {evs rest : List SockEvent} {buf : Bytes}
    {n k : ℕ} (h : readHttpHeaders [] evs = (.complete buf n k, rest)) :
    processIngress protocol evs = (ingressOf protocol (buf.take n), rest) := by
  rw [processIngress, h, ingressOf]
  split_ifs with hp
  · simp only [hp]
  · simp only

/-- What is parsed is a string. -/
theorem parseBlock_of_block {protocol : Protocol} {evs : List SockEvent} {block : Bytes}
    (h : (processIngress protocol evs).1.block = some block) :
    0 ∉ block ∧ (processIngress protocol evs).1 = parseBlock protocol block := by
  cases hread : readHttpHeaders [] evs with
  | mk result rest =>
    cases result with
    | failed status => simp [processIngress, hread] at h
    | complete buf n k =>
      obtain ⟨i, hi, rfl⟩ := readHttpHeaders_complete hread
      rw [processIngress_complete hread] at h ⊢
      unfold ingressOf at h ⊢
      split_ifs at h ⊢
      obtain rfl : buf.take (i + 4) = block := Option.some.inj h
      exact ⟨zero_not_mem_of_strstr hi, rfl⟩

theorem parseBlock_of_ok {protocol : Protocol} {evs : List SockEvent}
    (h : (processIngress protocol evs).1.ok = true) :
    ∃ block : Bytes, 0 ∉ block ∧ (processIngress protocol evs).1 = parseBlock protocol block := by
  cases hb : (processIngress protocol evs).1.block with
  | none =>
    rw [ok_eq_false_of_block hb] at h
    exact absurd h Bool.false_ne_true
  | some block => exact ⟨block, parseBlock_of_block hb⟩

/-- Only request heads are accepted, with every token stored as it is in the buffer, and
what is no request head is answered with a client error. -/
structure Ingress.Strict (buf : Bytes) (i : Ingress) : Prop where
  accepted : i.ok = true → ∃ h : Head, h.Formed ∧ h.bytes = buf ∧ i.req.strings = h.request
  refused : ¬ IsRequestHead buf → 400 ≤ i.statusCode ∧ i.statusCode < 500

/-- Every token has its place in `http1_req_t`. -/
structure Head.Fits (h : Head) : Prop where
  method : h.method.length ≤ 15 ∧ 0 ∉ h.method
  uri : h.uri.length ≤ 4095 ∧ 0 ∉ h.uri
  version : h.version.length ≤ 15 ∧ 0 ∉ h.version
  lines_len : h.lines.length ≤ 128
  lines : ∀ l ∈ h.lines, (l.key.length ≤ 127 ∧ 0 ∉ l.key) ∧ l.value.length ≤ 4095 ∧ 0 ∉ l.value

/-! ## Splitting a line at its first colon -/

theorem IsHttpVersion.oneLine {v : Bytes} (h : IsHttpVersion v) : OneLine v := by
  obtain ⟨a, b, ha, hb, rfl⟩ := h
  have hdigit : ∀ c : UInt8, IsDigit c → c ≠ charByte '\r' ∧ c ≠ charByte '\n' := by
    intro c hc
    constructor
    · rintro rfl
      exact absurd hc.1 (by decide)
    · rintro rfl
      exact absurd hc.1 (by decide)
  have hlit : OneLine (lit "HTTP/") := ⟨by decide, by decide⟩
  have hdot : charByte '.' ≠ charByte '\r' ∧ charByte '.' ≠ charByte '\n' := by decide
  have := ((hlit.snoc (hdigit a ha)).snoc hdot).snoc (hdigit b hb)
  simpa using this

/-- What stands behind a colon is blanks and a value that starts with none. -/
theorem exists_blanks (rest : Bytes) : ∃ (n : ℕ) (value : Bytes),
    rest = List.replicate n (charByte ' ') ++ value ∧ value ⊆ rest ∧
      value.head? ≠ some (charByte ' ') := by
  refine ⟨(rest.takeWhile (· == charByte ' ')).length, rest.dropWhile (· == charByte ' '),
    ?_, ?_, ?_⟩
  · have hrep : rest.takeWhile (· == charByte ' ') =
        List.replicate (rest.takeWhile (· == charByte ' ')).length (charByte ' ') := by
      apply List.eq_replicate_of_mem
      intro b hb
      simpa using List.mem_takeWhile_imp hb
    rw [← hrep, List.takeWhile_append_dropWhile]
  · exact (List.dropWhile_sublist _).subset
  · intro hhead
    have := List.head?_dropWhile_not (· == charByte ' ') rest
    rw [hhead] at this
    simp at this

theorem HeadLine.exists_split {l : HeadLine} (hkey : OneLine l.key) (hvalue : OneLine l.value) :
    ∃ l' : HeadLine, l'.Split ∧ OneLine l'.key ∧ OneLine l'.value ∧ l'.bytes = l.bytes := by
  have hblank : OneLine (List.replicate l.blanks (charByte ' ')) := by
    constructor
    · intro hm
      exact absurd (List.eq_of_mem_replicate hm) (by decide)
    · intro hm
      exact absurd (List.eq_of_mem_replicate hm) (by decide)
  obtain ⟨key, rest, hk, hcolon, hr, hbytes⟩ : ∃ key rest : Bytes, OneLine key ∧
      charByte ':' ∉ key ∧ OneLine rest ∧ l.bytes = key ++ charByte ':' :: (rest ++ crlf) := by
    by_cases hmem : charByte ':' ∈ l.key
    · obtain ⟨a, b, hab, ha⟩ := List.eq_append_cons_of_mem hmem
      have hsub : ∀ c ∈ a ++ charByte ':' :: b, c ∈ l.key := by
        intro c hc
        rwa [hab]
      have hcb : OneLine (charByte ':' :: b) :=
        hkey.of_subset fun c hc => hsub c (List.mem_append_right _ hc)
      refine ⟨a, b ++ charByte ':' :: (List.replicate l.blanks (charByte ' ') ++ l.value), ?_, ha,
        ?_, ?_⟩
      · exact hkey.of_subset fun c hc => hsub c (List.mem_append_left _ hc)
      · have hb : OneLine b := hcb.of_subset (List.subset_cons_self _ _)
        have hc : OneLine [charByte ':'] := ⟨by decide, by decide⟩
        exact hb.append (hc.append (hblank.append hvalue))
      · rw [HeadLine.bytes, hab]
        simp
    · exact ⟨l.key, List.replicate l.blanks (charByte ' ') ++ l.value, hkey, hmem,
        hblank.append hvalue, by rw [HeadLine.bytes, List.append_assoc]⟩
  obtain ⟨n, value, rfl, hsub, hhead⟩ := exists_blanks rest
  have hv : OneLine value := hr.of_subset hsub
  refine ⟨⟨key, n, value⟩, ⟨?_, ?_, hhead⟩, hk, hv, ?_⟩
  · intro c hc
    exact ⟨ne_of_mem_of_not_mem hc hcolon, hk.ne hc⟩
  · intro c hc
    exact hv.ne hc
  · rw [hbytes, HeadLine.bytes, List.append_assoc]

theorem exists_split_lines {ls : List HeadLine} (h : ∀ l ∈ ls, OneLine l.key ∧ OneLine l.value) :
    ∃ ls' : List HeadLine, (∀ l ∈ ls', l.Split ∧ OneLine l.key ∧ OneLine l.value) ∧
      ls'.flatMap HeadLine.bytes = ls.flatMap HeadLine.bytes := by
  induction ls with
  | nil => exact ⟨[], by simp, rfl⟩
  | cons l ls ih =>
    obtain ⟨hkey, hvalue⟩ := h l List.mem_cons_self
    obtain ⟨l', hsplit, hk, hv, hb⟩ := HeadLine.exists_split hkey hvalue
    obtain ⟨ls', hls, hbs⟩ := ih fun l hm => h l (List.mem_cons_of_mem _ hm)
    refine ⟨l' :: ls', ?_, by rw [List.flatMap_cons, List.flatMap_cons, hb, hbs]⟩
    intro x hx
    rcases List.mem_cons.mp hx with rfl | hx
    · exact ⟨hsplit, hk, hv⟩
    · exact hls x hx

/-- A request head can be read the way the parser does. -/
theorem IsRequestHead.exists_split {buf : Bytes} (h : IsRequestHead buf) :
    ∃ h : Head, h.Formed ∧ h.Split ∧ h.bytes = buf := by
  obtain ⟨h, hf, rfl⟩ := h
  obtain ⟨ls, hls, hbytes⟩ := exists_split_lines hf.lines
  refine ⟨⟨h.method, h.uri, h.version, ls⟩, ⟨hf.method_blank, hf.method_line, hf.uri_blank,
    hf.uri_line, hf.version, fun l hl => (hls l hl).2⟩, ⟨hf.method_blank, hf.uri_blank, ?_,
      fun l hl => (hls l hl).1⟩, ?_⟩
  · intro c hc
    exact hf.version.oneLine.ne hc
  · rw [Head.bytes, hbytes]
    rfl

/-! ## Faithful storage -/

theorem Head.Fits.kept_strings {h : Head} (hf : h.Fits) : h.kept.strings = h.request := by
  have hlines : ((h.lines.map HeadLine.kept).take 128).map
      (fun x => (⟨cstr x.key, cstr x.value⟩ : Header)) = h.lines.map fun l => ⟨l.key, l.value⟩ := by
    rw [List.take_of_length_le (by simpa using hf.lines_len), List.map_map]
    apply List.map_congr_left
    intro l hl
    simp only [Function.comp, HeadLine.kept, cstr_take_eq_self.mpr (hf.lines l hl).1,
      cstr_take_eq_self.mpr (hf.lines l hl).2]
  simp only [Http1Req.strings, Head.kept, Head.request, hlines, cstr_take_eq_self.mpr hf.method,
    cstr_take_eq_self.mpr hf.uri, cstr_take_eq_self.mpr hf.version]

/-- What is read back from the fields is the head only if all of it was stored. -/
theorem Head.fits_of_kept_strings {h : Head} (he : h.kept.strings = h.request) : h.Fits := by
  simp only [Http1Req.strings, Head.kept, Head.request, Http1Req.mk.injEq] at he
  obtain ⟨hmethod, huri, hversion, hlines⟩ := he
  have hlen : h.lines.length ≤ 128 := by
    have := congrArg List.length hlines
    simp only [List.length_map, List.length_take] at this
    omega
  rw [List.take_of_length_le (by simpa using hlen), List.map_map, List.map_inj_left] at hlines
  refine ⟨cstr_take_eq_self.mp hmethod, cstr_take_eq_self.mp huri, cstr_take_eq_self.mp hversion,
    hlen, ?_⟩
  intro l hl
  have := hlines l hl
  simp only [Function.comp, HeadLine.kept, Header.mk.injEq] at this
  exact ⟨cstr_take_eq_self.mp this.1, cstr_take_eq_self.mp this.2⟩

/-- A head whose tokens are the strings stored of a split one is split itself: storing puts
no colon into a key and no blank before a value. -/
theorem Head.split_of_strings {h h' : Head} (hf : h.Formed) (hs : h'.Split)
    (he : h'.kept.strings = h.request) : h.Split := by
  refine ⟨hf.method_blank, hf.uri_blank, fun c hc => hf.version.oneLine.ne hc, fun l hl => ?_⟩
  have hmem : (⟨l.key, l.value⟩ : Header) ∈ h'.kept.strings.headers := by
    rw [he]
    exact List.mem_map.mpr ⟨l, hl, rfl⟩
  obtain ⟨x, hx, hxl⟩ := List.mem_map.mp hmem
  obtain ⟨l', hl', rfl⟩ := List.mem_map.mp (List.mem_of_mem_take hx)
  obtain ⟨hkey, hvalue⟩ := Header.mk.inj hxl
  have hsplit := hs.lines l' hl'
  refine ⟨fun c hc => ?_, fun c hc => (hf.lines l hl).2.ne hc, ?_⟩
  · rw [← hkey] at hc
    exact hsplit.key_sep c (List.mem_of_mem_take ((cstr_sublist _).subset hc))
  · intro hhead
    -- the first byte that is stored is the first there is
    have hprefix : cstr (l'.value.take 4095) <+: l'.value :=
      (List.takeWhile_prefix _).trans (List.take_prefix _ _)
    obtain ⟨t, ht⟩ := hprefix
    apply hsplit.value_head
    rw [← ht, List.head?_append, show cstr (l'.value.take 4095) = l.value from hvalue, hhead]
    rfl

/-! ## What is accepted, and what is refused -/

/-- An upgrade is answered `101`, and everything else is accepted: `process_ingress` never
comes to its `400`. -/
theorem parseBlock_eq (protocol : Protocol) (buf : Bytes) :
    parseBlock protocol buf =
      { ok := ! upgradesToH2c (parseFields buf)
        statusCode := if upgradesToH2c (parseFields buf) = true then 101 else 0
        block := some buf
        req := parseFields buf
        protocol := (parseHttp1 protocol buf).2.2 } := by
  cases hup : upgradesToH2c (parseFields buf) with
  | true => simp [parseBlock, parseHttp1, hup]
  | false => simp [parseBlock, parseHttp1, hup]

theorem parseBlock_statusCode (protocol : Protocol) (buf : Bytes) :
    (parseBlock protocol buf).statusCode < 400 := by
  rw [parseBlock_eq]
  split_ifs
  · simp
  · simp

/-- **Only heads are accepted and stored whole, and everything else is refused, exactly on
the heads** that the fields are large enough for, or of a client that wants HTTP/2. -/
theorem strict_iff (protocol : Protocol) (buf : Bytes) :
    (ingressOf protocol buf).Strict buf ↔
      ∃ h : Head, h.Formed ∧ h.Split ∧ h.bytes = buf ∧
        (protocol = .http2 ∨ upgradesToH2c h.kept = true ∨ h.Fits) := by
  constructor
  · intro hstrict
    have hhead : IsRequestHead buf := by
      by_contra hno
      have hstatus := hstrict.refused hno
      unfold ingressOf at hstatus
      split_ifs at hstatus
      · exact absurd hstatus.2 (by simp)
      · exact absurd hstatus.1 (Nat.not_le.mpr (parseBlock_statusCode protocol buf))
    obtain ⟨h, hformed, hsplit, hbytes⟩ := hhead.exists_split
    have hkept : parseFields buf = h.kept := by rw [← hbytes, parseFields_bytes hsplit]
    by_cases hp : protocol = .http2
    · exact ⟨h, hformed, hsplit, hbytes, Or.inl hp⟩
    by_cases hup : upgradesToH2c h.kept = true
    · exact ⟨h, hformed, hsplit, hbytes, Or.inr (Or.inl hup)⟩
    -- accepted, and so what is stored are the tokens of a head
    have hok : (ingressOf protocol buf).ok = true := by
      rw [ingressOf, if_neg hp, parseBlock_eq, hkept]
      simpa using hup
    obtain ⟨g, hg, hgbytes, hreq⟩ := hstrict.accepted hok
    rw [ingressOf, if_neg hp, parseBlock_eq, hkept] at hreq
    have hgsplit : g.Split := Head.split_of_strings hg hsplit hreq
    have hgkept : h.kept = g.kept := by rw [← hkept, ← hgbytes, parseFields_bytes hgsplit]
    rw [hgkept] at hreq
    exact ⟨g, hg, hgsplit, hgbytes, Or.inr (Or.inr (Head.fits_of_kept_strings hreq))⟩
  · rintro ⟨h, hformed, hsplit, rfl, hcase⟩
    refine ⟨fun hok => ?_, fun hno => absurd ⟨h, hformed, rfl⟩ hno⟩
    unfold ingressOf at hok ⊢
    split_ifs at hok ⊢ with hp
    rw [parseBlock_eq, parseFields_bytes hsplit] at hok ⊢
    rcases hcase with hcase | hcase | hfits
    · exact absurd hcase hp
    · simp [hcase] at hok
    · exact ⟨h, hformed, rfl, hfits.kept_strings⟩

/-- A line without a colon, where the parser takes the header block to end. -/
def colonless : Bytes := lit "GET / HTTP/1.1\r\nHost: h\r\nX\r\nConnection: close\r\n\r\n"

/-- It is accepted, and the header behind that line is lost. -/
theorem colonless_accepted :
    colonless.length ≤ 8191 ∧ crlf ++ crlf <:+ colonless ∧
      (ingressOf .http11 colonless).ok = true ∧
      (ingressOf .http11 colonless).req.headers = [⟨lit "Host", lit "h"⟩] ∧
      ¬ (ingressOf .http11 colonless).Strict colonless := by
  have hok : (ingressOf .http11 colonless).ok = true := by decide
  have hreq : (ingressOf .http11 colonless).req =
      ⟨lit "GET", lit "/", lit "HTTP/1.1", [⟨lit "Host", lit "h"⟩]⟩ := by decide
  refine ⟨by decide, by decide, hok, by rw [hreq], ?_⟩
  intro hstrict
  obtain ⟨h, -, hbytes, hstrings⟩ := hstrict.accepted hok
  rw [hreq] at hstrings
  -- a head with that one header line would end with it
  have hlines : h.lines.map (fun l => (⟨l.key, l.value⟩ : Header)) = [⟨lit "Host", lit "h"⟩] :=
    (congrArg Http1Req.headers hstrings).symm.trans (by decide)
  obtain ⟨l, hl, hlh⟩ : ∃ l, h.lines = [l] ∧ l.value = lit "h" := by
    obtain ⟨l, ls, hcons, hlh, hls⟩ := List.map_eq_cons_iff.mp hlines
    rw [List.map_eq_nil_iff.mp hls] at hcons
    exact ⟨l, hcons, (Header.mk.inj hlh).2⟩
  have hsuffix : lit "h" ++ crlf ++ crlf <:+ h.bytes := by
    refine ⟨h.method ++ charByte ' ' :: (h.uri ++ charByte ' ' :: (h.version ++ (crlf ++ (l.key ++
      charByte ':' :: List.replicate l.blanks (charByte ' '))))), ?_⟩
    simp [Head.bytes, hl, HeadLine.bytes, hlh]
  rw [hbytes] at hsuffix
  exact absurd hsuffix (by decide)

end Celeritas
