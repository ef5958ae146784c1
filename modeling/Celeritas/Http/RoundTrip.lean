import Celeritas.Http.Head
import Celeritas.Http.Reading

/-!
# Requests, written and parsed

What a client writes down of a request, and that the two halves of `http1.c` undo it:
`read_http_headers` stops behind the last byte (`strstr_render`), and `parse_http1` finds
the request again (`parseFields_render`), if every field is within the limits of
`http1_req_t` and has none of the bytes that end it.

A printed request is a head with one blank behind every colon (`Http1Req.head`).
-/

set_option autoImplicit false

namespace Celeritas

open CLib

/-- A header line. -/
def Header.render (h : Header) : Bytes := h.key ++ lit ": " ++ h.value ++ crlf

/-- A request as it is sent. -/
def Http1Req.render (r : Http1Req) : Bytes :=
  r.method ++ lit " " ++ r.uri ++ lit " " ++ r.version ++ crlf ++
    r.headers.flatMap Header.render ++ crlf

/-- A header the parser has room for, with no separator inside. -/
structure Header.Wf (h : Header) : Prop where
  key_len : h.key.length ≤ 127
  key_sep : ∀ c ∈ h.key, c ≠ charByte ':' ∧ c ≠ charByte '\r' ∧ c ≠ charByte '\n'
  value_len : h.value.length ≤ 4095
  value_sep : ∀ c ∈ h.value, c ≠ charByte '\r' ∧ c ≠ charByte '\n'
  value_head : h.value.head? ≠ some (charByte ' ')

structure Http1Req.Wf (r : Http1Req) : Prop where
  method_len : r.method.length ≤ 15
  method_sep : ∀ c ∈ r.method, c ≠ charByte ' ' ∧ c ≠ charByte '\r'
  uri_len : r.uri.length ≤ 4095
  uri_sep : ∀ c ∈ r.uri, c ≠ charByte ' ' ∧ c ≠ charByte '\r'
  version_len : r.version.length ≤ 15
  version_sep : ∀ c ∈ r.version, c ≠ charByte '\r' ∧ c ≠ charByte '\n'
  headers_len : r.headers.length ≤ 128
  headers : ∀ h ∈ r.headers, h.Wf

/-! ## The parser finds the fields -/

def Header.line (h : Header) : HeadLine := ⟨h.key, 1, h.value⟩

def Http1Req.head (r : Http1Req) : Head :=
  ⟨r.method, r.uri, r.version, r.headers.map Header.line⟩

theorem Header.bytes_line (h : Header) : h.line.bytes = h.render := by
  rw [Header.render, List.append_assoc, List.append_assoc]
  rfl

theorem Http1Req.bytes_head (r : Http1Req) : r.head.bytes = r.render := by
  have hlines : (r.headers.map Header.line).flatMap HeadLine.bytes =
      r.headers.flatMap Header.render := by
    simp only [List.flatMap_map, Header.bytes_line]
  simp only [Http1Req.render, List.append_assoc]
  rw [← hlines]
  rfl

theorem Http1Req.Wf.split {r : Http1Req} (h : r.Wf) : r.head.Split where
  method_sep := by
    intro hm
    exact (h.method_sep _ hm).1 rfl
  uri_sep := by
    intro hm
    exact (h.uri_sep _ hm).1 rfl
  version_sep := h.version_sep
  lines := by
    intro l hl
    obtain ⟨x, hx, rfl⟩ := List.mem_map.mp hl
    exact ⟨(h.headers x hx).key_sep, (h.headers x hx).value_sep, (h.headers x hx).value_head⟩

/-- Nothing of it is cut. -/
theorem Http1Req.Wf.kept_head {r : Http1Req} (h : r.Wf) : r.head.kept = r := by
  have hline : ∀ x ∈ r.headers, x.line.kept = x := by
    intro x hx
    simp only [HeadLine.kept, Header.line, List.take_of_length_le (h.headers x hx).key_len,
      List.take_of_length_le (h.headers x hx).value_len]
  have hlines : (r.headers.map Header.line).map HeadLine.kept = r.headers := by
    rw [List.map_map]
    exact (List.map_congr_left hline).trans (List.map_id _)
  simp only [Head.kept, Http1Req.head, hlines, List.take_of_length_le h.method_len,
    List.take_of_length_le h.uri_len, List.take_of_length_le h.version_len,
    List.take_of_length_le h.headers_len]

/-- **What was rendered is parsed back.** -/
theorem parseFields_render {r : Http1Req} (h : r.Wf) : parseFields r.render = r := by
  rw [← r.bytes_head, parseFields_bytes h.split, h.kept_head]

/-! ## What the parser says of a printed request -/

/-- A header as a client may write it: two strings within the limits of `kv_t`, with no
separator inside. -/
structure Header.Printable (h : Header) : Prop where
  key_len : h.key.length ≤ 127
  key_nul : 0 ∉ h.key
  key_colon : charByte ':' ∉ h.key
  key_line : OneLine h.key
  value_len : h.value.length ≤ 4095
  value_nul : 0 ∉ h.value
  value_line : OneLine h.value
  value_head : h.value.head? ≠ some (charByte ' ')

/-- A request as a client may write it, within the limits of `http1_req_t`. -/
structure Http1Req.Printable (r : Http1Req) : Prop where
  method_len : r.method.length ≤ 15
  method_nul : 0 ∉ r.method
  method_blank : charByte ' ' ∉ r.method
  method_line : OneLine r.method
  uri_len : r.uri.length ≤ 4095
  uri_nul : 0 ∉ r.uri
  uri_blank : charByte ' ' ∉ r.uri
  uri_line : OneLine r.uri
  version_len : r.version.length ≤ 15
  version_nul : 0 ∉ r.version
  version_line : OneLine r.version
  headers_len : r.headers.length ≤ 128
  headers : ∀ h ∈ r.headers, h.Printable

theorem Header.Printable.wf {h : Header} (hp : h.Printable) : h.Wf where
  key_len := hp.key_len
  key_sep := by
    intro c hc
    exact ⟨ne_of_mem_of_not_mem hc hp.key_colon, hp.key_line.ne hc⟩
  value_len := hp.value_len
  value_sep := by
    intro c hc
    exact hp.value_line.ne hc
  value_head := hp.value_head

theorem Http1Req.Printable.wf {r : Http1Req} (hp : r.Printable) : r.Wf where
  method_len := hp.method_len
  method_sep := by
    intro c hc
    exact ⟨ne_of_mem_of_not_mem hc hp.method_blank, (hp.method_line.ne hc).1⟩
  uri_len := hp.uri_len
  uri_sep := by
    intro c hc
    exact ⟨ne_of_mem_of_not_mem hc hp.uri_blank, (hp.uri_line.ne hc).1⟩
  version_len := hp.version_len
  version_sep := by
    intro c hc
    exact hp.version_line.ne hc
  headers_len := hp.headers_len
  headers := by
    intro h hm
    exact (hp.headers h hm).wf

/-- The client asks for HTTP/2 on this connection. -/
def Http1Req.AsksForH2c (r : Http1Req) : Prop :=
  ∃ h ∈ r.headers, EqIgnoringCase h.key (lit "Upgrade") ∧ lit "h2c" <:+: h.value

theorem upgradesToH2c_iff {r : Http1Req} (h : ∀ h ∈ r.headers, 0 ∉ h.key ∧ 0 ∉ h.value) :
    upgradesToH2c r = true ↔ r.AsksForH2c := by
  rw [upgradesToH2c, List.any_eq_true]
  constructor
  · rintro ⟨x, hm, hx⟩
    obtain ⟨hkey, hvalue⟩ := Bool.and_eq_true_iff.mp hx
    refine ⟨x, hm, ?_, ?_⟩
    · exact (strcasecmpEq_iff (h x hm).1 (by decide)).mp hkey
    · exact (isSome_strstr (h x hm).2).mp hvalue
  · rintro ⟨x, hm, hkey, hvalue⟩
    refine ⟨x, hm, Bool.and_eq_true_iff.mpr ⟨?_, ?_⟩⟩
    · exact (strcasecmpEq_iff (h x hm).1 (by decide)).mpr hkey
    · exact (isSome_strstr (h x hm).2).mpr hvalue

/-- **Parsing undoes printing**: the request is found again whole; the result is `1` for a
request that asks for HTTP/2, and otherwise `0`, and then the connection's protocol is set
for an HTTP/1.0 request and left alone for any other. -/
theorem parseHttp1_render (protocol : Protocol) (r : Http1Req) (h : r.Printable) :
    (parseHttp1 protocol r.render).2.1 = r ∧
      ((parseHttp1 protocol r.render).1 = 1 ↔ r.AsksForH2c) ∧
      (¬ r.AsksForH2c → (parseHttp1 protocol r.render).1 = 0 ∧
        (EqIgnoringCase r.version (lit "HTTP/1.0") →
          (parseHttp1 protocol r.render).2.2 = .http10) ∧
        (¬ EqIgnoringCase r.version (lit "HTTP/1.0") →
          (parseHttp1 protocol r.render).2.2 = protocol)) := by
  have hup : upgradesToH2c r = true ↔ r.AsksForH2c :=
    upgradesToH2c_iff fun x hm => ⟨(h.headers x hm).key_nul, (h.headers x hm).value_nul⟩
  have hversion : strcasecmpEq r.version (lit "HTTP/1.0") = true ↔
      EqIgnoringCase r.version (lit "HTTP/1.0") := strcasecmpEq_iff h.version_nul (by decide)
  unfold parseHttp1
  rw [parseFields_render h.wf]
  by_cases hask : r.AsksForH2c
  · rw [if_pos (hup.mpr hask)]
    exact ⟨rfl, iff_of_true rfl hask, fun hn => absurd hask hn⟩
  · rw [if_neg fun hu => hask (hup.mp hu)]
    refine ⟨rfl, iff_of_false (by simp) hask, fun _ => ⟨rfl, ?_, ?_⟩⟩
    · intro hv
      exact if_pos (hversion.mpr hv)
    · intro hv
      exact if_neg fun hc => hv (hversion.mp hc)

/-- A request with an empty header value, a key without letters and a colon in a value. -/
def headPrinted : Http1Req where
  method := lit "HEAD"
  uri := lit "/a?b=c"
  version := lit "http/1.0"
  headers := [⟨lit "Host", lit "h:80"⟩, ⟨lit "-", []⟩, ⟨lit "upGRADE", lit "h2"⟩]

theorem headPrinted_printable : headPrinted.Printable where
  method_len := by decide
  method_nul := by decide
  method_blank := by decide
  method_line := ⟨by decide, by decide⟩
  uri_len := by decide
  uri_nul := by decide
  uri_blank := by decide
  uri_line := ⟨by decide, by decide⟩
  version_len := by decide
  version_nul := by decide
  version_line := ⟨by decide, by decide⟩
  headers_len := by decide
  headers := by
    intro h hm
    simp only [headPrinted, List.mem_cons, List.not_mem_nil, or_false] at hm
    rcases hm with rfl | rfl | rfl
    all_goals exact ⟨by decide, by decide, by decide, ⟨by decide, by decide⟩, by decide,
      by decide, ⟨by decide, by decide⟩, by decide⟩

theorem parseHttp1_headPrinted :
    headPrinted.Printable ∧ (parseHttp1 .http11 headPrinted.render).2.1 = headPrinted :=
  ⟨headPrinted_printable, (parseHttp1_render .http11 headPrinted headPrinted_printable).1⟩

/-! ## The reader finds the end -/

theorem Header.Wf.line {h : Header} (hw : h.Wf) : charByte '\r' ∉ h.key ++ lit ": " ++ h.value := by
  simp only [List.mem_append, not_or]
  exact ⟨⟨fun hm => (hw.key_sep _ hm).2.1 rfl, by decide⟩, fun hm => (hw.value_sep _ hm).1 rfl⟩

theorem Http1Req.Wf.line {r : Http1Req} (hw : r.Wf) :
    charByte '\r' ∉ r.method ++ lit " " ++ r.uri ++ lit " " ++ r.version := by
  simp only [List.mem_append, not_or]
  exact ⟨⟨⟨⟨fun hm => (hw.method_sep _ hm).2 rfl, by decide⟩,
    fun hm => (hw.uri_sep _ hm).2 rfl⟩, by decide⟩, fun hm => (hw.version_sep _ hm).1 rfl⟩

theorem indexOf_eoh_append {a : Bytes} (rest : Bytes) (ha : charByte '\r' ∉ a) :
    indexOf eoh (a ++ rest) = (indexOf eoh rest).map (· + a.length) :=
  indexOf_append_of_not_mem rest ha

/-- A line that is not followed by an empty one. -/
theorem indexOf_eoh_line {a rest : Bytes} (ha : charByte '\r' ∉ a)
    (hrest : rest.head? ≠ some (charByte '\r')) :
    indexOf eoh (a ++ crlf ++ rest) = (indexOf eoh rest).map (· + (a ++ crlf).length) := by
  have hcr : ¬ eoh <+: 13 :: 10 :: rest := by
    rintro ⟨t, ht⟩
    apply hrest
    have : rest = 13 :: 10 :: t := by simpa [eoh] using ht.symm
    rw [this]
    rfl
  have hlf : ¬ eoh <+: 10 :: rest := by
    rintro ⟨t, ht⟩
    exact absurd (List.cons.inj ht).1 (by decide)
  rw [List.append_assoc, indexOf_eoh_append _ ha]
  change (indexOf eoh (13 :: 10 :: rest)).map _ = _
  rw [indexOf_cons_of_not hcr, indexOf_cons_of_not hlf, Option.map_map, Option.map_map]
  congr 1
  funext n
  simp only [Function.comp, List.length_append, crlf, List.length_cons, List.length_nil]
  omega

/-- The first empty line is the one behind the headers. -/
theorem indexOf_eoh_headers : ∀ (hs : List Header) {a : Bytes}, charByte '\r' ∉ a →
    (∀ h ∈ hs, h.Wf) → indexOf eoh (a ++ crlf ++ (hs.flatMap Header.render ++ crlf)) =
      some (a ++ hs.flatMap Header.render).length := by
  intro hs
  induction hs with
  | nil =>
    intro a ha _
    have hfound : indexOf eoh (crlf ++ crlf) = some 0 := by decide
    rw [List.flatMap_nil, List.nil_append, List.append_nil, List.append_assoc,
      indexOf_eoh_append _ ha, hfound]
    simp
  | cons h hs ih =>
    intro a ha hw
    have hh := (hw h List.mem_cons_self).line
    have hne : (h.render ++ (hs.flatMap Header.render ++ crlf)).head? ≠ some (charByte '\r') := by
      have hcons : h.key ++ lit ": " ++ h.value ≠ [] := by
        rw [List.append_assoc]
        exact List.append_ne_nil_of_right_ne_nil _ (List.cons_ne_nil _ _)
      rw [Header.render, List.append_assoc _ crlf, List.head?_append_of_ne_nil _ hcons]
      exact fun he => hh (List.mem_of_mem_head? he)
    rw [List.flatMap_cons, List.append_assoc h.render, indexOf_eoh_line ha hne, Header.render,
      ih hh fun h hm => hw h (List.mem_cons_of_mem _ hm)]
    simp only [Option.map_some, List.length_append]
    congr 1
    omega

/-- **A rendered request is a header block**, if it is a string and fits the buffer. -/
theorem isHeaderBlock_render {r : Http1Req} (h : r.Wf) (h0 : 0 ∉ r.render)
    (hl : r.render.length ≤ MAX_HEADER_SIZE - 1) : IsHeaderBlock r.render := by
  refine ⟨h0, hl, ?_⟩
  rw [Http1Req.render, List.append_assoc _ _ crlf, indexOf_eoh_headers r.headers h.line h.headers]
  simp only [List.length_append, crlf, List.length_cons, List.length_nil]
  congr 1
  omega

/-- And so `read_http_headers` gives it to the parser as it is, **however it is cut into
segments**, unless the stream fails. -/
theorem readHttpHeaders_render {r : Http1Req} (h : IsHeaderBlock r.render) {evs : List SockEvent}
    (hevs : pending evs = r.render) {k : ℕ} (hk : arrived r.render.length evs = some k) :
    readHttpHeaders [] evs =
      (.complete r.render r.render.length 0, discard r.render.length evs) := by
  have h4 := h.four_le
  have hread := readsBlock [] h evs [] (by simpa using hevs)
    (by rw [List.length_nil]; omega)
  have hb := arrived_bounds hk
  have hmin : min k (MAX_HEADER_SIZE - 1) = r.render.length := by
    have := h.length_le
    rw [hevs] at hb
    omega
  simp only [ReadsBlock, List.length_nil, Nat.sub_zero, Nat.zero_add, hk, hmin, List.append_nil,
    List.take_length, Nat.sub_self] at hread
  exact hread

end Celeritas
