import Celeritas.Http.Request

/-!
# What the parser keeps of a request head

A head, as it stands in the buffer: the request line and the header lines, with the blanks
a client puts behind a colon. `parse_http1` cuts every token to the size of its field and
the list to 128 headers, and `parseFields_bytes` says that this is all it does to a head
that can be split at its separators.

The parser has one move for every byte that is not a separator, `Parser.store`, and so the
tokens have one lemma, `foldl_token`. On a buffer that is no head at all the fields are
still known: the first two by `parseFields_method` and `parseFields_uri`, and of the others
that no line ends inside one (`oneLine_parseFields`).
-/

set_option autoImplicit false

namespace Celeritas

open CLib

def crlf : Bytes := [13, 10]

/-- A header line: what stands before the colon, how many blanks behind it, and the rest. -/
structure HeadLine where
  key : Bytes
  blanks : ℕ
  value : Bytes
  deriving DecidableEq

structure Head where
  method : Bytes
  uri : Bytes
  version : Bytes
  lines : List HeadLine
  deriving DecidableEq

def HeadLine.bytes (l : HeadLine) : Bytes :=
  l.key ++ charByte ':' :: (List.replicate l.blanks (charByte ' ') ++ (l.value ++ crlf))

def Head.bytes (h : Head) : Bytes :=
  h.method ++ charByte ' ' :: (h.uri ++ charByte ' ' :: (h.version ++
    (crlf ++ (h.lines.flatMap HeadLine.bytes ++ crlf))))

/-- The header of a line, cut to the arrays of `kv_t`. -/
def HeadLine.kept (l : HeadLine) : Header := ⟨l.key.take 127, l.value.take 4095⟩

/-- The request of a head, cut to the arrays of `http1_req_t`. -/
def Head.kept (h : Head) : Http1Req where
  method := h.method.take 15
  uri := h.uri.take 4095
  version := h.version.take 15
  headers := (h.lines.map HeadLine.kept).take 128

/-- The line falls apart at the first colon and the last of the blanks behind it. -/
structure HeadLine.Split (l : HeadLine) : Prop where
  key_sep : ∀ c ∈ l.key, c ≠ charByte ':' ∧ c ≠ charByte '\r' ∧ c ≠ charByte '\n'
  value_sep : ∀ c ∈ l.value, c ≠ charByte '\r' ∧ c ≠ charByte '\n'
  value_head : l.value.head? ≠ some (charByte ' ')

/-- No token has the byte inside that the parser ends it at. -/
structure Head.Split (h : Head) : Prop where
  method_sep : charByte ' ' ∉ h.method
  uri_sep : charByte ' ' ∉ h.uri
  version_sep : ∀ c ∈ h.version, c ≠ charByte '\r' ∧ c ≠ charByte '\n'
  lines : ∀ l ∈ h.lines, l.Split

/-! ## One token -/

theorem parseByte_method {s : Parser} {c : UInt8} (hs : s.state = .method)
    (hc : c ≠ charByte ' ') : parseByte s c = s.store 15 c := by
  simp only [parseByte, hs, if_neg hc]

theorem parseByte_uri {s : Parser} {c : UInt8} (hs : s.state = .uri)
    (hc : c ≠ charByte ' ') : parseByte s c = s.store 4095 c := by
  simp only [parseByte, hs, if_neg hc]

theorem parseByte_version {s : Parser} {c : UInt8} (hs : s.state = .version)
    (hc : c ≠ charByte '\r' ∧ c ≠ charByte '\n') : parseByte s c = s.store 15 c := by
  simp only [parseByte, hs, if_neg hc.1, if_neg hc.2]

theorem parseByte_headerKey {s : Parser} {c : UInt8} (hs : s.state = .headerKey)
    (hc : c ≠ charByte ':' ∧ c ≠ charByte '\r' ∧ c ≠ charByte '\n') :
    parseByte s c = s.store 127 c := by
  simp only [parseByte, hs, if_neg hc.1, if_neg hc.2.1, if_neg hc.2.2]

theorem parseByte_headerValue {s : Parser} {c : UInt8} (hs : s.state = .headerValue false)
    (hc : c ≠ charByte '\r' ∧ c ≠ charByte '\n') : parseByte s c = s.store 4095 c := by
  obtain ⟨st, dest, key, req⟩ := s
  cases hs
  simp [parseByte, hc.1, hc.2]

/-- The blanks behind a colon. -/
theorem foldl_blanks {s : Parser} (hs : s.state = .headerValue true) (n : ℕ) :
    (List.replicate n (charByte ' ')).foldl parseByte s = s := by
  have hblank : parseByte s (charByte ' ') = s := by simp [parseByte, hs]
  induction n with
  | zero => rfl
  | succ n ih => rw [List.replicate_succ, List.foldl_cons, hblank, ih]

/-- Bytes that are all stored end up in `dest`, as far as there is room. -/
theorem foldl_token {st : ParseStep} {limit : ℕ} {ok : UInt8 → Prop}
    (hstep : ∀ {s : Parser} {c : UInt8}, s.state = st → ok c → parseByte s c = s.store limit c)
    (u : Bytes) {s : Parser} (hs : s.state = st) (hu : ∀ c ∈ u, ok c)
    (hd : s.dest.length ≤ limit) :
    u.foldl parseByte s = { s with dest := (s.dest ++ u).take limit } := by
  induction u generalizing s with
  | nil => rw [List.append_nil, List.take_of_length_le hd]; rfl
  | cons c u ih =>
    have hc : parseByte s c = s.store limit c := hstep hs (hu c List.mem_cons_self)
    have hu' : ∀ c ∈ u, ok c := by
      intro c hm
      exact hu c (List.mem_cons_of_mem _ hm)
    rw [List.foldl_cons, hc, Parser.store]
    by_cases hlt : s.dest.length < limit
    · rw [if_pos hlt, ih (s := { s with dest := s.dest ++ [c] }) hs hu'
        (by rw [List.length_append]; exact hlt)]
      simp
    · -- there is no room for this byte, and so for none of the others
      have hfull : s.dest.length = limit := by omega
      rw [if_neg hlt, ih hs hu' hd, List.take_append_of_le_length hfull.ge,
        List.take_append_of_le_length hfull.ge]

/-! ## The header lines -/

/-- A header value, from behind the colon to the line feed. -/
theorem foldl_value {s : Parser} {v : Bytes} (hs : s.state = .headerValue true) (hd : s.dest = [])
    (hsep : ∀ c ∈ v, c ≠ charByte '\r' ∧ c ≠ charByte '\n')
    (hhead : v.head? ≠ some (charByte ' ')) :
    (v ++ crlf).foldl parseByte s =
      ({ s with state := .headerValue false, dest := v.take 4095 } : Parser).endHeader := by
  obtain ⟨st, dest, key, req⟩ := s
  subst hs hd
  rw [List.foldl_append]
  cases v with
  | nil => simp [crlf, parseByte, charByte]
  | cons c u =>
    -- the first byte is no blank, and so it ends the skipping
    have hc : c ≠ charByte ' ' := by
      intro he
      exact hhead (by rw [he]; rfl)
    have hne := hsep c List.mem_cons_self
    have hfirst : parseByte ⟨.headerValue true, [], key, req⟩ c =
        ⟨.headerValue false, [c], key, req⟩ := by
      simp [parseByte, hc, hne.1, hne.2, Parser.store]
    rw [List.foldl_cons, hfirst, foldl_token parseByte_headerValue u rfl
      (fun c hm => hsep c (List.mem_cons_of_mem _ hm)) (by simp)]
    simp [crlf, parseByte, charByte]

theorem foldl_line {s : Parser} {l : HeadLine} (hs : s.state = .headerKey) (hd : s.dest = [])
    (hl : l.Split) : l.bytes.foldl parseByte s =
      ({ s with state := .headerValue false, key := l.kept.key, dest := l.kept.value } :
        Parser).endHeader := by
  have hkey := foldl_token parseByte_headerKey l.key hs hl.key_sep (by simp [hd])
  obtain ⟨st, dest, key, req⟩ := s
  subst hs hd
  have hcolon : parseByte ⟨.headerKey, l.key.take 127, key, req⟩ (charByte ':') =
      ⟨.headerValue true, [], l.key.take 127, req⟩ := by simp [parseByte]
  rw [HeadLine.bytes, List.foldl_append, hkey, List.nil_append, List.foldl_cons, hcolon,
    List.foldl_append, foldl_blanks rfl, foldl_value rfl rfl hl.value_sep hl.value_head]
  rfl

theorem foldl_done {s : Parser} (hs : s.state = .done) (u : Bytes) : u.foldl parseByte s = s := by
  have hstep : ∀ c, parseByte s c = s := by
    intro c
    simp [parseByte, hs]
  induction u with
  | nil => rfl
  | cons c u ih => rw [List.foldl_cons, hstep, ih]

/-- Behind the head nothing is stored. -/
theorem fields_body {s : Parser} (hs : s.state = .body) (u : Bytes) :
    (u.foldl parseByte s).fields = s.req := by
  cases u with
  | nil => simp [Parser.fields, hs]
  | cons c u =>
    have hc : parseByte s c = { s with state := .done } := by simp [parseByte, hs]
    rw [List.foldl_cons, hc, foldl_done rfl]
    rfl

/-- The header lines and the empty line behind them. -/
theorem fields_lines (ls : List HeadLine) {s : Parser} (hst : s.state = .headerKey)
    (hd : s.dest = []) (hls : ∀ l ∈ ls, l.Split) (hlen : s.req.headers.length < 128) :
    ((ls.flatMap HeadLine.bytes ++ crlf).foldl parseByte s).fields =
      { s.req with headers := (s.req.headers ++ ls.map HeadLine.kept).take 128 } := by
  induction ls generalizing s with
  | nil =>
    obtain ⟨st, dest, key, req⟩ := s
    subst hst
    rw [List.map_nil, List.append_nil, List.take_of_length_le hlen.le]
    simp [crlf, parseByte, charByte, Parser.fields]
  | cons l ls ih =>
    rw [List.flatMap_cons, List.append_assoc, List.foldl_append,
      foldl_line hst hd (hls l List.mem_cons_self)]
    by_cases hfull : s.req.headers.length + 1 ≥ 128
    · -- the 128th header is the last one: the parser ignores what follows
      rw [fields_body (by simp [Parser.endHeader, hfull])]
      have htake : (s.req.headers ++ l.kept :: ls.map HeadLine.kept).take 128 =
          s.req.headers ++ [l.kept] := by
        rw [List.append_cons, List.take_append_of_le_length (by simpa using hfull),
          List.take_of_length_le (by rw [List.length_append]; exact hlen)]
      rw [List.map_cons, htake]
      rfl
    · rw [ih]
      · simp [Parser.endHeader]
      · simp [Parser.endHeader, hfull]
      · rfl
      · intro l hm
        exact hls l (List.mem_cons_of_mem _ hm)
      · rw [Parser.endHeader, List.length_append]
        exact Nat.not_le.mp hfull

/-! ## The whole head -/

theorem foldl_method {m : Bytes} (hm : charByte ' ' ∉ m) (rest : Bytes) :
    (m ++ charByte ' ' :: rest).foldl parseByte {} =
      rest.foldl parseByte ⟨.uri, [], [], { method := m.take 15 }⟩ := by
  have hsp : parseByte { dest := m.take 15 } (charByte ' ') =
      ⟨.uri, [], [], { method := m.take 15 }⟩ := by simp [parseByte]
  have htoken : m.foldl parseByte {} = { dest := m.take 15 } :=
    foldl_token parseByte_method m rfl (fun c hc => ne_of_mem_of_not_mem hc hm) (by simp)
  rw [List.foldl_append, htoken, List.foldl_cons, hsp]

theorem foldl_uri {u : Bytes} (hu : charByte ' ' ∉ u) {method : Bytes} (rest : Bytes) :
    (u ++ charByte ' ' :: rest).foldl parseByte ⟨.uri, [], [], { method }⟩ =
      rest.foldl parseByte ⟨.version, [], [], { method, uri := u.take 4095 }⟩ := by
  have hsp : parseByte ⟨.uri, u.take 4095, [], { method }⟩ (charByte ' ') =
      ⟨.version, [], [], { method, uri := u.take 4095 }⟩ := by simp [parseByte]
  rw [List.foldl_append, foldl_token parseByte_uri u rfl
    (fun c hc => ne_of_mem_of_not_mem hc hu) (by simp), List.foldl_cons, List.nil_append, hsp]

theorem foldl_version {v : Bytes} (hv : ∀ c ∈ v, c ≠ charByte '\r' ∧ c ≠ charByte '\n')
    {method uri : Bytes} (rest : Bytes) :
    (v ++ (crlf ++ rest)).foldl parseByte ⟨.version, [], [], { method, uri }⟩ =
      rest.foldl parseByte ⟨.headerKey, [], [], { method, uri, version := v.take 15 }⟩ := by
  have hend : crlf.foldl parseByte ⟨.version, v.take 15, [], { method, uri }⟩ =
      ⟨.headerKey, [], [], { method, uri, version := v.take 15 }⟩ := by
    simp [crlf, parseByte, charByte]
  rw [List.foldl_append, foldl_token parseByte_version v rfl hv (by simp), List.foldl_append,
    List.nil_append, hend]

/-- **What is stored of a head** is its tokens, cut to the size of their fields. -/
theorem parseFields_bytes {h : Head} (hs : h.Split) : parseFields h.bytes = h.kept := by
  rw [parseFields, Head.bytes, foldl_method hs.method_sep, foldl_uri hs.uri_sep,
    foldl_version hs.version_sep, fields_lines h.lines rfl rfl hs.lines (by simp)]
  rfl

/-! ## Any buffer -/

/-- What stands before the first blank. -/
def rawMethod (buf : Bytes) : Bytes := buf.takeWhile (· != charByte ' ')

/-- What stands between the first blank and the second. -/
def rawUri (buf : Bytes) : Bytes :=
  (buf.dropWhile (· != charByte ' ')).tail.takeWhile (· != charByte ' ')

theorem takeWhile_ne_of_not_mem {c : UInt8} {m : Bytes} (h : c ∉ m) :
    m.takeWhile (· != c) = m ∧ m.dropWhile (· != c) = [] := by
  have hm : ∀ b ∈ m, (b != c) = true := by
    intro b hb
    simpa using ne_of_mem_of_not_mem hb h
  exact ⟨List.takeWhile_eq_self_iff.mpr hm, List.dropWhile_eq_nil_iff.mpr hm⟩

theorem takeWhile_ne_append {c : UInt8} {m : Bytes} (h : c ∉ m) (rest : Bytes) :
    (m ++ c :: rest).takeWhile (· != c) = m ∧ (m ++ c :: rest).dropWhile (· != c) = c :: rest := by
  have hm : ∀ b ∈ m, (b != c) = true := by
    intro b hb
    simpa using ne_of_mem_of_not_mem hb h
  constructor
  · rw [List.takeWhile_append_of_pos hm]
    simp
  · rw [List.dropWhile_append_of_pos hm]
    simp

/-- Behind the URI the first two fields do not change any more. -/
theorem parseByte_keeps {s : Parser} (hm : s.state ≠ .method) (hu : s.state ≠ .uri) (c : UInt8) :
    (parseByte s c).state ≠ .method ∧ (parseByte s c).state ≠ .uri ∧
      (parseByte s c).req.method = s.req.method ∧ (parseByte s c).req.uri = s.req.uri := by
  obtain ⟨st, dest, key, req⟩ := s
  cases st with
  | method => exact absurd rfl hm
  | uri => exact absurd rfl hu
  | version => simp only [parseByte, Parser.store]; split_ifs <;> simp
  | headerKey => simp only [parseByte, Parser.store]; split_ifs <;> simp
  | headerValue skip => simp only [parseByte, Parser.store, Parser.endHeader]; split_ifs <;> simp
  | body => simp [parseByte]
  | done => simp [parseByte]

theorem foldl_keeps (u : Bytes) {s : Parser} (hm : s.state ≠ .method) (hu : s.state ≠ .uri) :
    (u.foldl parseByte s).fields.method = s.req.method ∧
      (u.foldl parseByte s).fields.uri = s.req.uri := by
  induction u generalizing s with
  | nil =>
    obtain ⟨st, dest, key, req⟩ := s
    cases st <;> simp_all [Parser.fields]
  | cons c u ih =>
    obtain ⟨hm', hu', hmethod, huri⟩ := parseByte_keeps hm hu c
    have hrest := ih hm' hu'
    rw [List.foldl_cons]
    exact ⟨hrest.1.trans hmethod, hrest.2.trans huri⟩

/-- **The first two fields of any buffer.** -/
theorem parseFields_method_uri (buf : Bytes) :
    (parseFields buf).method = (rawMethod buf).take 15 ∧
      (parseFields buf).uri = (rawUri buf).take 4095 := by
  by_cases hsp : charByte ' ' ∈ buf
  · obtain ⟨m, rest, rfl, hm⟩ := List.eq_append_cons_of_mem hsp
    obtain ⟨htake, hdrop⟩ := takeWhile_ne_append hm rest
    have hmethod : rawMethod (m ++ charByte ' ' :: rest) = m := htake
    have huri : rawUri (m ++ charByte ' ' :: rest) = rest.takeWhile (· != charByte ' ') := by
      rw [rawUri, hdrop, List.tail_cons]
    rw [hmethod, huri, parseFields, foldl_method hm]
    by_cases hsp' : charByte ' ' ∈ rest
    · obtain ⟨u, rest, rfl, hu⟩ := List.eq_append_cons_of_mem hsp'
      rw [foldl_uri hu, (takeWhile_ne_append hu rest).1]
      exact foldl_keeps rest (by simp) (by simp)
    · rw [foldl_token parseByte_uri rest rfl (fun c hc => ne_of_mem_of_not_mem hc hsp') (by simp),
        (takeWhile_ne_of_not_mem hsp').1]
      exact ⟨rfl, rfl⟩
  · -- no blank at all: the URI stays empty
    obtain ⟨htake, hdrop⟩ := takeWhile_ne_of_not_mem hsp
    have hmethod : rawMethod buf = buf := htake
    have huri : rawUri buf = [] := by rw [rawUri, hdrop]; rfl
    rw [hmethod, huri, parseFields, foldl_token parseByte_method buf rfl
      (fun c hc => ne_of_mem_of_not_mem hc hsp) (by simp)]
    exact ⟨rfl, rfl⟩

/-- No line ends inside what is stored behind the URI. -/
structure Parser.Clean (s : Parser) : Prop where
  dest : s.state ≠ .method → s.state ≠ .uri → OneLine s.dest
  key : OneLine s.key
  version : OneLine s.req.version
  headers : ∀ h ∈ s.req.headers, OneLine h.key ∧ OneLine h.value

theorem Parser.Clean.store {s : Parser} (h : s.Clean) (limit : ℕ) {c : UInt8}
    (hc : s.state ≠ .method → s.state ≠ .uri → c ≠ charByte '\r' ∧ c ≠ charByte '\n') :
    (s.store limit c).Clean := by
  unfold Parser.store
  split_ifs
  · refine ⟨fun hm hu => ?_, h.key, h.version, h.headers⟩
    exact (h.dest hm hu).snoc (hc hm hu)
  · exact h

theorem Parser.Clean.endHeader {s : Parser} (h : s.Clean) (hd : OneLine s.dest) :
    s.endHeader.Clean := by
  refine ⟨fun _ _ => OneLine.nil, h.key, h.version, ?_⟩
  intro x hx
  rcases List.mem_append.mp hx with hx | hx
  · exact h.headers x hx
  · rw [List.mem_singleton.mp hx]
    exact ⟨h.key, hd⟩

theorem Parser.Clean.parseByte {s : Parser} (h : s.Clean) (c : UInt8) : (parseByte s c).Clean := by
  obtain ⟨st, dest, key, req⟩ := s
  cases st with
  | method =>
    simp only [Celeritas.parseByte]
    split_ifs
    · exact ⟨fun _ hu => absurd rfl hu, h.key, h.version, h.headers⟩
    · exact h.store 15 fun hm => absurd rfl hm
  | uri =>
    simp only [Celeritas.parseByte]
    split_ifs
    · exact ⟨fun _ _ => OneLine.nil, h.key, h.version, h.headers⟩
    · exact h.store 4095 fun _ hu => absurd rfl hu
  | version =>
    have hd : OneLine dest := h.dest (by simp) (by simp)
    simp only [Celeritas.parseByte]
    split_ifs with hcr hlf
    · exact h
    · exact ⟨fun _ _ => OneLine.nil, h.key, hd, h.headers⟩
    · exact h.store 15 fun _ _ => ⟨hcr, hlf⟩
  | headerKey =>
    have hd : OneLine dest := h.dest (by simp) (by simp)
    simp only [Celeritas.parseByte]
    split_ifs with hcolon hcr hlf
    · exact ⟨fun _ _ => OneLine.nil, hd, h.version, h.headers⟩
    · exact h
    · exact ⟨fun _ _ => hd, h.key, h.version, h.headers⟩
    · exact h.store 127 fun _ _ => ⟨hcr, hlf⟩
  | headerValue skip =>
    have hd : OneLine dest := h.dest (by simp) (by simp)
    have hfalse : Parser.Clean ⟨.headerValue false, dest, key, req⟩ :=
      ⟨fun _ _ => hd, h.key, h.version, h.headers⟩
    simp only [Celeritas.parseByte]
    split_ifs with hskip hcr hlf
    · exact h
    · exact hfalse
    · exact hfalse.endHeader hd
    · exact hfalse.store 4095 fun _ _ => ⟨hcr, hlf⟩
  | body => exact ⟨fun _ _ => h.dest (by simp) (by simp), h.key, h.version, h.headers⟩
  | done => exact h

theorem Parser.Clean.foldl {s : Parser} (h : s.Clean) (buf : Bytes) :
    (buf.foldl Celeritas.parseByte s).Clean := by
  induction buf generalizing s with
  | nil => exact h
  | cons c buf ih => exact ih (h.parseByte c)

/-- **The other fields of any buffer** have no line break inside. -/
theorem oneLine_parseFields (buf : Bytes) :
    OneLine (parseFields buf).version ∧
      ∀ h ∈ (parseFields buf).headers, OneLine h.key ∧ OneLine h.value := by
  have hinit : Parser.Clean {} :=
    ⟨fun hm => absurd rfl hm, OneLine.nil, OneLine.nil, fun h hm => absurd hm List.not_mem_nil⟩
  have hclean := hinit.foldl buf
  unfold parseFields
  cases hst : (buf.foldl parseByte {}).state with
  | version =>
    have hd := hclean.dest (by simp [hst]) (by simp [hst])
    simp only [Parser.fields, hst]
    exact ⟨hd, hclean.headers⟩
  | _ =>
    simp only [Parser.fields, hst]
    exact ⟨hclean.version, hclean.headers⟩

end Celeritas
