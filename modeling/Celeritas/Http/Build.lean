import Celeritas.Http.Head
import Celeritas.Http.Lengths
import Celeritas.Http.Send
import Celeritas.Lib.Buffer

/-!
# The header block in its buffer

`resp_build_response` prints the status line, the headers and the empty line one after the
other. `snprintf` returns the length that its text wanted, and what it returns moves the
pointer, the size of what remains and the total. As long as everything fits that is the length
it wrote; from the first text that does not, the pointer and the total are outside of the
buffer and what remains is, in a `size_t`, next to everything.

So the block is built exactly or something is written where it does not belong
(`buildsSafely_iff`): there is nothing in between. The headers of the handlers fit by far
(`respBuildResponseInto_respond`).
-/

set_option autoImplicit false

namespace Celeritas

open CLib Lib
open Builders (IsInt)

/-- `snprintf(buf + p, size, "%s", text)` -/
def snprintfAt (buf : Bytes) (p size : ℕ) (text : Bytes) : Option Bytes :=
  if size = 0 then some buf else writeAt buf p (snprintfStored size text ++ [0])

/-- The variables of `resp_build_response`; `p` is an index into the buffer. -/
structure BlockBuilder where
  buf : Bytes
  p : ℕ
  totalSize : ℕ
  remaining : ℕ

/-- `p += n; total_size += n; remaining -= n` -/
def BlockBuilder.advance (b : BlockBuilder) (buf : Bytes) (n : ℕ) : BlockBuilder where
  buf := buf
  p := b.p + n
  totalSize := (b.totalSize + n) % 2 ^ 64
  remaining := sizeOfInt ((b.remaining : ℤ) - n)

/-- `n = snprintf(p, remaining, …)`, and the three assignments. -/
def BlockBuilder.print (b : BlockBuilder) (text : Bytes) : Option BlockBuilder :=
  (snprintfAt b.buf b.p b.remaining text).map fun buf =>
    b.advance buf (sizeOfInt (snprintfRet text))

def statusLine (statusCode : ℤ) : Bytes :=
  lit "HTTP/1.1 " ++ decimal statusCode ++ lit " " ++ httpStatusToString statusCode.toNat ++ crlf

def headerLine (h : Header) : Bytes := cstr h.key ++ lit ": " ++ cstr h.value ++ crlf

/-- `resp_build_response`: what it returns, and the buffer. -/
def respBuildResponseInto (statusCode : ℤ) (headers : List Header) (buf : Bytes) :
    Option (ℕ × Bytes) :=
  (BlockBuilder.print ⟨buf, 0, 0, buf.length⟩ (statusLine statusCode)).bind fun b =>
    (headers.foldlM (fun (b : BlockBuilder) h => b.print (headerLine h)) b).bind fun b =>
      (b.print crlf).bind fun b =>
        (writeAt b.buf b.totalSize [0]).map fun buf => (b.totalSize, buf)

/-! ## The texts it prints -/

def blockLines (statusCode : ℤ) (headers : List Header) : List Bytes :=
  statusLine statusCode :: headers.map headerLine ++ [crlf]

/-- The header block. -/
def headerBlock (statusCode : ℤ) (headers : List Header) : Bytes :=
  (blockLines statusCode headers).flatten

/-- The header lists the types admit. -/
structure Storable (headers : List Header) : Prop where
  slots : headers.length ≤ 64
  key : ∀ h ∈ headers, h.key.length < 128
  value : ∀ h ∈ headers, h.value.length < 4096

theorem respBuildResponseInto_eq (statusCode : ℤ) (headers : List Header) (buf : Bytes) :
    respBuildResponseInto statusCode headers buf =
      ((blockLines statusCode headers).foldlM BlockBuilder.print ⟨buf, 0, 0, buf.length⟩).bind
        fun b => (writeAt b.buf b.totalSize [0]).map fun buf => (b.totalSize, buf) := by
  simp only [respBuildResponseInto, blockLines, List.cons_append, Option.bind_eq_bind,
    List.foldlM_cons, List.foldlM_append, List.foldlM_map, List.foldlM_nil, Option.bind_assoc,
    Option.pure_def, Option.bind_some]

theorem length_httpStatusToString_le (n : ℕ) : (httpStatusToString n).length ≤ 31 := by
  unfold httpStatusToString
  split <;> exact (length_lit _).trans_le (by decide)

theorem length_statusLine_le {statusCode : ℤ} (h : IsInt statusCode) :
    (statusLine statusCode).length ≤ 54 := by
  have hdec := length_decimal_le h.1 h.2
  have hstatus := length_httpStatusToString_le statusCode.toNat
  have hlit : (lit "HTTP/1.1 ").length = 9 ∧ (lit " ").length = 1 ∧ crlf.length = 2 := by decide
  simp only [statusLine, List.length_append, hlit]
  omega

theorem length_headerLine_le (h : Header) :
    (headerLine h).length ≤ h.key.length + h.value.length + 4 := by
  have hkey := length_cstr_le h.key
  have hvalue := length_cstr_le h.value
  have hlit : (lit ": ").length = 2 ∧ crlf.length = 2 := by decide
  simp only [headerLine, List.length_append, hlit]
  omega

theorem forall_mem_blockLines {statusCode : ℤ} {headers : List Header} {P : Bytes → Prop} :
    (∀ t ∈ blockLines statusCode headers, P t) ↔
      P (statusLine statusCode) ∧ (∀ h ∈ headers, P (headerLine h)) ∧ P crlf := by
  simp [blockLines, or_imp, forall_and]

/-- No text is too long for an `int`. -/
theorem length_le_of_mem_blockLines {statusCode : ℤ} {headers : List Header}
    (hstatus : IsInt statusCode) (hs : Storable headers) :
    ∀ t ∈ blockLines statusCode headers, t.length ≤ 4226 := by
  rw [forall_mem_blockLines]
  refine ⟨(length_statusLine_le hstatus).trans (by decide), fun h hmem => ?_, by decide⟩
  have := length_headerLine_le h
  have := hs.key h hmem
  have := hs.value h hmem
  omega

theorem length_headerBlock_le {statusCode : ℤ} {headers : List Header} {k : ℕ}
    (h : ∀ t ∈ blockLines statusCode headers, t.length ≤ k) :
    (headerBlock statusCode headers).length ≤ (headers.length + 2) * k := by
  have hsum : ∀ texts : List Bytes, (∀ t ∈ texts, t.length ≤ k) →
      texts.flatten.length ≤ texts.length * k := by
    intro texts
    induction texts with
    | nil => simp
    | cons t texts ih =>
      intro hall
      obtain ⟨ht, hrest⟩ := List.forall_mem_cons.mp hall
      have := ih hrest
      rw [List.flatten_cons, List.length_append, List.length_cons, Nat.succ_mul]
      omega
  have hlen : (blockLines statusCode headers).length = headers.length + 2 := by
    simp [blockLines]
  exact hlen ▸ hsum _ h

/-! ## Printing where there is room -/

/-- `done` has been printed into a buffer of `size` bytes, and fitted. -/
structure BlockBuilder.Printed (b : BlockBuilder) (size : ℕ) (done : Bytes) : Prop where
  size_eq : b.buf.length = size
  p : b.p = done.length
  totalSize : b.totalSize = done.length
  remaining : b.remaining + done.length = size
  front : done <+: b.buf

theorem sizeOfInt_snprintfRet {text : Bytes} (h : text.length ≤ intMax) :
    sizeOfInt (snprintfRet text) = text.length := by
  have hmax : intMax = 2 ^ 31 - 1 := rfl
  rw [snprintfRet, if_pos h, sizeOfInt]
  omega

theorem BlockBuilder.Printed.print {b : BlockBuilder} {size : ℕ} {done text : Bytes}
    (h : b.Printed size done) (hsize : size < 2 ^ 64) (htext : text.length ≤ intMax)
    (hfit : done.length + text.length < size) :
    ∃ b', b.print text = some b' ∧ b'.Printed size (done ++ text) := by
  have hrem := h.remaining
  have hstored : snprintfStored b.remaining text = text := List.take_of_length_le (by omega)
  have hroom : done.length + (text ++ [0]).length ≤ b.buf.length := by
    rw [List.length_append, List.length_singleton, h.size_eq]
    omega
  obtain ⟨buf, hbuf, hfront, hlen⟩ := writeAt_of_prefix h.front (text ++ [0]) hroom
  have hwrite : snprintfAt b.buf b.p b.remaining text = some buf := by
    rw [snprintfAt, if_neg (by omega), hstored, h.p, hbuf]
  rw [BlockBuilder.print, hwrite, Option.map_some, sizeOfInt_snprintfRet htext]
  refine ⟨_, rfl, hlen.trans h.size_eq, ?_, ?_, ?_, ?_⟩
  · simp only [advance, h.p, List.length_append]
  · -- no wrap: the total is less than the size of the buffer
    simp only [advance, h.totalSize, List.length_append]
    exact Nat.mod_eq_of_lt (by omega)
  · simp only [advance, List.length_append, sizeOfInt]
    omega
  · rw [← List.append_assoc] at hfront
    exact (List.prefix_append _ _).trans hfront

theorem BlockBuilder.Printed.foldlM {b : BlockBuilder} {size : ℕ} {done : Bytes}
    {texts : List Bytes} (h : b.Printed size done) (hsize : size < 2 ^ 64)
    (htexts : ∀ t ∈ texts, t.length ≤ intMax)
    (hfit : done.length + texts.flatten.length < size) :
    ∃ b', texts.foldlM BlockBuilder.print b = some b' ∧
      b'.Printed size (done ++ texts.flatten) := by
  induction texts generalizing b done with
  | nil => exact ⟨b, rfl, by simpa using h⟩
  | cons t texts ih =>
    obtain ⟨ht, hrest⟩ := List.forall_mem_cons.mp htexts
    -- as long as the rest fits as well, there is room for this one and its terminator
    rw [List.flatten_cons, List.length_append] at hfit
    obtain ⟨b₁, hb₁, hp₁⟩ := h.print hsize ht (by omega)
    obtain ⟨b₂, hb₂, hp₂⟩ := ih hp₁ hrest (by rw [List.length_append]; omega)
    refine ⟨b₂, ?_, ?_⟩
    · rw [List.foldlM_cons, hb₁]
      exact hb₂
    · rwa [List.flatten_cons, ← List.append_assoc]

/-! ## Printing anywhere -/

/-- The total is the length of what was to be printed, also where it was not. -/
theorem BlockBuilder.print_some {b b' : BlockBuilder} {text : Bytes} (h : b.print text = some b')
    (htext : text.length ≤ intMax) (htotal : b.totalSize + text.length < 2 ^ 64) :
    b'.totalSize = b.totalSize + text.length ∧ b'.buf.length = b.buf.length := by
  obtain ⟨buf, hbuf, rfl⟩ := Option.map_eq_some_iff.mp h
  rw [sizeOfInt_snprintfRet htext]
  refine ⟨Nat.mod_eq_of_lt htotal, ?_⟩
  unfold snprintfAt at hbuf
  split at hbuf
  · exact congrArg List.length (Option.some.inj hbuf).symm
  · exact length_writeAt hbuf

theorem BlockBuilder.foldlM_some {b b' : BlockBuilder} {texts : List Bytes}
    (h : texts.foldlM BlockBuilder.print b = some b') (htexts : ∀ t ∈ texts, t.length ≤ intMax)
    (htotal : b.totalSize + texts.flatten.length < 2 ^ 64) :
    b'.totalSize = b.totalSize + texts.flatten.length ∧ b'.buf.length = b.buf.length := by
  induction texts generalizing b with
  | nil =>
    obtain rfl := Option.some.inj h
    exact ⟨rfl, rfl⟩
  | cons t texts ih =>
    obtain ⟨ht, hrest⟩ := List.forall_mem_cons.mp htexts
    rw [List.flatten_cons, List.length_append] at htotal ⊢
    rw [List.foldlM_cons] at h
    obtain ⟨b₁, hb₁, hb'⟩ := Option.bind_eq_some_iff.mp h
    obtain ⟨htotal₁, hlen₁⟩ := print_some hb₁ ht (by omega)
    obtain ⟨htotal', hlen'⟩ := ih hb' hrest (by omega)
    exact ⟨by omega, hlen'.trans hlen₁⟩

/-! ## Exact or out of bounds -/

/-- Nothing is written outside of the buffer, what is returned is the number of bytes of the
block that are in it, and those are all where they fit with their terminator. -/
def BuildsSafely (statusCode : ℤ) (headers : List Header) (buf : Bytes) : Prop :=
  ∃ n buf', respBuildResponseInto statusCode headers buf = some (n, buf') ∧
    n < buf.length ∧ buf'.take n = (headerBlock statusCode headers).take n ∧ buf'[n]? = some 0 ∧
    ((headerBlock statusCode headers).length < buf.length →
      n = (headerBlock statusCode headers).length)

section

variable {statusCode : ℤ} {headers : List Header} {buf : Bytes}

theorem intMax_of_mem (hstatus : IsInt statusCode) (hs : Storable headers) :
    ∀ t ∈ blockLines statusCode headers, t.length ≤ intMax := by
  intro t ht
  exact (length_le_of_mem_blockLines hstatus hs t ht).trans (by decide)

/-- A block that fits. -/
theorem respBuildResponseInto_of_fits (hstatus : IsInt statusCode) (hs : Storable headers)
    (hsize : buf.length < 2 ^ 64) (hfit : (headerBlock statusCode headers).length < buf.length) :
    ∃ buf', respBuildResponseInto statusCode headers buf =
        some ((headerBlock statusCode headers).length, buf') ∧
      headerBlock statusCode headers ++ [0] <+: buf' := by
  have hstart : (⟨buf, 0, 0, buf.length⟩ : BlockBuilder).Printed buf.length [] :=
    ⟨rfl, rfl, rfl, rfl, List.nil_prefix⟩
  obtain ⟨b, hb, hprinted⟩ := hstart.foldlM hsize (intMax_of_mem hstatus hs)
    (by simpa [headerBlock] using hfit)
  rw [List.nil_append, ← headerBlock] at hprinted
  obtain ⟨buf', hbuf', hfront, -⟩ := writeAt_of_prefix hprinted.front [0] (by
    rw [hprinted.size_eq]
    exact hfit)
  refine ⟨buf', ?_, hfront⟩
  rw [respBuildResponseInto_eq, hb, Option.bind_some, hprinted.totalSize, hbuf', Option.map_some]

/-- One that is built at all fits. -/
theorem fits_of_respBuildResponseInto {n : ℕ} {buf' : Bytes} (hstatus : IsInt statusCode)
    (hs : Storable headers) (h : respBuildResponseInto statusCode headers buf = some (n, buf')) :
    (headerBlock statusCode headers).length < buf.length := by
  rw [respBuildResponseInto_eq] at h
  obtain ⟨b, hb, hwrite⟩ := Option.bind_eq_some_iff.mp h
  -- the terminator is the one write that always goes where the total says
  obtain ⟨cells, hcells, -⟩ := Option.map_eq_some_iff.mp hwrite
  have hblock := length_headerBlock_le (length_le_of_mem_blockLines hstatus hs)
  have hslots := hs.slots
  rw [headerBlock] at hblock ⊢
  obtain ⟨htotal, hlen⟩ := BlockBuilder.foldlM_some hb (intMax_of_mem hstatus hs)
    (by rw [Nat.zero_add]; omega)
  rw [Nat.zero_add] at htotal
  have hnone : ¬ b.buf.length < b.totalSize + 1 := by
    intro hlt
    rw [writeAt_eq_none.mpr hlt] at hcells
    cases hcells
  rw [hlen, htotal] at hnone
  exact Nat.not_le.mp fun hle => hnone (Nat.lt_succ_of_le hle)

/-- **The builder is exact if and only if the block fits**, with its terminator. Where it does
not, something is written outside of the buffer. -/
theorem buildsSafely_iff (hstatus : IsInt statusCode) (hs : Storable headers)
    (hsize : buf.length < 2 ^ 64) :
    BuildsSafely statusCode headers buf ↔
      (headerBlock statusCode headers).length < buf.length := by
  constructor
  · rintro ⟨n, buf', h, -⟩
    exact fits_of_respBuildResponseInto hstatus hs h
  · intro hfit
    obtain ⟨buf', h, hfront⟩ := respBuildResponseInto_of_fits hstatus hs hsize hfit
    refine ⟨_, buf', h, hfit, ?_, ?_, fun _ => rfl⟩
    · obtain ⟨rest, rfl⟩ := hfront
      rw [List.append_assoc, List.take_left, List.take_length]
    · obtain ⟨rest, rfl⟩ := hfront
      rw [List.append_assoc, List.getElem?_append_right (Nat.le_refl _), Nat.sub_self]
      rfl

end

def fileHeaders : List Header := [⟨lit "Server", lit "Celeritas/0.10.2"⟩,
  ⟨lit "Content-Type", lit "text/html"⟩, ⟨lit "Content-Length", lit "12"⟩,
  ⟨lit "Connection", lit "keep-alive"⟩]

theorem buildsSafely_iff_fileHeaders :
    (headerBlock 200 fileHeaders).length = 114 ∧
      BuildsSafely 200 fileHeaders (padded HEADER_BUFFER_SIZE 0 []) := by
  have hlen : (headerBlock 200 fileHeaders).length = 114 := by decide +kernel
  have hsize : (padded HEADER_BUFFER_SIZE (0 : UInt8) []).length = HEADER_BUFFER_SIZE :=
    length_padded (Nat.zero_le _)
  refine ⟨hlen, (buildsSafely_iff ⟨by decide, by decide⟩ ⟨by decide, ?_, ?_⟩ ?_).mpr ?_⟩
  · simp only [fileHeaders, List.forall_mem_cons]
    exact ⟨by decide, by decide, by decide, by decide, List.forall_mem_nil _⟩
  · simp only [fileHeaders, List.forall_mem_cons]
    exact ⟨by decide, by decide, by decide, by decide, List.forall_mem_nil _⟩
  · rw [hsize]
    decide
  · rw [hlen, hsize]
    decide

/-- A value as long as it may be. -/
def longValue : Bytes := List.replicate 4095 97

theorem length_longValue : longValue.length = 4095 := List.length_replicate

theorem cstr_longValue : cstr longValue = longValue :=
  cstr_eq_self fun h => absurd (List.eq_of_mem_replicate h) (by decide)

def longHeaders : List Header := [⟨lit "A", longValue⟩, ⟨lit "B", longValue⟩]

theorem longHeaders_not_safe :
    Storable longHeaders ∧ ¬ BuildsSafely 200 longHeaders (padded HEADER_BUFFER_SIZE 0 []) := by
  have hs : Storable longHeaders := by
    refine ⟨by decide, ?_, ?_⟩
    · simp only [longHeaders, List.forall_mem_cons]
      exact ⟨by decide, by decide, List.forall_mem_nil _⟩
    · simp only [longHeaders, List.forall_mem_cons, length_longValue]
      exact ⟨by decide, by decide, List.forall_mem_nil _⟩
  refine ⟨hs, ?_⟩
  rintro ⟨n, buf', h, -⟩
  have hfit := fits_of_respBuildResponseInto ⟨by decide, by decide⟩ hs h
  rw [length_padded (Nat.zero_le _)] at hfit
  simp only [headerBlock, blockLines, longHeaders, List.map_cons, List.map_nil, List.cons_append,
    List.nil_append, List.flatten_cons, List.length_append, headerLine, cstr_longValue,
    length_longValue] at hfit
  have hsize : HEADER_BUFFER_SIZE = 8192 := rfl
  have hlit : (lit ": ").length = 2 := by decide
  omega

/-! ## The handlers' headers -/

/-- Without NULs in the headers, the block is that of `respBuildResponse`. -/
theorem headerBlock_eq (statusCode : ℕ) {headers : List Header}
    (h : ∀ hd ∈ headers, 0 ∉ hd.key ∧ 0 ∉ hd.value) :
    headerBlock statusCode headers = respBuildResponse statusCode headers := by
  have hlines : headers.map headerLine =
      headers.map fun hd => hd.key ++ lit ": " ++ hd.value ++ lit "\r\n" := by
    apply List.map_congr_left
    intro hd hmem
    rw [headerLine, cstr_eq_self (h hd hmem).1, cstr_eq_self (h hd hmem).2]
    rfl
  have hstatus : statusLine statusCode =
      lit "HTTP/1.1 " ++ decimalNat statusCode ++ lit " " ++ httpStatusToString statusCode ++
        lit "\r\n" := rfl
  simp only [headerBlock, blockLines, hlines, hstatus, respBuildResponse, List.flatMap,
    List.cons_append, List.flatten_cons, List.flatten_append, List.flatten_nil, List.append_nil,
    List.append_assoc]
  rfl

/-- A header as the handlers make them. -/
structure Header.Short (h : Header) : Prop where
  key_nul : 0 ∉ h.key
  value_nul : 0 ∉ h.value
  key_le : h.key.length ≤ 16
  value_le : h.value.length ≤ 31

theorem strncpy_spec (src : Bytes) (n : ℕ) :
    0 ∉ strncpy src n ∧ (strncpy src n).length ≤ src.length :=
  ⟨fun h => zero_not_mem_cstr src (List.mem_of_mem_take h),
    ((List.take_sublist _ _).trans (cstr_sublist src)).length_le⟩

theorem short_respAddHeader {name value : Bytes} (hname : name.length ≤ 16)
    (hvalue : value.length ≤ 31) : (respAddHeader name value).Short where
  key_nul := (strncpy_spec name 128).1
  value_nul := (strncpy_spec value 4096).1
  key_le := (strncpy_spec name 128).2.trans hname
  value_le := (strncpy_spec value 4096).2.trans hvalue

theorem short_addInt {name : Bytes} (hname : name.length ≤ 16) (i : ℤ) :
    (HeaderOp.addInt name i).header.Short :=
  short_respAddHeader hname (List.length_take_le _ _)

/-- The sizes of the buffers that the file system, the clock and the configuration answer
in. -/
structure Env.Sized (env : Env) : Prop where
  serverTok : env.serverTok.length < 20
  dateNow : env.dateNow.length < 30
  lastMod : ∀ path size lastMod, (env.files path).stat = some (size, lastMod) →
    lastMod.length < 30

theorem length_getMimeType_le (path : Bytes) : (getMimeType path).length ≤ 24 := by
  have htable : ∀ e ∈ mimeTable, e.2.length ≤ 24 := by decide
  unfold getMimeType
  dsimp only
  split
  · split
    · rename_i e he
      exact htable e (List.mem_of_find?_eq_some he)
    · decide
  · decide

section

variable {env : Env} (henv : env.Sized)
include henv

theorem short_commonHeaders : ∀ op ∈ commonHeaders env, op.header.Short := by
  simp only [commonHeaders, List.forall_mem_cons]
  have hserver := henv.serverTok
  have hdate := henv.dateNow
  exact ⟨short_respAddHeader (by decide) (by omega), short_respAddHeader (by decide) (by omega),
    List.forall_mem_nil _⟩

theorem short_handleError (statusCode : ℕ) :
    ∀ op ∈ (handleError env statusCode).ops, op.header.Short := by
  simp only [handleError, List.forall_mem_append, List.forall_mem_cons]
  refine ⟨⟨⟨short_commonHeaders henv, ?_⟩, ?_⟩, ?_⟩
  · exact ⟨short_respAddHeader (by decide) (by decide),
      short_respAddHeader (by decide) (by decide), List.forall_mem_nil _⟩
  · split
    · rw [List.forall_mem_singleton]
      exact short_respAddHeader (by decide) (by decide)
    · exact List.forall_mem_nil _
  · exact ⟨short_addInt (by decide) _, List.forall_mem_nil _⟩

theorem short_handleOptions (statusCode : ℕ) :
    ∀ op ∈ (handleOptions env statusCode).ops, op.header.Short := by
  simp only [handleOptions, List.forall_mem_append, List.forall_mem_cons]
  exact ⟨short_commonHeaders henv, short_respAddHeader (by decide) (by decide),
    short_respAddHeader (by decide) (by decide), short_addInt (by decide) _,
    short_respAddHeader (by decide) (by decide), List.forall_mem_nil _⟩

theorem short_handleGetHead (statusCode : ℕ) (method : HttpMethod) (uri : Bytes) :
    ∀ op ∈ (handleGetHead env statusCode method uri).ops, op.header.Short := by
  unfold handleGetHead
  dsimp only
  split
  · exact short_handleError henv 404
  · rename_i size lastMod hstat
    have hmime := length_getMimeType_le (resolvePath (strncpy env.docRoot PATH_MAX) uri)
    have hlast := henv.lastMod _ _ _ hstat
    simp only [List.forall_mem_append, List.forall_mem_cons]
    exact ⟨short_commonHeaders henv, short_respAddHeader (by decide) (by omega),
      short_respAddHeader (by decide) (by omega), short_addInt (by decide) _,
      short_respAddHeader (by decide) (by decide), short_respAddHeader (by decide) (by decide),
      List.forall_mem_nil _⟩

theorem short_respond (protocol : Protocol) (r : Http1Req) :
    ∀ hd ∈ (respond env protocol r).2.headers, hd.Short := by
  have hops : ∀ op ∈ (respond env protocol r).2.ops, op.header.Short := by
    refine respond_cases (P := fun resp => ∀ op ∈ resp.ops, op.header.Short) env protocol r
      ?_ ?_ ?_ ?_
    · exact fun st _ => short_handleError henv st
    · exact fun method => short_handleGetHead henv 200 method r.uri
    · exact short_handleOptions henv 200
    · exact List.forall_mem_nil _
  intro hd hmem
  obtain ⟨op, hop, rfl⟩ := List.mem_map.mp hmem
  exact hops op hop

end

/-- A response has at most seven headers and a status of three digits. -/
structure Response.Small (resp : Response) : Prop where
  headers : resp.headers.length ≤ 7
  statusCode : resp.statusCode ≤ 405

theorem small_handleError (env : Env) {statusCode : ℕ} (h : statusCode ≤ 405) :
    (handleError env statusCode).Small where
  headers := by
    simp only [Response.headers, handleError, commonHeaders, List.length_map, List.length_append,
      List.length_cons, List.length_nil]
    split <;> simp
  statusCode := h

theorem small_respond (env : Env) (protocol : Protocol) (r : Http1Req) :
    (respond env protocol r).2.Small := by
  have hok : 200 ≤ 405 := by decide
  refine respond_cases (P := Response.Small) env protocol r ?_ ?_ ?_ ?_
  · exact fun st h => small_handleError env h
  · intro method
    unfold handleGetHead
    dsimp only
    split
    · exact small_handleError env (by decide)
    · exact ⟨by simp [Response.headers, commonHeaders], hok⟩
  · exact ⟨by simp [Response.headers, handleOptions, commonHeaders], hok⟩
  · exact ⟨Nat.zero_le _, hok⟩

/-- **A response of the handlers is built exactly** in the buffer it is built in: what is in
it then is what `respBuildResponse` says. -/
theorem respBuildResponseInto_respond {env : Env} (henv : env.Sized) (protocol : Protocol)
    (r : Http1Req) {buf : Bytes} (hbuf : buf.length = HEADER_BUFFER_SIZE) :
    let resp := (respond env protocol r).2
    let block := respBuildResponse resp.statusCode resp.headers
    ∃ buf', respBuildResponseInto resp.statusCode resp.headers buf = some (block.length, buf') ∧
      block ++ [0] <+: buf' := by
  intro resp block
  have hsmall : resp.Small := small_respond env protocol r
  have hshort := short_respond henv protocol r
  have hstatus : IsInt resp.statusCode := by
    have := hsmall.statusCode
    exact ⟨by omega, by omega⟩
  have hs : Storable resp.headers := by
    refine ⟨hsmall.headers.trans (by decide), fun hd h => ?_, fun hd h => ?_⟩
    · exact (hshort hd h).key_le.trans_lt (by decide)
    · exact (hshort hd h).value_le.trans_lt (by decide)
  have hblock : headerBlock resp.statusCode resp.headers = block :=
    headerBlock_eq _ fun hd h => ⟨(hshort hd h).key_nul, (hshort hd h).value_nul⟩
  have hlines : ∀ t ∈ blockLines resp.statusCode resp.headers, t.length ≤ 54 := by
    rw [forall_mem_blockLines]
    refine ⟨length_statusLine_le hstatus, fun hd h => ?_, by decide⟩
    have := length_headerLine_le hd
    have := (hshort hd h).key_le
    have := (hshort hd h).value_le
    omega
  have hfit : block.length < buf.length := by
    have hle := length_headerBlock_le hlines
    have hcount := hsmall.headers
    have hsize : HEADER_BUFFER_SIZE = 8192 := rfl
    rw [hblock] at hle
    omega
  rw [← hblock] at hfit ⊢
  exact respBuildResponseInto_of_fits hstatus hs (by rw [hbuf]; decide) hfit

end Celeritas
