import Celeritas.Http.Reading
import Celeritas.Lib.Buffer

/-!
# The buffer of the header reader

`read_http_headers` once more, with `header_buffer` as the array it is: each read goes behind
what has been read, a NUL behind that, and the search for the marker runs from the front of
the array to the first NUL. A write outside of the array has no result, and neither has a
search in an array without a NUL.

It does what `readHttpHeaders` does (`readHttpHeadersInto_refines`). What the result depends
on is the stream alone: how it is cut into reads decides only how much comes along behind the
marker (`header_reading_independent`).
-/

set_option autoImplicit false

namespace Celeritas

open CLib Lib

/-- What `read_http_headers` sets in `request_ctx_t`. `body_overshoot_start` is an index into
the buffer. -/
structure RequestCtx where
  headerBuffer : Bytes
  headerBytesRead : ℕ
  bodyOvershootBytes : ℕ
  bodyOvershootStart : Option ℕ
  deriving DecidableEq

/-- `calloc` -/
def RequestCtx.zeroed : RequestCtx := ⟨padded HEADER_BUFFER_SIZE 0 [], 0, 0, none⟩

namespace RequestCtx

/-- What `conn_read` is asked for. -/
def room (ctx : RequestCtx) : ℕ := MAX_HEADER_SIZE - 1 - ctx.headerBytesRead

/-- `conn_read` has brought `got`. -/
def receive (ctx : RequestCtx) (got : Bytes) : Option RequestCtx :=
  (writeAt ctx.headerBuffer ctx.headerBytesRead got).bind fun buf =>
    (writeAt buf (ctx.headerBytesRead + got.length) [0]).map fun buf =>
      { ctx with headerBuffer := buf, headerBytesRead := ctx.headerBytesRead + got.length }

/-- The marker is at `i`. -/
def complete (ctx : RequestCtx) (i : ℕ) : RequestCtx :=
  let totalHeaderLength := i + 4
  let overshoot := sizeOfInt ((ctx.headerBytesRead : ℤ) - totalHeaderLength)
  { ctx with
    headerBytesRead := totalHeaderLength
    bodyOvershootBytes := overshoot
    bodyOvershootStart := if 0 < overshoot then some (i + 4) else none }

end RequestCtx

/-- The end of a call: what it returns, how many of its calls of `conn_read` brought
something, and what the socket still holds. -/
structure HeaderRead where
  status : ℤ
  ctx : RequestCtx
  reads : ℕ
  rest : List SockEvent
  deriving DecidableEq

theorem size_leftover {seg : Bytes} {n : ℕ} (hn : 0 < n) (evs : List SockEvent) :
    (pending (leftover seg n evs)).length + (leftover seg n evs).length <
      (pending (.data seg :: evs)).length + (SockEvent.data seg :: evs).length := by
  unfold leftover
  split_ifs
  · simp only [pending, List.length_append, List.length_cons]
    omega
  · simp only [pending, List.length_append, List.length_cons, List.length_drop]
    omega

/-- `read_http_headers`, after `reads` reads. -/
def readHttpHeadersInto (ctx : RequestCtx) (reads : ℕ) (evs : List SockEvent) :
    Option HeaderRead :=
  if hroom : ctx.headerBytesRead < MAX_HEADER_SIZE - 1 then
    match evs with
    | [] => some ⟨-2, ctx, reads, []⟩
    | .interrupted :: evs => readHttpHeadersInto ctx reads evs
    | .wouldBlock ready :: evs =>
      if ready then readHttpHeadersInto ctx reads evs else some ⟨-4, ctx, reads, evs⟩
    | .error :: evs => some ⟨-1, ctx, reads, evs⟩
    | .data seg :: evs =>
      if seg.take ctx.room = [] then some ⟨-2, ctx, reads, evs⟩
      else
        match ctx.receive (seg.take ctx.room) with
        | none => none
        | some ctx' =>
          match strstrIn ctx'.headerBuffer eoh with
          | none => none
          | some (some i) => some ⟨0, ctx'.complete i, reads + 1, leftover seg ctx.room evs⟩
          | some none => readHttpHeadersInto ctx' (reads + 1) (leftover seg ctx.room evs)
  else some ⟨-3, ctx, reads, evs⟩
termination_by (pending evs).length + evs.length
decreasing_by
  · simp [pending]
  · simp [pending]
  · exact size_leftover (Nat.sub_pos_of_lt hroom) evs

/-! ## What is in the buffer -/

/-- `buf` has been read, and no header is complete. -/
structure RequestCtx.Holds (ctx : RequestCtx) (buf : Bytes) : Prop where
  size : ctx.headerBuffer.length = HEADER_BUFFER_SIZE
  read : ctx.headerBytesRead = buf.length
  front : buf <+: ctx.headerBuffer
  overshoot : ctx.bodyOvershootBytes = 0

theorem RequestCtx.holds_zeroed : RequestCtx.zeroed.Holds [] where
  size := length_padded (Nat.zero_le _)
  read := rfl
  front := List.nil_prefix
  overshoot := rfl

theorem RequestCtx.Holds.room_eq {ctx : RequestCtx} {buf : Bytes} (h : ctx.Holds buf) :
    ctx.room = MAX_HEADER_SIZE - 1 - buf.length := by
  rw [RequestCtx.room, h.read]

/-- **A read stays in the buffer**, and the marker is looked for in what has been read. -/
theorem RequestCtx.Holds.receive {ctx : RequestCtx} {buf : Bytes} (h : ctx.Holds buf)
    {got : Bytes} (hfit : buf.length + got.length ≤ MAX_HEADER_SIZE - 1) :
    ∃ ctx', ctx.receive got = some ctx' ∧ ctx'.Holds (buf ++ got) ∧
      strstrIn ctx'.headerBuffer eoh = some (strstr (buf ++ got) eoh) := by
  have hsize : HEADER_BUFFER_SIZE = MAX_HEADER_SIZE := rfl
  obtain ⟨cells, hcells, hfront, hlen⟩ := writeAt_of_prefix h.front got (by
    rw [h.size, hsize]
    omega)
  obtain ⟨cells', hcells', hfront', hlen'⟩ := writeAt_of_prefix hfront [0] (by
    rw [hlen, h.size, hsize, List.length_append, List.length_singleton]
    have : 0 < MAX_HEADER_SIZE := by decide
    omega)
  refine ⟨{ ctx with headerBuffer := cells', headerBytesRead := (buf ++ got).length }, ?_, ?_, ?_⟩
  · rw [RequestCtx.receive, h.read, hcells, Option.bind_some, ← List.length_append, hcells']
    rfl
  · exact ⟨hlen'.trans (hlen.trans h.size), rfl, (List.prefix_append _ _).trans hfront',
      h.overshoot⟩
  · have h0 : 0 ∈ cells' := hfront'.subset (by simp)
    rw [strstrIn, if_pos h0, strstr, cstr_of_prefix hfront', strstr]

theorem RequestCtx.Holds.receive_take {ctx : RequestCtx} {buf : Bytes} (h : ctx.Holds buf)
    (hle : buf.length ≤ MAX_HEADER_SIZE - 1) (seg : Bytes) :
    (buf ++ seg.take ctx.room).length ≤ MAX_HEADER_SIZE - 1 ∧
      ∃ ctx', ctx.receive (seg.take ctx.room) = some ctx' ∧ ctx'.Holds (buf ++ seg.take ctx.room) ∧
        strstrIn ctx'.headerBuffer eoh = some (strstr (buf ++ seg.take ctx.room) eoh) := by
  have hlen : buf.length + (seg.take ctx.room).length ≤ MAX_HEADER_SIZE - 1 := by
    have := List.length_take_le ctx.room seg
    rw [h.room_eq] at this ⊢
    omega
  exact ⟨List.length_append ▸ hlen, h.receive hlen⟩

/-! ## It does what `readHttpHeaders` does -/

/-- A segment without the marker: what does not fit of it is left for the next read, of which
there is none. -/
theorem readHttpHeaders_data {buf seg : Bytes} {evs : List SockEvent}
    (hroom : buf.length < MAX_HEADER_SIZE - 1) (hseg : seg ≠ [])
    (hnone : strstr (buf ++ seg.take (MAX_HEADER_SIZE - 1 - buf.length)) eoh = none) :
    readHttpHeaders buf (.data seg :: evs) =
      readHttpHeaders (buf ++ seg.take (MAX_HEADER_SIZE - 1 - buf.length))
        (leftover seg (MAX_HEADER_SIZE - 1 - buf.length) evs) := by
  rw [readHttpHeaders, if_pos hroom]
  simp only [hseg, if_false, hnone]
  split_ifs with hfit
  · rw [List.take_of_length_le hfit, leftover, if_pos hfit]
  · have hfull : ¬ (buf ++ seg.take (MAX_HEADER_SIZE - 1 - buf.length)).length <
        MAX_HEADER_SIZE - 1 := by
      rw [List.length_append, List.length_take]
      omega
    rw [leftover, if_neg hfit, readHttpHeaders, if_neg hfull]

/-- What a call has come to, against what `readHttpHeaders` says: besides, what has been read
is in the buffer, and with what is still to come it makes up the stream. -/
structure Refines (buf : Bytes) (evs : List SockEvent) (r : HeaderRead) : Prop where
  rest : r.rest = (readHttpHeaders buf evs).2
  result : match (readHttpHeaders buf evs).1 with
    | .complete _ n overshoot => r.status = 0 ∧ r.ctx.headerBytesRead = n ∧
        r.ctx.bodyOvershootBytes = overshoot ∧
        r.ctx.bodyOvershootStart = if 0 < overshoot then some n else none
    | .failed status => r.status = status ∧ r.ctx.bodyOvershootBytes = 0 ∧
        (status = -3 ↔ r.ctx.headerBytesRead = MAX_HEADER_SIZE - 1)
  stream : ∃ got, got <+: r.ctx.headerBuffer ∧ got ++ pending r.rest = buf ++ pending evs ∧
    got.length = r.ctx.headerBytesRead + r.ctx.bodyOvershootBytes

/-- A call that ends without another read. -/
theorem refines_failed {ctx : RequestCtx} {buf : Bytes} (h : ctx.Holds buf) {status : ℤ}
    {reads : ℕ} {evs rest : List SockEvent}
    (hread : readHttpHeaders buf evs = (.failed status, rest))
    (hrest : pending rest = pending evs)
    (hstatus : status = -3 ↔ ctx.headerBytesRead = MAX_HEADER_SIZE - 1) :
    Refines buf evs ⟨status, ctx, reads, rest⟩ where
  rest := by rw [hread]
  result := by
    rw [hread]
    exact ⟨rfl, h.overshoot, hstatus⟩
  stream := ⟨buf, h.front, by rw [hrest], by rw [h.read, h.overshoot, Nat.add_zero]⟩

theorem Refines.of_eq {buf buf' : Bytes} {evs evs' : List SockEvent} {r : HeaderRead}
    (h : Refines buf' evs' r) (hread : readHttpHeaders buf evs = readHttpHeaders buf' evs')
    (hstream : buf' ++ pending evs' = buf ++ pending evs) : Refines buf evs r where
  rest := hread ▸ h.rest
  result := hread ▸ h.result
  stream := hstream ▸ h.stream

theorem pending_leftover (seg : Bytes) (n : ℕ) (evs : List SockEvent) :
    seg.take n ++ pending (leftover seg n evs) = pending (.data seg :: evs) := by
  unfold leftover
  split_ifs with h
  · rw [List.take_of_length_le h, pending]
  · rw [pending, ← List.append_assoc, List.take_append_drop, pending]

/-- The read that brings the marker. -/
theorem refines_complete {ctx : RequestCtx} {buf seg : Bytes} {room reads i : ℕ}
    {evs : List SockEvent} (hroom : room = MAX_HEADER_SIZE - 1 - buf.length)
    (hlt : buf.length < MAX_HEADER_SIZE - 1) (hseg : seg ≠ [])
    (hlen : (buf ++ seg.take room).length ≤ MAX_HEADER_SIZE - 1)
    (h : ctx.Holds (buf ++ seg.take room)) (hfind : strstr (buf ++ seg.take room) eoh = some i) :
    Refines buf (.data seg :: evs) ⟨0, ctx.complete i, reads, leftover seg room evs⟩ := by
  have hread : readHttpHeaders buf (.data seg :: evs) =
      (.complete (buf ++ seg.take room) (i + 4) ((buf ++ seg.take room).length - (i + 4)),
        leftover seg room evs) := by
    rw [readHttpHeaders, if_pos hlt]
    simp only [hseg, if_false, ← hroom, hfind]
  have hle : i + 4 ≤ (buf ++ seg.take room).length :=
    (indexOf_add_le hfind (by decide)).trans (length_cstr_le _)
  have hover : (ctx.complete i).bodyOvershootBytes =
      (buf ++ seg.take room).length - (i + 4) := by
    have hmax : MAX_HEADER_SIZE = 8192 := rfl
    simp only [RequestCtx.complete, sizeOfInt, h.read]
    omega
  refine ⟨by rw [hread], ?_, ⟨_, h.front, ?_, ?_⟩⟩
  · rw [hread]
    refine ⟨rfl, rfl, hover, ?_⟩
    rw [← hover]
    rfl
  · rw [List.append_assoc, pending_leftover]
  · rw [hover]
    exact (Nat.add_sub_of_le hle).symm

/-- The same, for the call itself. -/
theorem refines_ends {ctx : RequestCtx} {buf : Bytes} (status : ℤ) (rest : List SockEvent)
    (h : ctx.Holds buf) (hle : buf.length ≤ MAX_HEADER_SIZE - 1) {reads : ℕ} {evs : List SockEvent}
    (hinto : readHttpHeadersInto ctx reads evs = some ⟨status, ctx, reads, rest⟩)
    (hread : readHttpHeaders buf evs = (.failed status, rest))
    (hrest : pending rest = pending evs)
    (hstatus : status = -3 ↔ ctx.headerBytesRead = MAX_HEADER_SIZE - 1) :
    ∃ r, readHttpHeadersInto ctx reads evs = some r ∧
      r.reads + buf.length ≤ reads + (MAX_HEADER_SIZE - 1) ∧ Refines buf evs r :=
  ⟨_, hinto, Nat.add_le_add_left hle _, refines_failed h hread hrest hstatus⟩

/-- **The buffer is that of `readHttpHeaders`**, which never leaves it, and every read but the
last takes one of the bytes it has room for. -/
theorem readHttpHeadersInto_refines (ctx : RequestCtx) (reads : ℕ) (evs : List SockEvent)
    {buf : Bytes} (h : ctx.Holds buf) (hle : buf.length ≤ MAX_HEADER_SIZE - 1) :
    ∃ r, readHttpHeadersInto ctx reads evs = some r ∧
      r.reads + buf.length ≤ reads + (MAX_HEADER_SIZE - 1) ∧ Refines buf evs r := by
  induction ctx, reads, evs using readHttpHeadersInto.induct generalizing buf with
  | case1 ctx reads hroom =>
    -- the end of the stream
    refine refines_ends (-2) [] h hle ?_ ?_ rfl (iff_of_false (by decide) hroom.ne)
    · rw [readHttpHeadersInto, dif_pos hroom]
    · rw [readHttpHeaders, if_pos (h.read ▸ hroom)]
  | case2 ctx reads hroom evs ih =>
    -- `EINTR`
    obtain ⟨r, hr, hreads, href⟩ := ih h hle
    rw [readHttpHeadersInto, dif_pos hroom]
    refine ⟨r, hr, hreads, href.of_eq ?_ rfl⟩
    rw [readHttpHeaders, if_pos (h.read ▸ hroom)]
  | case3 ctx reads hroom evs ih =>
    -- `EAGAIN`, and `poll` finds the socket readable
    obtain ⟨r, hr, hreads, href⟩ := ih h hle
    rw [readHttpHeadersInto, dif_pos hroom]
    refine ⟨r, hr, hreads, href.of_eq ?_ rfl⟩
    rw [readHttpHeaders, if_pos (h.read ▸ hroom)]
    exact if_pos rfl
  | case4 ctx reads hroom ready evs hready =>
    -- `EAGAIN`, and `poll` times out
    refine refines_ends (-4) evs h hle ?_ ?_ rfl (iff_of_false (by decide) hroom.ne)
    · rw [readHttpHeadersInto, dif_pos hroom]
      simp only [hready, Bool.false_eq_true, if_false]
    · rw [readHttpHeaders, if_pos (h.read ▸ hroom)]
      exact if_neg hready
  | case5 ctx reads hroom evs =>
    -- any other error
    refine refines_ends (-1) evs h hle ?_ ?_ rfl (iff_of_false (by decide) hroom.ne)
    · rw [readHttpHeadersInto, dif_pos hroom]
    · rw [readHttpHeaders, if_pos (h.read ▸ hroom)]
  | case6 ctx reads hroom seg evs hgot =>
    -- a read of nothing, which is the end of the stream
    have hseg : seg = [] := (List.take_eq_nil_iff.mp hgot).resolve_left
      (Nat.sub_pos_of_lt hroom).ne'
    subst hseg
    refine refines_ends (-2) evs h hle ?_ ?_ rfl (iff_of_false (by decide) hroom.ne)
    · rw [readHttpHeadersInto, dif_pos hroom]
      simp only [List.take_nil, if_true]
    · rw [readHttpHeaders, if_pos (h.read ▸ hroom)]
      exact if_pos rfl
  | case7 ctx reads hroom seg evs hgot hrec =>
    -- a write outside of the buffer, which there is none of
    obtain ⟨-, ctx', hrec', -⟩ := h.receive_take hle seg
    exact absurd (hrec.symm.trans hrec') (by simp)
  | case8 ctx reads hroom seg evs hgot ctx' hrec hstr =>
    -- a search that leaves the buffer, likewise
    obtain ⟨-, ctx'', hrec', -, hstr'⟩ := h.receive_take hle seg
    obtain rfl := Option.some.inj (hrec.symm.trans hrec')
    exact absurd (hstr.symm.trans hstr') (by simp)
  | case9 ctx reads hroom seg evs hgot ctx' hrec i hstr =>
    -- the read that brings the marker
    obtain ⟨hlen, ctx'', hrec', hholds, hstr'⟩ := h.receive_take hle seg
    obtain rfl := Option.some.inj (hrec.symm.trans hrec')
    have hfind := Option.some.inj (hstr'.symm.trans hstr)
    have hlt := h.read ▸ hroom
    rw [readHttpHeadersInto, dif_pos hroom]
    simp only [hgot, if_false, hrec, hstr]
    refine ⟨_, rfl, ?_, ?_⟩
    · show reads + 1 + buf.length ≤ reads + (MAX_HEADER_SIZE - 1)
      omega
    · exact refines_complete h.room_eq hlt (fun hseg => hgot (by rw [hseg, List.take_nil])) hlen
        hholds hfind
  | case10 ctx reads hroom seg evs hgot ctx' hrec hstr ih =>
    -- a read without it
    obtain ⟨hlen, ctx'', hrec', hholds, hstr'⟩ := h.receive_take hle seg
    obtain rfl := Option.some.inj (hrec.symm.trans hrec')
    have hnone := Option.some.inj (hstr'.symm.trans hstr)
    obtain ⟨r, hr, hreads, href⟩ := ih hholds hlen
    rw [readHttpHeadersInto, dif_pos hroom]
    simp only [hgot, if_false, hrec, hstr]
    refine ⟨r, hr, ?_, href.of_eq ?_ ?_⟩
    · have hpos : 0 < (seg.take ctx.room).length := List.length_pos_iff.mpr hgot
      rw [List.length_append] at hreads
      omega
    · rw [h.room_eq] at hnone ⊢
      exact readHttpHeaders_data (h.read ▸ hroom)
        (fun hseg => hgot (by rw [hseg, List.take_nil])) hnone
    · rw [List.append_assoc, pending_leftover]
  | case11 ctx reads evs hfull =>
    -- the buffer is full
    have hfull' : ¬ buf.length < MAX_HEADER_SIZE - 1 := h.read ▸ hfull
    have hread : ctx.headerBytesRead = MAX_HEADER_SIZE - 1 := by
      have := h.read
      omega
    refine refines_ends (-3) evs h hle ?_ ?_ rfl (iff_of_true rfl hread)
    · rw [readHttpHeadersInto.eq_def, dif_neg hfull]
    · rw [readHttpHeaders.eq_def]
      cases evs <;> exact if_neg hfull'

/-! ## What the stream calls for -/

/-- The first end-of-header marker ends at `n`, with no NUL before it. -/
structure BlockEnd (stream : Bytes) (n : ℕ) : Prop where
  nul_free : 0 ∉ stream.take n
  marker : eoh <:+ stream.take n
  first : ∀ m < n, ¬ eoh <:+ stream.take m

theorem BlockEnd.unique {stream : Bytes} {m n : ℕ} (hm : BlockEnd stream m)
    (hn : BlockEnd stream n) : m = n := by
  rcases Nat.lt_trichotomy m n with h | h | h
  · exact absurd hm.marker (hn.first m h)
  · exact h
  · exact absurd hn.marker (hm.first n h)

theorem BlockEnd.le_length {stream : Bytes} {n : ℕ} (h : BlockEnd stream n) :
    n ≤ stream.length := by
  by_contra hlt
  have hmarker := h.marker
  rw [List.take_of_length_le (Nat.not_le.mp hlt).le, ← List.take_length (l := stream)] at hmarker
  exact h.first _ (Nat.not_le.mp hlt) hmarker

/-- The first end-of-header marker ends at `n`, with no NUL before it, and early enough. -/
structure HeaderEnd (stream : Bytes) (n : ℕ) : Prop where
  le : n ≤ MAX_HEADER_SIZE - 1
  nul_free : 0 ∉ stream.take n
  marker : eoh <:+ stream.take n
  first : ∀ m < n, ¬ eoh <:+ stream.take m

theorem HeaderEnd.blockEnd {stream : Bytes} {n : ℕ} (h : HeaderEnd stream n) :
    BlockEnd stream n := ⟨h.nul_free, h.marker, h.first⟩

theorem HeaderEnd.le_length {stream : Bytes} {n : ℕ} (h : HeaderEnd stream n) :
    n ≤ stream.length := h.blockEnd.le_length

theorem HeaderEnd.isHeaderBlock {stream : Bytes} {n : ℕ} (h : HeaderEnd stream n) :
    4 ≤ n ∧ IsHeaderBlock (stream.take n) := by
  have hlen : (stream.take n).length = n := List.length_take_of_le h.le_length
  have h4 : 4 ≤ n := by
    have := h.marker.length_le
    rwa [hlen] at this
  have htake : ∀ j, j + 4 ≤ n →
      (eoh <+: (stream.take n).drop j ↔ eoh <:+ stream.take (j + 4)) := by
    intro j hj
    have hiff : eoh <:+ (stream.take n).take (j + 4) ↔ eoh <+: (stream.take n).drop j :=
      suffix_take_iff (hlen.symm ▸ hj)
    rw [List.take_take, Nat.min_eq_left hj] at hiff
    exact hiff.symm
  refine ⟨h4, h.nul_free, hlen.trans_le h.le, ?_⟩
  rw [hlen, indexOf_eq_some_iff (by decide), htake _ (by omega), Nat.sub_add_cancel h4]
  refine ⟨h.marker, ?_⟩
  intro j hj
  rw [htake j (by omega)]
  exact h.first _ (by omega)

/-- It is what the search finds when the buffer is full or the stream has ended. -/
theorem strstr_take_iff {stream : Bytes} {i : ℕ} :
    strstr (stream.take (MAX_HEADER_SIZE - 1)) eoh = some i ↔ HeaderEnd stream (i + 4) := by
  constructor
  · intro h
    obtain ⟨hocc, hfirst⟩ := (indexOf_eq_some_iff (by decide)).mp h
    have hle : i + 4 ≤ (cstr (stream.take (MAX_HEADER_SIZE - 1))).length :=
      indexOf_add_le h (by decide)
    -- up to the marker the stream and the string are the same
    have htake : ∀ m, m ≤ i + 4 →
        stream.take m = (cstr (stream.take (MAX_HEADER_SIZE - 1))).take m := by
      intro m hm
      obtain ⟨rest, hrest⟩ : cstr (stream.take (MAX_HEADER_SIZE - 1)) <+: stream :=
        (List.takeWhile_prefix _).trans (List.take_prefix _ _)
      conv_lhs => rw [← hrest]
      exact List.take_append_of_le_length (hm.trans hle)
    have hmarker : ∀ j, j + 4 ≤ i + 4 → (eoh <:+ stream.take (j + 4) ↔
        eoh <+: (cstr (stream.take (MAX_HEADER_SIZE - 1))).drop j) := by
      intro j hj
      rw [htake _ hj]
      exact suffix_take_iff (hj.trans hle)
    refine ⟨?_, ?_, (hmarker i (Nat.le_refl _)).mpr hocc, ?_⟩
    · exact hle.trans ((length_cstr_le _).trans (List.length_take_le _ _))
    · rw [htake _ (Nat.le_refl _)]
      exact fun h0 => zero_not_mem_cstr _ (List.mem_of_mem_take h0)
    · intro m hm hsuf
      have h4 : 4 ≤ m := hsuf.length_le.trans (List.length_take_le _ _)
      rw [← Nat.sub_add_cancel h4, hmarker _ (by omega)] at hsuf
      exact hfirst (m - 4) (by omega) hsuf
  · intro h
    obtain ⟨-, hblock⟩ := h.isHeaderBlock
    have hlen : (stream.take (i + 4)).length = i + 4 := List.length_take_of_le h.le_length
    have hsplit : stream.take (MAX_HEADER_SIZE - 1) = stream.take (i + 4) ++
        (stream.drop (i + 4)).take (MAX_HEADER_SIZE - 1 - (i + 4)) := by
      rw [← List.take_add, Nat.add_sub_of_le h.le]
    rw [hsplit, hblock.strstr_append, hlen, Nat.add_sub_cancel]

theorem HeaderEnd.strstr_take {stream : Bytes} {n : ℕ} (h : HeaderEnd stream n) :
    strstr (stream.take (MAX_HEADER_SIZE - 1)) eoh = some (n - 4) := by
  rw [strstr_take_iff, Nat.sub_add_cancel h.isHeaderBlock.1]
  exact h

theorem HeaderEnd.unique {stream : Bytes} {m n : ℕ} (hm : HeaderEnd stream m)
    (hn : HeaderEnd stream n) : m = n := hm.blockEnd.unique hn.blockEnd

/-- An event that brings something or lets the reader go on. -/
def SockEvent.Delivers : SockEvent → Prop
  | .data seg => seg ≠ []
  | .interrupted => True
  | .wouldBlock ready => ready = true
  | .error => False

instance : DecidablePred SockEvent.Delivers
  | .data seg => inferInstanceAs (Decidable (seg ≠ []))
  | .interrupted => .isTrue trivial
  | .wouldBlock ready => inferInstanceAs (Decidable (ready = true))
  | .error => .isFalse id

/-- The result that the stream calls for, however it is cut. -/
def Verdict (stream : Bytes) (result : ReadResult) : Prop :=
  match strstr (stream.take (MAX_HEADER_SIZE - 1)) eoh with
  | some i => ∃ buf overshoot, result = .complete buf (i + 4) overshoot
  | none => result = .failed (if stream.length < MAX_HEADER_SIZE - 1 then -2 else -3)

/-- Something has come between: the call has failed, and not for the length. -/
def CutShort (evs : List SockEvent) (result : ReadResult) : Prop :=
  (∃ e ∈ evs, ¬ e.Delivers) ∧ ∃ status, result = .failed status ∧ status ≠ -3

theorem CutShort.cons {evs : List SockEvent} {result : ReadResult} (h : CutShort evs result)
    (e : SockEvent) : CutShort (e :: evs) result := by
  obtain ⟨⟨e', hmem, he'⟩, hfailed⟩ := h
  exact ⟨⟨e', List.mem_cons_of_mem e hmem, he'⟩, hfailed⟩

theorem cutShort_head {e : SockEvent} {evs : List SockEvent} {status : ℤ} (he : ¬ e.Delivers)
    (hne : status ≠ -3) : CutShort (e :: evs) (.failed status) :=
  ⟨⟨e, List.mem_cons_self, he⟩, status, rfl, hne⟩

/-- What is found in a part of a string is what there is to find in it. -/
theorem strstr_append_of_some {a : Bytes} {i : ℕ} (h : strstr a eoh = some i) (b : Bytes) :
    strstr (a ++ b) eoh = some i := by
  -- behind a NUL nothing is looked at; without one the search goes on into `b`
  by_cases h0 : 0 ∈ a
  · obtain ⟨s, t, rfl⟩ := List.append_of_mem h0
    have hend : ∀ u, cstr (s ++ 0 :: u) = cstr s := fun u => cstr_of_prefix ⟨u, by simp⟩
    rw [List.append_assoc, List.cons_append, strstr, hend, ← hend t]
    exact h
  · rw [strstr, cstr_append b h0]
    rw [strstr, cstr_eq_self h0] at h
    exact indexOf_append (by decide) _ h

/-- A full buffer. -/
theorem verdict_full {buf : Bytes} (hfull : buf.length = MAX_HEADER_SIZE - 1)
    (hnone : strstr buf eoh = none) (evs : List SockEvent) (rest : Bytes) :
    Verdict (buf ++ rest) (readHttpHeaders buf evs).1 := by
  have htake : (buf ++ rest).take (MAX_HEADER_SIZE - 1) = buf := hfull ▸ List.take_left
  have hlen : ¬ (buf ++ rest).length < MAX_HEADER_SIZE - 1 := by
    rw [List.length_append]
    omega
  rw [Verdict, htake, hnone, readHttpHeaders.eq_def]
  simp only [hlen, if_false, hfull, Nat.lt_irrefl]
  cases evs <;> rfl

theorem verdict_data {buf seg : Bytes} {evs : List SockEvent}
    (hroom : buf.length < MAX_HEADER_SIZE - 1) (hseg : seg ≠ [])
    (ih : ∀ buf, buf.length ≤ MAX_HEADER_SIZE - 1 → strstr buf eoh = none →
      Verdict (buf ++ pending evs) (readHttpHeaders buf evs).1 ∨
        CutShort evs (readHttpHeaders buf evs).1) :
    Verdict (buf ++ pending (.data seg :: evs)) (readHttpHeaders buf (.data seg :: evs)).1 ∨
      CutShort (.data seg :: evs) (readHttpHeaders buf (.data seg :: evs)).1 := by
  set got := seg.take (MAX_HEADER_SIZE - 1 - buf.length) with hgot
  have hlen : (buf ++ got).length ≤ MAX_HEADER_SIZE - 1 := by
    rw [List.length_append, hgot, List.length_take]
    omega
  rw [← pending_leftover seg (MAX_HEADER_SIZE - 1 - buf.length), ← List.append_assoc, ← hgot]
  cases hfind : strstr (buf ++ got) eoh with
  | some i =>
    have htake : ∀ rest : Bytes, strstr ((buf ++ got ++ rest).take (MAX_HEADER_SIZE - 1)) eoh =
        some i := by
      intro rest
      rw [List.take_append, List.take_of_length_le hlen]
      exact strstr_append_of_some hfind _
    left
    rw [Verdict, htake, readHttpHeaders, if_pos hroom]
    simp only [hseg, if_false, ← hgot, hfind]
    exact ⟨_, _, rfl⟩
  | none =>
    rw [readHttpHeaders_data hroom hseg hfind, ← hgot]
    by_cases hfit : seg.length ≤ MAX_HEADER_SIZE - 1 - buf.length
    · rw [leftover, if_pos hfit]
      exact (ih _ hlen hfind).imp_right fun h => h.cons _
    · -- the rest of the segment never gets into the buffer
      left
      apply verdict_full _ hfind
      rw [List.length_append, hgot, List.length_take]
      omega

/-- Whatever the socket does, the verdict is on the stream if nothing comes between. -/
theorem verdict_or_cutShort (evs : List SockEvent) (buf : Bytes)
    (hle : buf.length ≤ MAX_HEADER_SIZE - 1) (hnone : strstr buf eoh = none) :
    Verdict (buf ++ pending evs) (readHttpHeaders buf evs).1 ∨
      CutShort evs (readHttpHeaders buf evs).1 := by
  induction evs generalizing buf with
  | nil =>
    have htake : buf.take (MAX_HEADER_SIZE - 1) = buf := List.take_of_length_le hle
    left
    rw [pending, List.append_nil, Verdict, htake, hnone, readHttpHeaders]
    split_ifs <;> rfl
  | cons e evs ih =>
    by_cases hroom : buf.length < MAX_HEADER_SIZE - 1
    · cases e with
      | interrupted =>
        rw [readHttpHeaders, if_pos hroom]
        exact (ih buf hle hnone).imp_right fun h => h.cons _
      | wouldBlock ready =>
        rw [readHttpHeaders, if_pos hroom]
        cases ready with
        | true => exact (ih buf hle hnone).imp_right fun h => h.cons _
        | false => exact .inr (cutShort_head (by decide) (by decide))
      | error =>
        rw [readHttpHeaders, if_pos hroom]
        exact .inr (cutShort_head (by decide) (by decide))
      | data seg =>
        by_cases hseg : seg = []
        · rw [readHttpHeaders, if_pos hroom, if_pos hseg]
          exact .inr (cutShort_head (not_not_intro hseg) (by decide))
        · exact verdict_data hroom hseg ih
    · exact .inl (verdict_full (Nat.le_antisymm hle (Nat.not_lt.mp hroom)) hnone _ _)

/-- **The verdict is on the stream**: no segmentation changes it. -/
theorem verdict_readHttpHeaders (evs : List SockEvent) (hd : ∀ e ∈ evs, e.Delivers) (buf : Bytes)
    (hle : buf.length ≤ MAX_HEADER_SIZE - 1) (hnone : strstr buf eoh = none) :
    Verdict (buf ++ pending evs) (readHttpHeaders buf evs).1 := by
  refine (verdict_or_cutShort evs buf hle hnone).resolve_right ?_
  rintro ⟨⟨e, hmem, he⟩, -⟩
  exact he (hd e hmem)

/-- The reader gives up for the length of the header only if there is no marker in what its
buffer takes, whatever else befalls it. -/
theorem strstr_of_full {evs rest : List SockEvent} {buf : Bytes}
    (hle : buf.length ≤ MAX_HEADER_SIZE - 1) (hnone : strstr buf eoh = none)
    (h : readHttpHeaders buf evs = (.failed (-3), rest)) :
    strstr ((buf ++ pending evs).take (MAX_HEADER_SIZE - 1)) eoh = none := by
  have hresult : (readHttpHeaders buf evs).1 = .failed (-3) := by rw [h]
  rcases verdict_or_cutShort evs buf hle hnone with hverdict | ⟨-, status, hstatus, hne⟩
  · cases hfind : strstr ((buf ++ pending evs).take (MAX_HEADER_SIZE - 1)) eoh with
    | none => rfl
    | some i =>
      rw [Verdict, hfind, hresult] at hverdict
      obtain ⟨_, _, hcomplete⟩ := hverdict
      cases hcomplete
  · rw [hresult] at hstatus
    injection hstatus with heq
    exact absurd heq.symm hne

/-- What a call comes to when what is delivered is `stream`. -/
structure FollowsStream (stream : Bytes) (r : HeaderRead) : Prop where
  reads : r.reads ≤ MAX_HEADER_SIZE - 1
  complete : r.status = 0 ↔ ∃ n, HeaderEnd stream n
  /-- the header, what came along behind it, and what has not been read -/
  header : ∀ n, HeaderEnd stream n →
    r.ctx.headerBytesRead = n ∧ r.ctx.headerBuffer.take n = stream.take n ∧
    (r.ctx.headerBuffer.drop n).take r.ctx.bodyOvershootBytes ++ pending r.rest =
      stream.drop n ∧
    r.ctx.bodyOvershootStart = if r.ctx.bodyOvershootBytes = 0 then none else some n
  full : r.status = -3 ↔ (¬ ∃ n, HeaderEnd stream n) ∧ r.ctx.headerBytesRead = MAX_HEADER_SIZE - 1
  ended : r.status = -2 ↔ (¬ ∃ n, HeaderEnd stream n) ∧ stream.length < MAX_HEADER_SIZE - 1

/-- A call that succeeds. -/
theorem followsStream_complete {evs : List SockEvent} {r : HeaderRead} {buf : Bytes}
    {i overshoot : ℕ} (href : Refines [] evs r) (hreads : r.reads ≤ MAX_HEADER_SIZE - 1)
    (hend : HeaderEnd (pending evs) (i + 4))
    (hcomplete : (readHttpHeaders [] evs).1 = .complete buf (i + 4) overshoot) :
    FollowsStream (pending evs) r := by
  have hresult := href.result
  rw [hcomplete] at hresult
  obtain ⟨hstatus, hread, hover, hstart⟩ := hresult
  obtain ⟨got, hfront, hstream, hlen⟩ := href.stream
  rw [List.nil_append] at hstream
  rw [hread, hover] at hlen
  have hany : ∃ n, HeaderEnd (pending evs) n := ⟨i + 4, hend⟩
  refine ⟨hreads, iff_of_true hstatus hany, ?_, ?_, ?_⟩
  · intro n hn
    obtain rfl := hend.unique hn
    -- what has been read is the header and the overshoot
    have htaken : r.ctx.headerBuffer.take (i + 4 + overshoot) = got := by
      rw [← hlen]
      exact (List.prefix_iff_eq_take.mp hfront).symm
    rw [hread, hover, hstart]
    refine ⟨rfl, ?_, ?_, ?_⟩
    · rw [← hstream, List.take_append_of_le_length (by omega), ← htaken, List.take_take,
        Nat.min_eq_left (Nat.le_add_right _ _)]
    · rw [← hstream, List.drop_append_of_le_length (by omega), ← htaken, List.drop_take,
        Nat.add_sub_cancel_left]
    · split_ifs <;> first | rfl | omega
  · exact iff_of_false (by rw [hstatus]; decide) fun h => h.1 hany
  · exact iff_of_false (by rw [hstatus]; decide) fun h => h.1 hany

/-- A call that gives up. -/
theorem followsStream_failed {evs : List SockEvent} {r : HeaderRead} (href : Refines [] evs r)
    (hreads : r.reads ≤ MAX_HEADER_SIZE - 1) (hnot : ¬ ∃ n, HeaderEnd (pending evs) n)
    (hfailed : (readHttpHeaders [] evs).1 =
      .failed (if (pending evs).length < MAX_HEADER_SIZE - 1 then -2 else -3)) :
    FollowsStream (pending evs) r := by
  have hresult := href.result
  rw [hfailed] at hresult
  obtain ⟨hstatus, -, hfull⟩ := hresult
  refine ⟨hreads, iff_of_false ?_ hnot, fun n hend => absurd ⟨n, hend⟩ hnot, ?_, ?_⟩
  · rw [hstatus]
    split_ifs <;> decide
  · rw [hstatus, hfull, and_iff_right hnot]
  · rw [hstatus, and_iff_right hnot]
    split_ifs with hshort
    · exact iff_of_true rfl hshort
    · exact iff_of_false (by decide) hshort

/-- **What a call comes to depends on the stream, not on how it is cut**: it stays in its
buffer, succeeds if the header ends early enough, and otherwise gives up when the buffer is
full or the stream at its end. -/
theorem header_reading_independent (evs : List SockEvent) (hd : ∀ e ∈ evs, e.Delivers) :
    ∃ r, readHttpHeadersInto .zeroed 0 evs = some r ∧ FollowsStream (pending evs) r := by
  obtain ⟨r, hr, hreads, href⟩ :=
    readHttpHeadersInto_refines .zeroed 0 evs RequestCtx.holds_zeroed (Nat.zero_le _)
  have hverdict := verdict_readHttpHeaders evs hd [] (Nat.zero_le _) (by decide)
  have hreads' : r.reads ≤ MAX_HEADER_SIZE - 1 := by simpa using hreads
  rw [List.nil_append, Verdict] at hverdict
  refine ⟨r, hr, ?_⟩
  cases hfind : strstr ((pending evs).take (MAX_HEADER_SIZE - 1)) eoh with
  | some i =>
    simp only [hfind] at hverdict
    obtain ⟨buf, overshoot, hcomplete⟩ := hverdict
    exact followsStream_complete href hreads' (strstr_take_iff.mp hfind) hcomplete
  | none =>
    simp only [hfind] at hverdict
    have hnot : ¬ ∃ n, HeaderEnd (pending evs) n := by
      rintro ⟨n, hend⟩
      exact absurd (hend.strstr_take.symm.trans hfind) (by simp)
    exact followsStream_failed href hreads' hnot hverdict

/-- A head whose end-of-header marker comes in two reads, the second with a byte more. -/
def cutHead : List SockEvent :=
  [.data (lit "GET / HTTP/1.0\r\n\r"), .interrupted, .wouldBlock true, .data (lit "\nx")]

theorem header_reading_independent_cutHead :
    ∃ r, readHttpHeadersInto .zeroed 0 cutHead = some r ∧ FollowsStream (pending cutHead) r :=
  header_reading_independent cutHead (by decide +kernel)

example : readHttpHeaders [] cutHead =
    (.complete (lit "GET / HTTP/1.0\r\n\r\nx") 18 1, []) := by decide +kernel

end Celeritas
