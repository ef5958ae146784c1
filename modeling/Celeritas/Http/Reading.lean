import Celeritas.Http.Request

/-!
# Where a read ends

`read_http_headers` looks for the end-of-header marker after every `conn_read`, so it stops
with the first read that brings the marker, and everything that read brought is in its
buffer. Which read that is depends on how the stream is cut into segments and on nothing
else: `arrived` says where it ends without looking at a single byte, and
`readHttpHeaders_block` says that the function agrees, for every segmentation.
-/

set_option autoImplicit false

namespace Celeritas

open CLib

/-- A header block: a string of at most `MAX_HEADER_SIZE - 1` bytes that ends with its first
end-of-header marker. -/
structure IsHeaderBlock (block : Bytes) : Prop where
  nul_free : 0 ∉ block
  length_le : block.length ≤ MAX_HEADER_SIZE - 1
  marker : indexOf eoh block = some (block.length - 4)

/-- The bytes still to be read. -/
def pending : List SockEvent → Bytes
  | [] => []
  | .data seg :: evs => seg ++ pending evs
  | .interrupted :: evs => pending evs
  | .wouldBlock _ :: evs => pending evs
  | .error :: evs => pending evs

/-- How many bytes have come when the read that brings the `n`-th returns; `none` if the
stream ends, fails or goes silent before. -/
def arrived (n : ℕ) : List SockEvent → Option ℕ
  | [] => none
  | .interrupted :: evs => arrived n evs
  | .wouldBlock ready :: evs => if ready then arrived n evs else none
  | .error :: _ => none
  | .data seg :: evs =>
    if seg = [] then none
    else if n ≤ seg.length then some seg.length
    else (arrived (n - seg.length) evs).map (seg.length + ·)

/-- The stream after `n` bytes of it. -/
def discard (n : ℕ) : List SockEvent → List SockEvent
  | [] => []
  | e :: evs =>
    if n = 0 then e :: evs
    else match e with
      | .data seg =>
        if n < seg.length then .data (seg.drop n) :: evs else discard (n - seg.length) evs
      | _ => discard n evs

theorem pending_append (evs later : List SockEvent) :
    pending (evs ++ later) = pending evs ++ pending later := by
  induction evs with
  | nil => rfl
  | cons e evs ih =>
    cases e with
    | data seg =>
      rw [List.cons_append, pending, pending, ih, List.append_assoc]
    | interrupted => exact ih
    | wouldBlock ready => exact ih
    | error => exact ih

@[simp] theorem discard_zero (evs : List SockEvent) : discard 0 evs = evs := by
  cases evs <;> simp [discard]

theorem pending_discard : ∀ (n : ℕ) (evs : List SockEvent),
    pending (discard n evs) = (pending evs).drop n := by
  intro n evs
  induction evs generalizing n with
  | nil => simp [discard, pending]
  | cons e evs ih =>
    rcases Nat.eq_zero_or_pos n with rfl | hn
    · simp
    · cases e with
      | data seg =>
        by_cases hl : n < seg.length
        · simp [discard, hn.ne', hl, pending, List.drop_append_of_le_length hl.le]
        · have hdrop : seg.drop n = [] := List.drop_eq_nil_of_le (Nat.le_of_not_lt hl)
          simp only [discard, hn.ne', hl, if_false, pending]
          rw [ih, List.drop_append, hdrop, List.nil_append]
      | interrupted | wouldBlock | error => simpa [discard, hn.ne', pending] using ih n

/-- The read that brings the `n`-th byte brings no more than the stream has. -/
theorem arrived_bounds {n : ℕ} {evs : List SockEvent} {k : ℕ} (h : arrived n evs = some k) :
    n ≤ k ∧ k ≤ (pending evs).length := by
  induction evs generalizing n k with
  | nil => simp [arrived] at h
  | cons e evs ih =>
    cases e with
    | interrupted => exact ih h
    | wouldBlock ready =>
      cases ready with
      | false => simp [arrived] at h
      | true => exact ih h
    | error => simp [arrived] at h
    | data seg =>
      simp only [arrived] at h
      split_ifs at h with hseg hn
      · cases h
        simp only [pending, List.length_append]
        omega
      · obtain ⟨j, hj, rfl⟩ := Option.map_eq_some_iff.mp h
        have := ih hj
        simp only [pending, List.length_append]
        omega

/-! ## The search for the marker -/

theorem IsHeaderBlock.four_le {block : Bytes} (h : IsHeaderBlock block) : 4 ≤ block.length :=
  (Nat.le_add_left 4 _).trans (indexOf_add_le h.marker (by decide))

/-- The marker is found in whatever starts with the block, where the block ends. -/
theorem IsHeaderBlock.strstr_append {block : Bytes} (h : IsHeaderBlock block) (rest : Bytes) :
    strstr (block ++ rest) eoh = some (block.length - 4) := by
  rw [strstr, cstr_append rest h.nul_free]
  exact indexOf_append (by decide) _ h.marker

/-- It is not found in less than the block. -/
theorem IsHeaderBlock.strstr_take {block : Bytes} (h : IsHeaderBlock block) {n : ℕ}
    (hn : n < block.length) : strstr (block.take n) eoh = none := by
  have hz : 0 ∉ block.take n := fun hm => h.nul_free (List.mem_of_mem_take hm)
  have hlen : eoh.length = 4 := rfl
  have := h.four_le
  rw [strstr, cstr_eq_self hz, indexOf_take (by decide) n h.marker, if_neg (by omega)]

/-! ## What is complete -/

/-- `read_http_headers` succeeds with what ends at the first marker of its buffer. -/
theorem readHttpHeaders_complete {evs rest : List SockEvent} {start buf : Bytes} {n k : ℕ}
    (h : readHttpHeaders start evs = (.complete buf n k, rest)) :
    ∃ i, strstr buf eoh = some i ∧ n = i + 4 := by
  induction evs generalizing start with
  | nil =>
    unfold readHttpHeaders at h
    split_ifs at h <;> cases h
  | cons e evs ih =>
    unfold readHttpHeaders at h
    split_ifs at h with hroom
    · cases e with
      | interrupted => exact ih h
      | wouldBlock ready =>
        cases ready with
        | true => exact ih h
        | false => cases h
      | error => cases h
      | data seg =>
        simp only at h
        by_cases hseg : seg = []
        · rw [if_pos hseg] at h
          cases h
        · rw [if_neg hseg] at h
          cases hfind : strstr (start ++ seg.take (MAX_HEADER_SIZE - 1 - start.length)) eoh with
          | some i =>
            rw [hfind] at h
            cases h
            exact ⟨i, hfind, rfl⟩
          | none =>
            rw [hfind] at h
            simp only at h
            split_ifs at h
            · exact ih h
            · cases h
    · cases h

/-- What the parser is given is a string. -/
theorem zero_not_mem_of_strstr {buf : Bytes} {i : ℕ} (h : strstr buf eoh = some i) :
    0 ∉ buf.take (i + 4) := by
  have hle : i + 4 ≤ (cstr buf).length := indexOf_add_le h (by decide)
  have htake : buf.take (i + 4) = (cstr buf).take (i + 4) := by
    obtain ⟨t, ht⟩ : cstr buf <+: buf := List.takeWhile_prefix _
    conv_lhs => rw [← ht]
    exact List.take_append_of_le_length hle
  rw [htake]
  intro hm
  exact zero_not_mem_cstr buf (List.mem_of_mem_take hm)

/-! ## `read_http_headers` on a segmented stream -/

/-- What `read_http_headers` does when what it has and what is to come is a block and more:
it fails if the block does not come, and otherwise stops with the read that completes it. -/
def ReadsBlock (block tail buf : Bytes) (evs : List SockEvent) : Prop :=
  match arrived (block.length - buf.length) evs with
  | none => ∃ st evs', readHttpHeaders buf evs = (.failed st, evs')
  | some k =>
    let m := min (buf.length + k) (MAX_HEADER_SIZE - 1)
    readHttpHeaders buf evs =
      (.complete ((block ++ tail).take m) block.length (m - block.length),
        discard (m - buf.length) evs)

/-- An event that brings nothing and ends nothing. -/
theorem ReadsBlock.skip {block tail buf : Bytes} {e : SockEvent} {evs : List SockEvent}
    (h : ReadsBlock block tail buf evs) (hblock : block.length ≤ MAX_HEADER_SIZE - 1)
    (hlt : buf.length < block.length)
    (hread : readHttpHeaders buf (e :: evs) = readHttpHeaders buf evs)
    (harr : ∀ n, arrived n (e :: evs) = arrived n evs)
    (hdisc : ∀ m, 0 < m → discard m (e :: evs) = discard m evs) :
    ReadsBlock block tail buf (e :: evs) := by
  unfold ReadsBlock at *
  rw [harr]
  cases hk : arrived (block.length - buf.length) evs with
  | none =>
    rw [hk] at h
    rwa [hread]
  | some k =>
    rw [hk] at h
    have := (arrived_bounds hk).1
    simp only at h ⊢
    rw [hread, hdisc _ (by omega)]
    exact h

/-- The read that brings the last byte of the block. -/
theorem readsBlock_last {block tail buf seg : Bytes} (h : IsHeaderBlock block)
    {evs : List SockEvent} (heq : buf ++ pending (.data seg :: evs) = block ++ tail)
    (hlt : buf.length < block.length) (hlast : block.length - buf.length ≤ seg.length) :
    ReadsBlock block tail buf (.data seg :: evs) := by
  have hmax := h.length_le
  have h4 := h.four_le
  have hne : seg ≠ [] := fun hs => by rw [hs, List.length_nil] at hlast; omega
  -- what is in the buffer after the read: as much as there is, or as much as fits
  let m := min (buf.length + seg.length) (MAX_HEADER_SIZE - 1)
  have hbuf : buf ++ seg.take (MAX_HEADER_SIZE - 1 - buf.length) = (block ++ tail).take m := by
    have hm : m - buf.length ≤ seg.length := by omega
    have hbm : buf.length ≤ m := by omega
    rw [← heq, List.take_append, List.take_of_length_le hbm, pending,
      List.take_append_of_le_length hm]
    congr 1
    rcases Nat.le_total (buf.length + seg.length) (MAX_HEADER_SIZE - 1) with hle | hle
    · rw [List.take_of_length_le (by omega), List.take_of_length_le (by omega)]
    · rw [show m - buf.length = MAX_HEADER_SIZE - 1 - buf.length by omega]
  have htake : (block ++ tail).take m = block ++ tail.take (m - block.length) := by
    rw [List.take_append, List.take_of_length_le (by omega)]
  have hlen : ((block ++ tail).take m).length = m := by
    have := congrArg List.length heq
    simp only [pending, List.length_append] at this
    rw [List.length_take, List.length_append]
    omega
  have hfind : strstr ((block ++ tail).take m) eoh = some (block.length - 4) :=
    htake ▸ h.strstr_append _
  have harr : arrived (block.length - buf.length) (.data seg :: evs) = some seg.length := by
    simp only [arrived, hne, if_false, if_pos hlast]
  have hdisc : discard (m - buf.length) (.data seg :: evs) =
      leftover seg (MAX_HEADER_SIZE - 1 - buf.length) evs := by
    have hpos : m - buf.length ≠ 0 := by omega
    simp only [discard, hpos, if_false, leftover]
    rcases Nat.lt_or_ge (MAX_HEADER_SIZE - 1 - buf.length) seg.length with hfit | hfit
    · have hm : m - buf.length = MAX_HEADER_SIZE - 1 - buf.length := by omega
      rw [if_pos (hm ▸ hfit), if_neg (Nat.not_le.mpr hfit), hm]
    · have hm : m - buf.length = seg.length := by omega
      rw [if_neg (Nat.not_lt.mpr hm.ge), if_pos hfit, hm, Nat.sub_self, discard_zero]
  simp only [ReadsBlock, harr]
  rw [readHttpHeaders, if_pos (hlt.trans_le hmax)]
  simp only [hne, if_false, hbuf, hfind, hlen, Nat.sub_add_cancel h4]
  rw [← hdisc]

/-- A read after which the block is not complete. -/
theorem readsBlock_more {block tail buf seg : Bytes} (h : IsHeaderBlock block)
    {evs : List SockEvent} (heq : buf ++ pending (.data seg :: evs) = block ++ tail)
    (hne : seg ≠ []) (hmore : seg.length < block.length - buf.length)
    (ih : ReadsBlock block tail (buf ++ seg) evs) :
    ReadsBlock block tail buf (.data seg :: evs) := by
  have hmax := h.length_le
  have hfit : seg.length ≤ MAX_HEADER_SIZE - 1 - buf.length := by omega
  have hbuf : buf ++ seg = block.take (buf ++ seg).length := by
    have hpre : buf ++ seg <+: block ++ tail := ⟨pending evs, by rw [← heq]; simp [pending]⟩
    refine List.prefix_iff_eq_take.mp (List.prefix_of_prefix_length_le hpre ?_ ?_)
    · exact List.prefix_append _ _
    · rw [List.length_append]; omega
  have hfind : strstr (buf ++ seg) eoh = none := by
    rw [hbuf]
    exact h.strstr_take (by rw [List.length_append]; omega)
  have hread : readHttpHeaders buf (.data seg :: evs) = readHttpHeaders (buf ++ seg) evs := by
    rw [readHttpHeaders, if_pos (by omega)]
    simp only [hne, if_false, List.take_of_length_le hfit, hfind, if_pos hfit]
  have harr : arrived (block.length - buf.length) (.data seg :: evs) =
      (arrived (block.length - (buf ++ seg).length) evs).map (seg.length + ·) := by
    simp only [arrived, hne, if_false, if_neg (Nat.not_le.mpr hmore), List.length_append,
      Nat.sub_sub]
  unfold ReadsBlock at *
  rw [harr]
  cases hk : arrived (block.length - (buf ++ seg).length) evs with
  | none =>
    rw [hk] at ih
    rwa [Option.map_none, hread]
  | some k =>
    rw [hk] at ih
    have hle := (arrived_bounds hk).1
    rw [List.length_append] at hle ih
    simp only [Option.map_some, ← Nat.add_assoc] at ih ⊢
    -- the segment is consumed, and then as much as after it
    have hpos : min (buf.length + seg.length + k) (MAX_HEADER_SIZE - 1) - buf.length ≠ 0 := by
      omega
    have hge : ¬ min (buf.length + seg.length + k) (MAX_HEADER_SIZE - 1) - buf.length <
        seg.length := by omega
    rw [hread, ih]
    simp only [discard, hpos, hge, if_false, Nat.sub_sub]

theorem readsBlock {block : Bytes} (tail : Bytes) (h : IsHeaderBlock block) :
    ∀ (evs : List SockEvent) (buf : Bytes), buf ++ pending evs = block ++ tail →
      buf.length < block.length → ReadsBlock block tail buf evs := by
  intro evs
  induction evs with
  | nil =>
    intro buf heq hlt
    have hlen := congrArg List.length heq
    simp only [pending, List.append_nil, List.length_append] at hlen
    omega
  | cons e evs ih =>
    intro buf heq hlt
    have hroom : buf.length < MAX_HEADER_SIZE - 1 := hlt.trans_le h.length_le
    cases e with
    | interrupted =>
      refine (ih buf heq hlt).skip h.length_le hlt ?_ (fun _ => rfl) fun m hm => ?_
      · rw [readHttpHeaders, if_pos hroom]
      · simp only [discard, hm.ne', if_false]
    | wouldBlock ready =>
      cases ready with
      | false => exact ⟨-4, evs, by simp [readHttpHeaders, hroom]⟩
      | true =>
        refine (ih buf heq hlt).skip h.length_le hlt ?_ (fun _ => rfl) fun m hm => ?_
        · simp [readHttpHeaders, hroom]
        · simp only [discard, hm.ne', if_false]
    | error => exact ⟨-1, evs, by simp [readHttpHeaders, hroom]⟩
    | data seg =>
      by_cases hseg : seg = []
      · subst hseg
        exact ⟨-2, evs, by simp [readHttpHeaders, hroom]⟩
      · by_cases hlast : block.length - buf.length ≤ seg.length
        · exact readsBlock_last h heq hlt hlast
        · have heq' : buf ++ seg ++ pending evs = block ++ tail := by
            rw [List.append_assoc]
            exact heq
          have hlt' : (buf ++ seg).length < block.length := by
            rw [List.length_append]
            omega
          exact readsBlock_more h heq hseg (Nat.not_le.mp hlast) (ih (buf ++ seg) heq' hlt')

/-- A stream that brings nothing brings no block. -/
theorem readHttpHeaders_of_pending_nil : ∀ (evs : List SockEvent) (buf : Bytes),
    pending evs = [] → ∃ st rest, readHttpHeaders buf evs = (.failed st, rest) := by
  intro evs
  induction evs with
  | nil =>
    intro buf _
    unfold readHttpHeaders
    split_ifs
    · exact ⟨-2, [], rfl⟩
    · exact ⟨-3, [], rfl⟩
  | cons e evs ih =>
    intro buf h
    by_cases hroom : buf.length < MAX_HEADER_SIZE - 1
    · cases e with
      | interrupted =>
        rw [readHttpHeaders, if_pos hroom]
        exact ih buf h
      | wouldBlock ready =>
        cases ready with
        | false => exact ⟨-4, evs, by simp [readHttpHeaders, hroom]⟩
        | true =>
          obtain ⟨st, rest, hrest⟩ := ih buf h
          exact ⟨st, rest, by simpa [readHttpHeaders, hroom] using hrest⟩
      | error => exact ⟨-1, evs, by simp [readHttpHeaders, hroom]⟩
      | data seg =>
        have hseg : seg = [] := (List.append_eq_nil_iff.mp h).1
        exact ⟨-2, evs, by simp [readHttpHeaders, hroom, hseg]⟩
    · exact ⟨-3, e :: evs, by simp [readHttpHeaders, hroom]⟩

end Celeritas
