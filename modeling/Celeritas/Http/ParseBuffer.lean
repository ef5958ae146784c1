import Celeritas.Http.Head
import Celeritas.Lib.Buffer
import Mathlib.Logic.Function.Basic

/-!
# The parser's pointers

`parse_http1` once more, with its two pointers. `p` reads the buffer and is moved by an inner
loop that is stepped back; `dest` and `count` say where the next byte is stored, and are aimed
anew at each transition. A read or a write outside of an array has no result.

Every iteration is what the automaton `parseByte` does with the bytes it has passed
(`Sim.step`). From there the bounds of the arrays are bounds of the automaton's fields, and
they hold because each field stops growing one byte short of its array.
-/

set_option autoImplicit false

namespace Celeritas

open CLib Lib

/-! ## The variables -/

/-- `parse_step_t` -/
inductive PState
  | method
  | uri
  | version
  | headerKey
  | headerValue
  | body
  | done
  deriving DecidableEq

/-- The arrays of `http1_req_t`, and what `dest` points to. -/
inductive Dest
  | method
  | uri
  | version
  | key (i : ℕ)
  | value (i : ℕ)
  deriving DecidableEq

/-- There are 128 header slots. -/
def Dest.size : Dest → ℕ
  | .method => 16
  | .uri => 4096
  | .version => 16
  | .key i => if i < 128 then 128 else 0
  | .value i => if i < 128 then 4096 else 0

structure ParseVars where
  state : PState
  p : ℕ
  dest : Dest
  count : ℕ
  headerIdx : ℕ
  headerCount : ℕ
  arrays : Dest → Bytes

/-- A zeroed context, and the variables as they are initialized. -/
def ParseVars.init : ParseVars where
  state := .method
  p := 0
  dest := .method
  count := 0
  headerIdx := 0
  headerCount := 0
  arrays := fun d => padded d.size 0 []

namespace ParseVars

/-- `dest[count] = c` -/
def put (s : ParseVars) (c : UInt8) : Option ParseVars :=
  (writeAt (s.arrays s.dest) s.count [c]).map fun cells =>
    { s with arrays := Function.update s.arrays s.dest cells }

/-- `else if (count < limit) dest[count++] = c` -/
def append (s : ParseVars) (limit : ℕ) (c : UInt8) : Option ParseVars :=
  if s.count < limit then (s.put c).map fun s => { s with count := s.count + 1 } else some s

/-- `dest = d; count = 0` -/
def aim (s : ParseVars) (d : Dest) : ParseVars := { s with dest := d, count := 0 }

end ParseVars

/-! ## The loop -/

/-- `while (p < end && *p == ' ') p++` -/
def skipBlanks (buf : Bytes) (p : ℕ) : Option ℕ :=
  if p < buf.length then
    match buf[p]? with
    | none => none
    | some c => if c = charByte ' ' then skipBlanks buf (p + 1) else some p
  else some p
termination_by buf.length - p

namespace ParseVars

/-- `HEADER_KEY` on a colon. The blanks are skipped from the byte behind it, and `p` is put
before the first byte that is none. -/
def endKey (buf : Bytes) (s : ParseVars) : Option ParseVars :=
  (s.put 0).bind fun s =>
    (skipBlanks buf (s.p + 1)).map fun p =>
      { s.aim (.value s.headerIdx) with state := .headerValue, p := p - 1 }

/-- `HEADER_VALUE` on a line feed. -/
def endValue (s : ParseVars) : Option ParseVars :=
  (s.put 0).map fun s =>
    let s := { s with headerIdx := s.headerIdx + 1, headerCount := s.headerIdx + 1 }
    if s.headerIdx ≥ 128 then { s with state := .body }
    else { s.aim (.key s.headerIdx) with state := .headerKey }

/-- The `switch` on the state, `c` being `*p`. -/
def switch (buf : Bytes) (s : ParseVars) (c : UInt8) : Option ParseVars :=
  match s.state with
  | .method =>
    if c = charByte ' ' then (s.put 0).map fun s => { s.aim .uri with state := .uri }
    else s.append 15 c
  | .uri =>
    if c = charByte ' ' then (s.put 0).map fun s => { s.aim .version with state := .version }
    else s.append 4095 c
  | .version =>
    if c = charByte '\r' then some s
    else if c = charByte '\n' then
      (s.put 0).map fun s => { s.aim (.key 0) with state := .headerKey, headerIdx := 0 }
    else s.append 15 c
  | .headerKey =>
    if c = charByte ':' then s.endKey buf
    else if c = charByte '\r' then some s
    else if c = charByte '\n' then some { s with state := .body }
    else s.append 127 c
  | .headerValue =>
    if c = charByte '\r' then some s
    else if c = charByte '\n' then s.endValue
    else s.append 4095 c
  | .body | .done => some { s with state := .done }

/-- One iteration. -/
def iterate (buf : Bytes) (s : ParseVars) : Option ParseVars :=
  (buf[s.p]?).bind fun c => (s.switch buf c).map fun s => { s with p := s.p + 1 }

/-! ## Every iteration advances -/

theorem put_p {s s' : ParseVars} {c : UInt8} (h : s.put c = some s') : s'.p = s.p := by
  obtain ⟨cells, -, rfl⟩ := Option.map_eq_some_iff.mp h
  rfl

theorem put_map_p {s s' : ParseVars} {c : UInt8} {f : ParseVars → ParseVars}
    (h : (s.put c).map f = some s') (hf : ∀ t, (f t).p = t.p) : s'.p = s.p := by
  obtain ⟨t, ht, rfl⟩ := Option.map_eq_some_iff.mp h
  exact (hf t).trans (put_p ht)

theorem append_p {s s' : ParseVars} {limit : ℕ} {c : UInt8} (h : s.append limit c = some s') :
    s'.p = s.p := by
  unfold append at h
  split at h
  · exact put_map_p h fun _ => rfl
  · exact (congrArg ParseVars.p (Option.some.inj h)).symm

theorem le_skipBlanks {buf : Bytes} {p q : ℕ} (h : skipBlanks buf p = some q) : p ≤ q := by
  induction p using skipBlanks.induct buf with
  | case1 p hp hnone =>
    rw [skipBlanks, if_pos hp, hnone] at h
    cases h
  | case2 p hp hblank ih =>
    rw [skipBlanks, if_pos hp, hblank] at h
    exact (Nat.le_succ p).trans (ih h)
  | case3 p hp c hc hne =>
    rw [skipBlanks, if_pos hp, hc] at h
    simp only [hne, if_false, Option.some.injEq] at h
    exact h.le
  | case4 p hp =>
    rw [skipBlanks, if_neg hp, Option.some.injEq] at h
    exact h.le

/-- The step back is behind at least one step forward. -/
theorem endKey_p {buf : Bytes} {s s' : ParseVars} (h : s.endKey buf = some s') : s.p ≤ s'.p := by
  obtain ⟨t, ht, hskip⟩ := Option.bind_eq_some_iff.mp h
  obtain ⟨p, hp, rfl⟩ := Option.map_eq_some_iff.mp hskip
  have hle := le_skipBlanks hp
  rw [put_p ht] at hle
  exact Nat.le_sub_one_of_lt hle

theorem endValue_p {s s' : ParseVars} (h : s.endValue = some s') : s'.p = s.p := by
  apply put_map_p h
  intro t
  dsimp only
  split <;> rfl

theorem switch_p {buf : Bytes} {s s' : ParseVars} {c : UInt8} (h : s.switch buf c = some s') :
    s.p ≤ s'.p := by
  unfold switch at h
  cases hs : s.state <;> simp only [hs] at h
  case method =>
    split at h
    · exact (put_map_p h fun _ => rfl).ge
    · exact (append_p h).ge
  case uri =>
    split at h
    · exact (put_map_p h fun _ => rfl).ge
    · exact (append_p h).ge
  case version =>
    split_ifs at h
    · exact (congrArg ParseVars.p (Option.some.inj h)).le
    · exact (put_map_p h fun _ => rfl).ge
    · exact (append_p h).ge
  case headerKey =>
    split_ifs at h
    · exact endKey_p h
    · exact (congrArg ParseVars.p (Option.some.inj h)).le
    · exact (congrArg ParseVars.p (Option.some.inj h)).le
    · exact (append_p h).ge
  case headerValue =>
    split_ifs at h
    · exact (congrArg ParseVars.p (Option.some.inj h)).le
    · exact (endValue_p h).ge
    · exact (append_p h).ge
  case body => exact (congrArg ParseVars.p (Option.some.inj h)).le
  case done => exact (congrArg ParseVars.p (Option.some.inj h)).le

/-- **Every iteration advances**, from whatever variables. -/
theorem iterate_advances {buf : Bytes} {s s' : ParseVars} (h : s.iterate buf = some s') :
    s.p < s'.p := by
  obtain ⟨c, -, hswitch⟩ := Option.bind_eq_some_iff.mp h
  obtain ⟨t, ht, rfl⟩ := Option.map_eq_some_iff.mp hswitch
  exact Nat.lt_succ_of_le (switch_p ht)

/-- `while (p < end && state != P_STATE_DONE)` -/
def loop (buf : Bytes) (s : ParseVars) : Option ParseVars :=
  if s.p < buf.length ∧ s.state ≠ .done then
    match _h : s.iterate buf with
    | none => none
    | some s' => loop buf s'
  else some s
termination_by buf.length - s.p
decreasing_by
  have := iterate_advances _h
  omega

end ParseVars

/-! ## The automaton's fields in the arrays -/

namespace Parser

def pState (q : Parser) : PState :=
  match q.state with
  | .method => .method
  | .uri => .uri
  | .version => .version
  | .headerKey => .headerKey
  | .headerValue _ => .headerValue
  | .body => .body
  | .done => .done

/-- Where the automaton stores the next byte. -/
def aim (q : Parser) : Option Dest :=
  match q.state with
  | .method => some .method
  | .uri => some .uri
  | .version => some .version
  | .headerKey => some (.key q.req.headers.length)
  | .headerValue _ => some (.value q.req.headers.length)
  | .body | .done => none

/-- The key of the header that is not complete. -/
def openKey (q : Parser) : Bytes :=
  match q.state with
  | .method | .uri | .version => []
  | .headerValue _ => q.key
  | .headerKey | .body | .done => q.dest

def openValue (q : Parser) : Bytes :=
  match q.state with
  | .headerValue _ => q.dest
  | _ => []

/-- What has been stored in each array. -/
def stored (q : Parser) : Dest → Bytes
  | .method => q.fields.method
  | .uri => q.fields.uri
  | .version => q.fields.version
  | .key i => (q.req.headers.map Header.key ++ [q.openKey]).getD i []
  | .value i => (q.req.headers.map Header.value ++ [q.openValue]).getD i []

/-- The arrays, which were zeroed. -/
def layout (q : Parser) (d : Dest) : Bytes := padded d.size 0 (q.stored d)

/-- What has not been reached is empty. -/
def Fresh (q : Parser) : Prop :=
  match q.state with
  | .method => q.req.uri = [] ∧ q.req.version = [] ∧ q.req.headers = []
  | .uri => q.req.version = [] ∧ q.req.headers = []
  | .version => q.req.headers = []
  | _ => True

/-- Every field leaves room for its terminator, and there is a slot for the header that is
not complete. -/
structure Fits (q : Parser) : Prop where
  stored : ∀ d, (q.stored d).length ≤ d.size - 1
  headers : q.req.headers.length ≤ 128
  slot : ∀ d, q.aim = some d → 0 < d.size
  fresh : q.Fresh

theorem stored_aim {q : Parser} {d : Dest} (h : q.aim = some d) : q.stored d = q.dest := by
  unfold aim at h
  cases hs : q.state <;> simp only [hs, Option.some.injEq, reduceCtorEq] at h <;> subst h <;>
    simp [stored, fields, openKey, openValue, hs]

theorem getD_snoc (l : List Bytes) (x y : Bytes) (i : ℕ) :
    (l ++ [y]).getD i [] = if i = l.length then y else (l ++ [x]).getD i [] := by
  rw [List.getD_eq_getElem?_getD, List.getD_eq_getElem?_getD]
  rcases Nat.lt_trichotomy i l.length with hlt | rfl | hgt
  · rw [List.getElem?_append_left hlt, List.getElem?_append_left hlt, if_neg hlt.ne]
  · simp
  · have hnone : ∀ z, (l ++ [z])[i]? = none := by
      intro z
      apply List.getElem?_eq_none
      rw [List.length_append, List.length_singleton]
      omega
    rw [hnone, hnone, if_neg hgt.ne']

theorem getD_map_snoc {headers : List Header} {i : ℕ} {h : Header} (hi : headers[i]? = some h)
    (f : Header → Bytes) (x : Bytes) : (headers.map f ++ [x]).getD i [] = f h := by
  obtain ⟨hlt, -⟩ := List.getElem?_eq_some_iff.mp hi
  rw [List.getD_eq_getElem?_getD, List.getElem?_append_left (by rwa [List.length_map]),
    List.getElem?_map, hi]
  rfl

/-- One byte more where it is aimed. -/
theorem stored_snoc {q : Parser} {d : Dest} (h : q.aim = some d) (c : UInt8) :
    ({ q with dest := q.dest ++ [c] } : Parser).stored =
      Function.update q.stored d (q.dest ++ [c]) := by
  unfold aim at h
  funext e
  cases hs : q.state <;> simp only [hs, Option.some.injEq, reduceCtorEq] at h <;> subst h <;>
    cases e <;> simp [stored, fields, openKey, openValue, hs, Function.update_apply]
  case headerKey.key i => simpa using getD_snoc (q.req.headers.map Header.key) q.dest _ i
  case headerValue.value i => simpa using getD_snoc (q.req.headers.map Header.value) q.dest _ i

theorem getD_snoc_nil (l : List Bytes) (i : ℕ) : (l ++ [[]]).getD i [] = l.getD i [] := by
  rw [List.getD_eq_getElem?_getD, List.getD_eq_getElem?_getD, List.getElem?_append]
  split_ifs with hlt
  · rfl
  · rw [List.getElem?_eq_none (Nat.not_lt.mp hlt)]
    cases i - l.length <;> rfl

theorem stored_init : ({} : Parser).stored = fun _ => [] := by
  funext d
  cases d with
  | key i => exact getD_snoc_nil [] i
  | value i => exact getD_snoc_nil [] i
  | _ => rfl

theorem layout_of_stored {q q' : Parser} (h : q'.stored = q.stored) : q'.layout = q.layout := by
  funext d
  rw [layout, layout, h]

/-- What a completed header leaves in its slot is there already. -/
theorem stored_endHeader {q : Parser} (h : q.pState = .headerValue) :
    q.endHeader.stored = q.stored := by
  obtain ⟨skip, hs⟩ : ∃ skip, q.state = .headerValue skip := by
    cases hs : q.state <;> simp [pState, hs] at h
    exact ⟨_, rfl⟩
  have hopen : q.endHeader.openKey = [] ∧ q.endHeader.openValue = [] := by
    simp only [endHeader, openKey, openValue]
    split_ifs <;> exact ⟨rfl, rfl⟩
  have hfields : q.endHeader.fields.method = q.fields.method ∧
      q.endHeader.fields.uri = q.fields.uri ∧ q.endHeader.fields.version = q.fields.version := by
    simp only [endHeader, fields, hs]
    split_ifs <;> exact ⟨rfl, rfl, rfl⟩
  have hheaders : q.endHeader.req.headers = q.req.headers ++ [⟨q.key, q.dest⟩] := rfl
  funext e
  cases e with
  | method => exact hfields.1
  | uri => exact hfields.2.1
  | version => exact hfields.2.2
  | key i =>
    simp only [stored, hopen, hheaders, List.map_append, getD_snoc_nil]
    simp [openKey, hs]
  | value i =>
    simp only [stored, hopen, hheaders, List.map_append, getD_snoc_nil]
    simp [openValue, hs]

/-- A transition that moves nothing. -/
theorem Fits.of_stored {q q' : Parser} (h : q.Fits) (hst : q'.stored = q.stored)
    (hheaders : q'.req.headers.length ≤ 128) (hslot : ∀ d, q'.aim = some d → 0 < d.size)
    (hfresh : q'.Fresh) : q'.Fits :=
  ⟨hst ▸ h.stored, hheaders, hslot, hfresh⟩

theorem fits_init : ({} : Parser).Fits where
  stored d := by
    rw [stored_init]
    exact Nat.zero_le _
  headers := Nat.zero_le _
  slot d h := by
    obtain rfl := Option.some.inj h
    decide
  fresh := ⟨rfl, rfl, rfl⟩

theorem Fits.store {q : Parser} (h : q.Fits) {d : Dest} (hd : q.aim = some d) (c : UInt8) :
    (q.store (d.size - 1) c).Fits := by
  unfold Parser.store
  split_ifs with hlt
  · refine ⟨?_, h.headers, h.slot, h.fresh⟩
    intro e
    rw [stored_snoc hd, Function.update_apply]
    split_ifs with he
    · rw [he, List.length_append, List.length_singleton]
      exact hlt
    · exact h.stored e
  · exact h

end Parser

/-! ## The simulation -/

/-- The variables are where the automaton is. Behind a colon it still skips blanks, of which
there is none at `p`. -/
structure Sim (buf : Bytes) (s : ParseVars) (q : Parser) : Prop where
  state : s.state = q.pState
  arrays : s.arrays = q.layout
  aim : ∀ d, q.aim = some d → s.dest = d ∧ s.count = q.dest.length
  idx : q.pState = .headerKey ∨ q.pState = .headerValue → s.headerIdx = q.req.headers.length
  headerCount : s.headerCount = q.req.headers.length
  fits : q.Fits
  skip : q.state = .headerValue true → buf[s.p]? ≠ some (charByte ' ')

theorem sim_init (buf : Bytes) : Sim buf .init {} where
  state := rfl
  arrays := by
    funext d
    rw [Parser.layout, Parser.stored_init]
    rfl
  aim d h := by
    obtain rfl := Option.some.inj h
    exact ⟨rfl, rfl⟩
  idx _ := rfl
  headerCount := rfl
  fits := Parser.fits_init
  skip h := absurd h (by simp)

section Step

variable {buf : Bytes} {s : ParseVars} {q : Parser} {d : Dest}

theorem Sim.room (h : Sim buf s q) (hd : q.aim = some d) :
    s.arrays s.dest = padded d.size 0 q.dest ∧ s.count = q.dest.length ∧
      q.dest.length < d.size := by
  obtain ⟨hdest, hcount⟩ := h.aim d hd
  refine ⟨?_, hcount, ?_⟩
  · rw [h.arrays, hdest, Parser.layout, Parser.stored_aim hd]
  · have hle := h.fits.stored d
    have hpos := h.fits.slot d hd
    rw [Parser.stored_aim hd] at hle
    omega

/-- The terminator is there already. -/
theorem Sim.put_zero (h : Sim buf s q) (hd : q.aim = some d) : s.put 0 = some s := by
  obtain ⟨harray, hcount, hlt⟩ := h.room hd
  have hwrite : writeAt (s.arrays s.dest) s.count [0] = some (s.arrays s.dest) := by
    rw [harray, hcount]
    exact writeAt_padded_pad hlt
  rw [ParseVars.put, hwrite, Option.map_some, Function.update_eq_self]

/-- A byte that is stored, or not for want of room. -/
theorem Sim.append (h : Sim buf s q) (hd : q.aim = some d) (hskip : q.state ≠ .headerValue true)
    (c : UInt8) : ∃ t, s.append (d.size - 1) c = some t ∧ t.p = s.p ∧
      Sim buf { t with p := s.p + 1 } (q.store (d.size - 1) c) := by
  obtain ⟨harray, hcount, hlt⟩ := h.room hd
  have hfits := h.fits.store hd c
  unfold ParseVars.append Parser.store at *
  rw [hcount]
  split_ifs with hroom
  · rw [if_pos hroom] at hfits
    rw [ParseVars.put, harray, hcount, writeAt_padded (by
      rw [List.length_singleton]
      omega)]
    refine ⟨_, rfl, rfl, h.state, ?_, ?_, h.idx, h.headerCount, hfits, fun hq => absurd hq hskip⟩
    · funext e
      have hdest := (h.aim d hd).1
      simp only [Parser.layout, Parser.stored_snoc hd, hdest, h.arrays, Function.update_apply]
      split_ifs with he
      · rw [he]
      · rfl
    · intro e he
      exact ⟨(h.aim e he).1, by simp⟩
  · rw [if_neg hroom] at hfits
    exact ⟨s, rfl, rfl, h.state, h.arrays, h.aim, h.idx, h.headerCount, hfits,
      fun hq => absurd hq hskip⟩

/-- An iteration, and what the automaton does with the bytes it passes. -/
def Steps (buf : Bytes) (s : ParseVars) (q : Parser) : Prop :=
  ∃ s' q', s.iterate buf = some s' ∧ s'.p ≤ buf.length ∧ Sim buf s' q' ∧
    (buf.drop s.p).foldl parseByte q = (buf.drop s'.p).foldl parseByte q'

/-- One that passes one byte. -/
theorem steps_of_switch {t : ParseVars} {c : UInt8} (hc : buf[s.p]? = some c)
    (hswitch : s.switch buf c = some t) (htp : t.p = s.p)
    (hsim : Sim buf { t with p := s.p + 1 } (parseByte q c)) : Steps buf s q := by
  obtain ⟨hlt, hget⟩ := List.getElem?_eq_some_iff.mp hc
  refine ⟨{ t with p := s.p + 1 }, parseByte q c, ?_, hlt, hsim, ?_⟩
  · rw [ParseVars.iterate, hc, Option.bind_some, hswitch, Option.map_some, htp]
  · rw [List.drop_eq_getElem_cons hlt, hget]
    rfl

theorem Sim.steps_store {c : UInt8} (h : Sim buf s q) (hc : buf[s.p]? = some c)
    (haim : q.aim = some d) (hskip : q.state ≠ .headerValue true)
    (hswitch : s.switch buf c = s.append (d.size - 1) c)
    (hbyte : parseByte q c = q.store (d.size - 1) c) : Steps buf s q := by
  obtain ⟨t, ht, htp, hsim⟩ := h.append haim hskip c
  exact steps_of_switch hc (hswitch.trans ht) htp (hbyte ▸ hsim)

theorem Sim.steps_stay {c : UInt8} (h : Sim buf s q) (hc : buf[s.p]? = some c)
    (hskip : q.state ≠ .headerValue true) (hswitch : s.switch buf c = some s)
    (hbyte : parseByte q c = q) : Steps buf s q := by
  refine steps_of_switch hc hswitch rfl ?_
  rw [hbyte]
  exact ⟨h.state, h.arrays, h.aim, h.idx, h.headerCount, h.fits, fun hq => absurd hq hskip⟩

/-- A transition moves nothing in the arrays: the terminator it writes is there already. -/
theorem Sim.moved {t : ParseVars} {q' : Parser} (h : Sim buf s q) (hst : q'.stored = q.stored)
    (harrays : t.arrays = s.arrays) (hstate : t.state = q'.pState)
    (haim : ∀ d, q'.aim = some d → t.dest = d ∧ t.count = q'.dest.length ∧ 0 < d.size)
    (hidx : q'.pState = .headerKey ∨ q'.pState = .headerValue →
      t.headerIdx = q'.req.headers.length)
    (hcount : t.headerCount = q'.req.headers.length) (hheaders : q'.req.headers.length ≤ 128)
    (hfresh : q'.Fresh) (hskip : q'.state = .headerValue true → buf[t.p]? ≠ some (charByte ' ')) :
    Sim buf t q' where
  state := hstate
  arrays := by rw [harrays, h.arrays, Parser.layout_of_stored hst]
  aim d hd := ⟨(haim d hd).1, (haim d hd).2.1⟩
  idx := hidx
  headerCount := hcount
  fits := h.fits.of_stored hst hheaders (fun d hd => (haim d hd).2.2) hfresh
  skip := hskip

/-- A separator of the request line, behind which `dest` is aimed at the next array. -/
theorem Sim.steps_aim {c : UInt8} (h : Sim buf s q) (q' : Parser) (idx : ℕ)
    (hc : buf[s.p]? = some c)
    (hswitch : s.switch buf c = some { s.aim d with state := q'.pState, headerIdx := idx })
    (hbyte : parseByte q c = q') (hst : q'.stored = q.stored) (hdest : q'.dest = [])
    (haim : q'.aim = some d) (hsize : 0 < d.size) (hheaders : q'.req.headers = q.req.headers)
    (hidx : q'.pState = .headerKey ∨ q'.pState = .headerValue → idx = q'.req.headers.length)
    (hfresh : q'.Fresh) (hskip : q'.state ≠ .headerValue true) : Steps buf s q := by
  refine steps_of_switch hc hswitch rfl ?_
  rw [hbyte]
  refine h.moved hst rfl rfl ?_ hidx ?_ ?_ hfresh fun hq => absurd hq hskip
  · intro e he
    obtain rfl := Option.some.inj (haim.symm.trans he)
    exact ⟨rfl, by rw [hdest]; rfl, hsize⟩
  · rw [hheaders]
    exact h.headerCount
  · rw [hheaders]
    exact h.fits.headers

/-- The end of the headers, and what comes behind it: nothing is stored any more. -/
theorem Sim.steps_park {c : UInt8} {st : ParseStep} (h : Sim buf s q) (hc : buf[s.p]? = some c)
    (hq : q.state = .headerKey ∨ q.state = .body) (hst : st = .body ∨ st = .done)
    (hswitch : s.switch buf c = some { s with state := ({ q with state := st } : Parser).pState })
    (hbyte : parseByte q c = { q with state := st }) : Steps buf s q := by
  have hstored : ({ q with state := st } : Parser).stored = q.stored := by
    funext e
    rcases hq with hq | hq <;> rcases hst with rfl | rfl <;> cases e <;>
      simp [Parser.stored, Parser.fields, Parser.openKey, Parser.openValue, hq]
  refine steps_of_switch hc hswitch rfl ?_
  rw [hbyte]
  rcases hst with rfl | rfl
  all_goals
    exact h.moved hstored rfl rfl (by simp [Parser.aim]) (by simp [Parser.pState]) h.headerCount
      h.fits.headers trivial (by simp)

theorem Sim.steps_method {c : UInt8} (h : Sim buf s q) (hc : buf[s.p]? = some c)
    (hq : q.state = .method) : Steps buf s q := by
  have hs : s.state = .method := by rw [h.state, Parser.pState, hq]
  have haim : q.aim = some .method := by rw [Parser.aim, hq]
  have hfresh := h.fits.fresh
  simp only [Parser.Fresh, hq] at hfresh
  by_cases hsep : c = charByte ' '
  · let q' : Parser := { q with state := .uri, dest := [], req := { q.req with method := q.dest } }
    have hst : q'.stored = q.stored := by
      funext e
      cases e <;>
        simp [q', Parser.stored, Parser.fields, Parser.openKey, Parser.openValue, hq, hfresh]
    refine h.steps_aim q' s.headerIdx hc ?_ ?_ hst rfl rfl (by decide) rfl ?_ hfresh.2 ?_
    · simp only [ParseVars.switch, hs, if_pos hsep, h.put_zero haim, Option.map_some]
      rfl
    · simp only [parseByte, hq, if_pos hsep, q']
    · simp [q', Parser.pState]
    · simp [q']
  · apply h.steps_store hc haim (by simp [hq])
    · simp only [ParseVars.switch, hs, if_neg hsep]
      rfl
    · exact parseByte_method hq hsep

theorem Sim.steps_uri {c : UInt8} (h : Sim buf s q) (hc : buf[s.p]? = some c)
    (hq : q.state = .uri) : Steps buf s q := by
  have hs : s.state = .uri := by rw [h.state, Parser.pState, hq]
  have haim : q.aim = some .uri := by rw [Parser.aim, hq]
  have hfresh := h.fits.fresh
  simp only [Parser.Fresh, hq] at hfresh
  by_cases hsep : c = charByte ' '
  · let q' : Parser := { q with state := .version, dest := [], req := { q.req with uri := q.dest } }
    have hst : q'.stored = q.stored := by
      funext e
      cases e <;>
        simp [q', Parser.stored, Parser.fields, Parser.openKey, Parser.openValue, hq, hfresh]
    refine h.steps_aim q' s.headerIdx hc ?_ ?_ hst rfl rfl (by decide) rfl ?_ hfresh.2 ?_
    · simp only [ParseVars.switch, hs, if_pos hsep, h.put_zero haim, Option.map_some]
      rfl
    · simp only [parseByte, hq, if_pos hsep, q']
    · simp [q', Parser.pState]
    · simp [q']
  · apply h.steps_store hc haim (by simp [hq])
    · simp only [ParseVars.switch, hs, if_neg hsep]
      rfl
    · exact parseByte_uri hq hsep

theorem Sim.steps_version {c : UInt8} (h : Sim buf s q) (hc : buf[s.p]? = some c)
    (hq : q.state = .version) : Steps buf s q := by
  have hs : s.state = .version := by rw [h.state, Parser.pState, hq]
  have haim : q.aim = some .version := by rw [Parser.aim, hq]
  have hfresh := h.fits.fresh
  simp only [Parser.Fresh, hq] at hfresh
  by_cases hcr : c = charByte '\r'
  · apply h.steps_stay hc (by simp [hq])
    · simp only [ParseVars.switch, hs, if_pos hcr]
    · simp only [parseByte, hq, if_pos hcr]
  by_cases hlf : c = charByte '\n'
  · let q' : Parser :=
      { q with state := .headerKey, dest := [], req := { q.req with version := q.dest } }
    have hst : q'.stored = q.stored := by
      funext e
      cases e <;> simp [q', Parser.stored, Parser.fields, Parser.openKey, Parser.openValue, hq]
    -- there is no header yet, so the first slot is the next one
    have haim' : q'.aim = some (.key 0) := by simp [q', Parser.aim, hfresh]
    refine h.steps_aim q' 0 hc ?_ ?_ hst rfl haim' (by decide) rfl ?_ trivial ?_
    · simp only [ParseVars.switch, hs, if_neg hcr, if_pos hlf, h.put_zero haim, Option.map_some]
      rfl
    · simp only [parseByte, hq, if_neg hcr, if_pos hlf, q']
    · simp [q', hfresh]
    · simp [q']
  · apply h.steps_store hc haim (by simp [hq])
    · simp only [ParseVars.switch, hs, if_neg hcr, if_neg hlf]
      rfl
    · exact parseByte_version hq ⟨hcr, hlf⟩

/-- A header slot that is written to. -/
theorem slot_lt {i : ℕ} (h : 0 < (Dest.key i).size ∨ 0 < (Dest.value i).size) : i < 128 := by
  by_contra hge
  simp [Dest.size, hge] at h

/-- The inner loop reads in the buffer, and stops before the first byte that is no blank. -/
theorem skipBlanks_spec (buf : Bytes) (p : ℕ) (hp : p ≤ buf.length) :
    ∃ e, skipBlanks buf p = some e ∧ p ≤ e ∧ e ≤ buf.length ∧
      buf[e]? ≠ some (charByte ' ') ∧
      buf.drop p = List.replicate (e - p) (charByte ' ') ++ buf.drop e := by
  induction p using skipBlanks.induct buf with
  | case1 p hlt hnone => exact absurd (List.getElem?_eq_none_iff.mp hnone) (Nat.not_le.mpr hlt)
  | case2 p hlt hblank ih =>
    obtain ⟨e, he, hpe, hle, hstop, hdrop⟩ := ih hlt
    obtain ⟨_, hget⟩ := List.getElem?_eq_some_iff.mp hblank
    refine ⟨e, ?_, (Nat.le_succ p).trans hpe, hle, hstop, ?_⟩
    · rw [skipBlanks, if_pos hlt, hblank]
      simpa using he
    · rw [List.drop_eq_getElem_cons hlt, hget, hdrop, ← List.cons_append, ← List.replicate_succ]
      congr 2
      omega
  | case3 p hlt c hc hne =>
    refine ⟨p, ?_, Nat.le_refl p, hp, ?_, by simp⟩
    · rw [skipBlanks, if_pos hlt, hc]
      simp only [hne, if_false]
    · rw [hc]
      simpa using hne
  | case4 p hge =>
    refine ⟨p, ?_, Nat.le_refl p, hp, ?_, by simp⟩
    · rw [skipBlanks, if_neg hge]
    · rw [List.getElem?_eq_none (Nat.not_lt.mp hge)]
      simp

/-- The colon, and the blanks behind it: they are passed at once, and the automaton stays
where it is on each of them. -/
theorem Sim.steps_colon (h : Sim buf s q) (hc : buf[s.p]? = some (charByte ':'))
    (hq : q.state = .headerKey) : Steps buf s q := by
  have hs : s.state = .headerKey := by rw [h.state, Parser.pState, hq]
  have haim : q.aim = some (.key q.req.headers.length) := by rw [Parser.aim, hq]
  have hlt := slot_lt (.inl (h.fits.slot _ haim))
  have hidx : s.headerIdx = q.req.headers.length := h.idx (.inl (by rw [Parser.pState, hq]))
  obtain ⟨hp, hget⟩ := List.getElem?_eq_some_iff.mp hc
  obtain ⟨e, he, hpe, hle, hstop, hdrop⟩ := skipBlanks_spec buf (s.p + 1) hp
  let q' : Parser := { q with state := .headerValue true, dest := [], key := q.dest }
  have hbyte : parseByte q (charByte ':') = q' := by simp [parseByte, hq, q']
  have hst : q'.stored = q.stored := by
    funext d
    cases d with
    | value i => simp [q', Parser.stored, Parser.openValue, hq]
    | _ => simp [q', Parser.stored, Parser.fields, Parser.openKey, hq]
  have hswitch : s.switch buf (charByte ':') =
      some { s.aim (.value s.headerIdx) with state := .headerValue, p := e - 1 } := by
    simp only [ParseVars.switch, hs, if_true, ParseVars.endKey, h.put_zero haim, Option.bind_some,
      he, Option.map_some]
  -- the step back and the step forward at the end of the iteration
  have hback : e - 1 + 1 = e := Nat.sub_add_cancel (by omega)
  refine ⟨{ s.aim (.value s.headerIdx) with state := .headerValue, p := e }, q', ?_, hle, ?_, ?_⟩
  · rw [ParseVars.iterate, hc, Option.bind_some, hswitch, Option.map_some, hback]
  · refine h.moved hst rfl rfl ?_ (fun _ => hidx) h.headerCount h.fits.headers trivial
      fun _ => hstop
    intro d hd
    obtain rfl := Option.some.inj hd
    exact ⟨congrArg Dest.value hidx, rfl, by simp [Dest.size, q', hlt]⟩
  · rw [List.drop_eq_getElem_cons hp, hget, List.foldl_cons, hbyte, hdrop, List.foldl_append,
      foldl_blanks rfl]

theorem Sim.steps_headerKey {c : UInt8} (h : Sim buf s q) (hc : buf[s.p]? = some c)
    (hq : q.state = .headerKey) : Steps buf s q := by
  have hs : s.state = .headerKey := by rw [h.state, Parser.pState, hq]
  have haim : q.aim = some (.key q.req.headers.length) := by rw [Parser.aim, hq]
  have hlt := slot_lt (.inl (h.fits.slot _ haim))
  by_cases hcolon : c = charByte ':'
  · subst hcolon
    exact h.steps_colon hc hq
  by_cases hcr : c = charByte '\r'
  · apply h.steps_stay hc (by simp [hq])
    · simp only [ParseVars.switch, hs, if_neg hcolon, if_pos hcr]
    · simp only [parseByte, hq, if_neg hcolon, if_pos hcr]
  by_cases hlf : c = charByte '\n'
  · apply h.steps_park hc (.inl hq) (.inl rfl)
    · simp only [ParseVars.switch, hs, if_neg hcolon, if_neg hcr, if_pos hlf, Parser.pState]
    · simp only [parseByte, hq, if_neg hcolon, if_neg hcr, if_pos hlf]
  · apply h.steps_store hc haim (by simp [hq])
    · simp only [ParseVars.switch, hs, if_neg hcolon, if_neg hcr, if_neg hlf, Dest.size, if_pos hlt]
    · simp only [Dest.size, if_pos hlt]
      exact parseByte_headerKey hq ⟨hcolon, hcr, hlf⟩

/-- The first byte behind the blanks. -/
theorem Sim.unskip (h : Sim buf s q) (hq : q.pState = .headerValue) :
    Sim buf s { q with state := .headerValue false } := by
  obtain ⟨skip, hs⟩ : ∃ skip, q.state = .headerValue skip := by
    cases hs : q.state <;> simp [Parser.pState, hs] at hq
    exact ⟨_, rfl⟩
  have hst : ({ q with state := .headerValue false } : Parser).stored = q.stored := by
    funext e
    cases e <;> simp [Parser.stored, Parser.fields, Parser.openKey, Parser.openValue, hs]
  have haim : ({ q with state := .headerValue false } : Parser).aim = q.aim := by
    simp [Parser.aim, hs]
  refine h.moved hst rfl (h.state.trans hq) ?_ (fun _ => h.idx (.inr hq)) h.headerCount
    h.fits.headers trivial (by simp)
  intro d hd
  rw [haim] at hd
  exact ⟨(h.aim d hd).1, (h.aim d hd).2, h.fits.slot d hd⟩

theorem Parser.length_endHeader (q : Parser) :
    q.endHeader.req.headers.length = q.req.headers.length + 1 := by
  simp [Parser.endHeader]

/-- A line feed behind a value in the last slot: `dest` is left where it is, and is not used
any more. -/
theorem Sim.steps_lastHeader (h : Sim buf s q) (hc : buf[s.p]? = some (charByte '\n'))
    (hq : q.state = .headerValue false) (hbyte : parseByte q (charByte '\n') = q.endHeader)
    (hlast : q.req.headers.length + 1 ≥ 128) : Steps buf s q := by
  have hs : s.state = .headerValue := by rw [h.state, Parser.pState, hq]
  have hpq : q.pState = .headerValue := by rw [Parser.pState, hq]
  have haim : q.aim = some (.value q.req.headers.length) := by rw [Parser.aim, hq]
  have hlt := slot_lt (.inr (h.fits.slot _ haim))
  have hidx : s.headerIdx = q.req.headers.length := h.idx (.inr hpq)
  have hlf : charByte '\n' ≠ charByte '\r' := by decide
  have hstate : q.endHeader.state = .body := by
    simp only [Parser.endHeader, List.length_append, List.length_singleton, if_pos hlast]
  have hnone : q.endHeader.aim = none := by rw [Parser.aim, hstate]
  refine steps_of_switch hc (t := { s with
    headerIdx := s.headerIdx + 1, headerCount := s.headerIdx + 1, state := .body }) ?_ rfl ?_
  · simp only [ParseVars.switch, hs, if_neg hlf, if_true, ParseVars.endValue, h.put_zero haim,
      Option.map_some, hidx, if_pos hlast]
  · rw [hbyte]
    refine h.moved (Parser.stored_endHeader hpq) rfl (by rw [Parser.pState, hstate]) ?_ ?_ ?_
      (q.length_endHeader.trans_le hlt) ?_ ?_
    · simp [hnone]
    · simp [Parser.pState, hstate]
    · rw [q.length_endHeader, ← hidx]
    · simp [Parser.Fresh, hstate]
    · simp [hstate]

/-- A line feed behind a value in another slot: the next key is the next to be stored. -/
theorem Sim.steps_nextHeader (h : Sim buf s q) (hc : buf[s.p]? = some (charByte '\n'))
    (hq : q.state = .headerValue false) (hbyte : parseByte q (charByte '\n') = q.endHeader)
    (hnext : ¬ q.req.headers.length + 1 ≥ 128) : Steps buf s q := by
  have hs : s.state = .headerValue := by rw [h.state, Parser.pState, hq]
  have hpq : q.pState = .headerValue := by rw [Parser.pState, hq]
  have haim : q.aim = some (.value q.req.headers.length) := by rw [Parser.aim, hq]
  have hidx : s.headerIdx = q.req.headers.length := h.idx (.inr hpq)
  have hlf : charByte '\n' ≠ charByte '\r' := by decide
  have hstate : q.endHeader.state = .headerKey := by
    simp only [Parser.endHeader, List.length_append, List.length_singleton, if_neg hnext]
  have haim' : q.endHeader.aim = some (.key (q.req.headers.length + 1)) := by
    rw [Parser.aim, hstate, q.length_endHeader]
  refine steps_of_switch hc (t := { s.aim (.key (s.headerIdx + 1)) with
    headerIdx := s.headerIdx + 1, headerCount := s.headerIdx + 1, state := .headerKey }) ?_ rfl ?_
  · simp only [ParseVars.switch, hs, if_neg hlf, if_true, ParseVars.endValue, h.put_zero haim,
      Option.map_some, hidx, if_neg hnext]
    rfl
  · rw [hbyte]
    refine h.moved (Parser.stored_endHeader hpq) rfl (by rw [Parser.pState, hstate])
      ?_ ?_ ?_ ?_ ?_ ?_
    · intro d hd
      obtain rfl := Option.some.inj (haim'.symm.trans hd)
      refine ⟨congrArg Dest.key (congrArg (· + 1) hidx), rfl, ?_⟩
      simp only [Dest.size, if_pos (Nat.not_le.mp hnext)]
      decide
    · intro _
      rw [q.length_endHeader, ← hidx]
    · rw [q.length_endHeader, ← hidx]
    · rw [q.length_endHeader]
      exact (Nat.not_le.mp hnext).le
    · simp [Parser.Fresh, hstate]
    · simp [hstate]

theorem Sim.steps_headerValue {c : UInt8} (h : Sim buf s q) (hc : buf[s.p]? = some c)
    (hq : q.state = .headerValue false) : Steps buf s q := by
  have hs : s.state = .headerValue := by rw [h.state, Parser.pState, hq]
  have haim : q.aim = some (.value q.req.headers.length) := by rw [Parser.aim, hq]
  have hlt := slot_lt (.inr (h.fits.slot _ haim))
  obtain ⟨state, dest, key, req⟩ := q
  cases hq
  by_cases hcr : c = charByte '\r'
  · apply h.steps_stay hc (by simp)
    · simp only [ParseVars.switch, hs, if_pos hcr]
    · simp [parseByte, hcr]
  by_cases hlf : c = charByte '\n'
  · subst hlf
    have hbyte : parseByte ⟨.headerValue false, dest, key, req⟩ (charByte '\n') =
        Parser.endHeader ⟨.headerValue false, dest, key, req⟩ := by
      simp [parseByte, hcr]
    by_cases hlast : req.headers.length + 1 ≥ 128
    · exact h.steps_lastHeader hc rfl hbyte hlast
    · exact h.steps_nextHeader hc rfl hbyte hlast
  · apply h.steps_store hc haim (by simp)
    · simp only [ParseVars.switch, hs, if_neg hcr, if_neg hlf, Dest.size, if_pos hlt]
    · simp only [Dest.size, if_pos hlt]
      exact parseByte_headerValue rfl ⟨hcr, hlf⟩

/-- A byte behind the blanks, of which the first ends the skipping. -/
theorem Sim.steps_value {c : UInt8} {skip : Bool} (h : Sim buf s q) (hc : buf[s.p]? = some c)
    (hq : q.state = .headerValue skip) : Steps buf s q := by
  have hpq : q.pState = .headerValue := by rw [Parser.pState, hq]
  obtain ⟨s', q', hiter, hle, hsim, hfold⟩ := (h.unskip hpq).steps_headerValue hc rfl
  obtain ⟨hp, hget⟩ := List.getElem?_eq_some_iff.mp hc
  have hbyte : parseByte q c = parseByte { q with state := .headerValue false } c := by
    have hblank : ¬ (skip = true ∧ c = charByte ' ') := by
      rintro ⟨rfl, rfl⟩
      exact h.skip hq hc
    simp only [parseByte, hq, if_neg hblank]
    simp
  refine ⟨s', q', hiter, hle, hsim, ?_⟩
  rw [← hfold, List.drop_eq_getElem_cons hp, hget, List.foldl_cons, List.foldl_cons, hbyte]

theorem Sim.steps_body {c : UInt8} (h : Sim buf s q) (hc : buf[s.p]? = some c)
    (hq : q.state = .body) : Steps buf s q := by
  have hs : s.state = .body := by rw [h.state, Parser.pState, hq]
  apply h.steps_park hc (.inr hq) (.inr rfl)
  · simp only [ParseVars.switch, hs, Parser.pState]
  · simp only [parseByte, hq]

/-- **Every iteration is steps of the automaton.** -/
theorem Sim.steps (h : Sim buf s q) (hp : s.p < buf.length) (hdone : s.state ≠ .done) :
    Steps buf s q := by
  have hc : buf[s.p]? = some buf[s.p] := List.getElem?_eq_getElem hp
  cases hq : q.state with
  | method => exact h.steps_method hc hq
  | uri => exact h.steps_uri hc hq
  | version => exact h.steps_version hc hq
  | headerKey => exact h.steps_headerKey hc hq
  | headerValue skip => exact h.steps_value hc hq
  | body => exact h.steps_body hc hq
  | done => exact absurd (h.state.trans (by rw [Parser.pState, hq])) hdone

/-- **The loop is a run of the automaton** over what is left of the buffer. -/
theorem Sim.loop (h : Sim buf s q) (hp : s.p ≤ buf.length) :
    ∃ s', s.loop buf = some s' ∧ Sim buf s' ((buf.drop s.p).foldl parseByte q) := by
  induction s using ParseVars.loop.induct buf generalizing q with
  | case1 s hgo hnone =>
    obtain ⟨s', q', hiter, -⟩ := h.steps hgo.1 hgo.2
    exact absurd (hnone.symm.trans hiter) (by simp)
  | case2 s hgo s₁ hs₁ ih =>
    obtain ⟨s', q', hiter, hle, hsim, hfold⟩ := h.steps hgo.1 hgo.2
    obtain rfl := Option.some.inj (hs₁.symm.trans hiter)
    obtain ⟨t, ht, hsimt⟩ := ih hsim hle
    refine ⟨t, ?_, hfold ▸ hsimt⟩
    rw [ParseVars.loop, if_pos hgo]
    split
    · rename_i hnone
      exact absurd (hnone.symm.trans hs₁) (by simp)
    · rename_i s₂ hs₂
      obtain rfl := Option.some.inj (hs₁.symm.trans hs₂)
      exact ht
  | case3 s hstop =>
    refine ⟨s, by rw [ParseVars.loop, if_neg hstop], ?_⟩
    rcases Nat.lt_or_ge s.p buf.length with hlt | hge
    · have hdone : s.state = .done := by
        by_contra hne
        exact hstop ⟨hlt, hne⟩
      have hq : q.state = .done := by
        have hpq := h.state.symm.trans hdone
        cases hq : q.state <;> simp [Parser.pState, hq] at hpq
        rfl
      rwa [foldl_done hq]
    · rwa [List.drop_eq_nil_of_le hge]

end Step

/-! ## The whole of `parse_http1` -/

/-- The search for an upgrade, among `n` headers from `i` on. -/
def findUpgrade (arrays : Dest → Bytes) (i : ℕ) : ℕ → Option Bool
  | 0 => some false
  | n + 1 =>
    (strcasecmpIn (arrays (.key i)) (lit "Upgrade")).bind fun upgrade =>
      if upgrade then
        (strstrIn (arrays (.value i)) (lit "h2c")).bind fun found =>
          if found.isSome then some true else findUpgrade arrays (i + 1) n
      else findUpgrade arrays (i + 1) n

/-- `parse_http1`: its result, its variables with the arrays, and the protocol it leaves in
the connection. -/
def parseHttp1Into (protocol : Protocol) (buf : Bytes) : Option (ℤ × ParseVars × Protocol) :=
  (ParseVars.init.loop buf).bind fun s =>
    (findUpgrade s.arrays 0 s.headerCount).bind fun upgrade =>
      if upgrade then some (1, s, protocol)
      else
        (strcasecmpIn (s.arrays .version) (lit "HTTP/1.0")).map fun http10 =>
          (0, s, if http10 then .http10 else protocol)

/-- The arrays hold a request. -/
structure ParseVars.Stores (s : ParseVars) (r : Http1Req) : Prop where
  fits : ∀ d, (s.arrays d).length = d.size
  method : s.arrays .method = padded 16 0 r.method ∧ r.method.length ≤ 15
  uri : s.arrays .uri = padded 4096 0 r.uri ∧ r.uri.length ≤ 4095
  version : s.arrays .version = padded 16 0 r.version ∧ r.version.length ≤ 15
  headers : ∀ i h, r.headers[i]? = some h →
    s.arrays (.key i) = padded 128 0 h.key ∧ h.key.length ≤ 127 ∧
      s.arrays (.value i) = padded 4096 0 h.value ∧ h.value.length ≤ 4095
  count : s.headerCount = r.headers.length ∧ r.headers.length ≤ 128

theorem Sim.stores {buf : Bytes} {s : ParseVars} {q : Parser} (h : Sim buf s q) :
    s.Stores q.fields := by
  have harray : ∀ d, s.arrays d = padded d.size 0 (q.stored d) := fun d => by
    rw [h.arrays, Parser.layout]
  have hheaders : q.fields.headers = q.req.headers := by
    cases hq : q.state <;> simp [Parser.fields, hq]
  refine ⟨?_, ?_, ?_, ?_, ?_, ?_⟩
  · intro d
    rw [harray]
    have := h.fits.stored d
    exact length_padded (by omega)
  · exact ⟨harray .method, h.fits.stored .method⟩
  · exact ⟨harray .uri, h.fits.stored .uri⟩
  · exact ⟨harray .version, h.fits.stored .version⟩
  · intro i hd hi
    rw [hheaders] at hi
    obtain ⟨hlt, -⟩ := List.getElem?_eq_some_iff.mp hi
    have hslot : i < 128 := hlt.trans_le h.fits.headers
    have hkey : q.stored (.key i) = hd.key := Parser.getD_map_snoc hi Header.key _
    have hvalue : q.stored (.value i) = hd.value := Parser.getD_map_snoc hi Header.value _
    have hfits := And.intro (h.fits.stored (.key i)) (h.fits.stored (.value i))
    have harrays := And.intro (harray (.key i)) (harray (.value i))
    rw [hkey, hvalue] at hfits harrays
    simp only [Dest.size, if_pos hslot] at hfits harrays
    exact ⟨harrays.1, hfits.1, harrays.2, hfits.2⟩
  · rw [hheaders]
    exact ⟨h.headerCount, h.fits.headers⟩

/-- A field and the NUL behind it. -/
theorem snoc_prefix_padded {n : ℕ} {f : Bytes} (h : f.length < n) : f ++ [0] <+: padded n 0 f := by
  rw [padded, List.prefix_append_right_inj]
  cases hn : n - f.length with
  | zero => omega
  | succ m => exact ⟨List.replicate m 0, rfl⟩

theorem zero_mem_padded {n : ℕ} {f : Bytes} (h : f.length < n) : 0 ∈ padded n 0 f :=
  (snoc_prefix_padded h).subset (by simp)

theorem cstr_padded {n : ℕ} {f : Bytes} (h : f.length < n) : cstr (padded n 0 f) = cstr f :=
  cstr_of_prefix (snoc_prefix_padded h)

theorem strcasecmpIn_padded {n : ℕ} {f : Bytes} (h : f.length < n) (b : Bytes) :
    strcasecmpIn (padded n 0 f) b = some (strcasecmpEq f b) := by
  rw [strcasecmpIn, if_pos (zero_mem_padded h), strcasecmpEq, cstr_padded h, strcasecmpEq]

theorem strstrIn_padded {n : ℕ} {f : Bytes} (h : f.length < n) (b : Bytes) :
    strstrIn (padded n 0 f) b = some (strstr f b) := by
  rw [strstrIn, if_pos (zero_mem_padded h), strstr, cstr_padded h, strstr]

/-- The search reads the headers that there are, as strings. -/
theorem findUpgrade_eq {s : ParseVars} {r : Http1Req} (h : s.Stores r) (n i : ℕ)
    (hn : i + n = r.headers.length) :
    findUpgrade s.arrays i n = some ((r.headers.drop i).any fun hd =>
      strcasecmpEq hd.key (lit "Upgrade") && (strstr hd.value (lit "h2c")).isSome) := by
  induction n generalizing i with
  | zero =>
    rw [List.drop_eq_nil_of_le (by omega)]
    rfl
  | succ n ih =>
    have hi : i < r.headers.length := by omega
    obtain ⟨hkey, hkeylen, hvalue, hvaluelen⟩ :=
      h.headers i _ (List.getElem?_eq_getElem hi)
    rw [findUpgrade, hkey, hvalue, strcasecmpIn_padded (by omega), Option.bind_some,
      strstrIn_padded (by omega), Option.bind_some, ih (i + 1) (by omega),
      List.drop_eq_getElem_cons hi, List.any_cons]
    cases strcasecmpEq r.headers[i].key (lit "Upgrade")
    · rfl
    · cases (strstr r.headers[i].value (lit "h2c")).isSome <;> rfl

/-- **`parse_http1` does what `parseHttp1` does**, and its arrays hold the request. -/
theorem parseHttp1Into_refines (protocol : Protocol) (buf : Bytes) :
    ∃ s, parseHttp1Into protocol buf =
        some ((parseHttp1 protocol buf).1, s, (parseHttp1 protocol buf).2.2) ∧
      s.Stores (parseHttp1 protocol buf).2.1 := by
  obtain ⟨s, hloop, hsim⟩ := (sim_init buf).loop (Nat.zero_le _)
  have hstores : s.Stores (parseFields buf) := hsim.stores
  have hreq : (parseHttp1 protocol buf).2.1 = parseFields buf := by
    unfold parseHttp1
    dsimp only
    split <;> rfl
  refine ⟨s, ?_, hreq ▸ hstores⟩
  have hupgrade : findUpgrade s.arrays 0 s.headerCount = some (upgradesToH2c (parseFields buf)) :=
    findUpgrade_eq hstores _ 0 (by rw [Nat.zero_add, hstores.count.1])
  have hversion : strcasecmpIn (s.arrays .version) (lit "HTTP/1.0") =
      some (strcasecmpEq (parseFields buf).version (lit "HTTP/1.0")) := by
    rw [hstores.version.1]
    exact strcasecmpIn_padded (Nat.lt_succ_of_le hstores.version.2) _
  rw [parseHttp1Into, hloop, Option.bind_some, hupgrade, Option.bind_some, hversion,
    Option.map_some]
  unfold parseHttp1
  dsimp only
  split <;> rfl

/-! ## Safety -/

/-- A string that its array ends within, of at most `n` bytes. -/
structure Terminated (cells : Bytes) (n : ℕ) : Prop where
  nul : 0 ∈ cells
  le : (cstr cells).length ≤ n

theorem terminated_padded {n : ℕ} {f : Bytes} (h : f.length ≤ n) :
    Terminated (padded (n + 1) 0 f) n where
  nul := zero_mem_padded (Nat.lt_succ_of_le h)
  le := by
    rw [cstr_padded (Nat.lt_succ_of_le h)]
    exact (length_cstr_le f).trans h

/-- What the parser leaves. -/
structure ParseVars.Safe (s : ParseVars) : Prop where
  sizes : ∀ d, (s.arrays d).length = d.size
  count : s.headerCount ≤ 128
  method : Terminated (s.arrays .method) 15
  uri : Terminated (s.arrays .uri) 4095
  version : Terminated (s.arrays .version) 15
  headers : ∀ i < s.headerCount,
    Terminated (s.arrays (.key i)) 127 ∧ Terminated (s.arrays (.value i)) 4095

theorem ParseVars.Stores.safe {s : ParseVars} {r : Http1Req} (h : s.Stores r) : s.Safe where
  sizes := h.fits
  count := h.count.1.trans_le h.count.2
  method := h.method.1 ▸ terminated_padded h.method.2
  uri := h.uri.1 ▸ terminated_padded h.uri.2
  version := h.version.1 ▸ terminated_padded h.version.2
  headers i hi := by
    obtain ⟨hkey, hkeylen, hvalue, hvaluelen⟩ :=
      h.headers i _ (List.getElem?_eq_getElem (hi.trans_eq h.count.1))
    rw [hkey, hvalue]
    exact ⟨terminated_padded hkeylen, terminated_padded hvaluelen⟩

/-- **The parser is safe on every input**: it ends, without a read or a write outside of an
array, after iterations that each advance `p`, and leaves terminated strings. -/
theorem parser_safe (protocol : Protocol) (buf : Bytes) :
    (∀ s s', ParseVars.iterate buf s = some s' → s.p < s'.p) ∧
      ∃ ret s protocol', parseHttp1Into protocol buf = some (ret, s, protocol') ∧ s.Safe := by
  refine ⟨fun s s' hs => ParseVars.iterate_advances hs, ?_⟩
  obtain ⟨s, hs, hstores⟩ := parseHttp1Into_refines protocol buf
  exact ⟨_, s, _, hs, hstores.safe⟩

end Celeritas
