import Celeritas.Http.Pipeline

/-!
# Which protocol a connection speaks

`demux_protocol` peeks at the first bytes of a connection, into an array on the stack that
nobody has initialised, and compares the whole of it with the preface of HTTP/2. It does not
ask how many bytes have come. Where they are the beginning of a preface, what the array held
before can stand in for the rest (`receivedOnly_iff`), and that may be the preface of
another client. No other bytes are at risk (`receivedOnly_forall_iff`).
-/

set_option autoImplicit false

namespace Celeritas

open CLib

/-- `sizeof(peek_buf)` -/
def peekSize : ℕ := 24

/-- The preface of an HTTP/2 connection. -/
def preface : Bytes := lit "PRI * HTTP/2.0\r\n\r\nSM\r\n\r\n"

/-- `peek_buf` -/
structure PeekBuf where
  cells : Bytes
  size : cells.length = peekSize

/-- Bytes that `recv` puts there. -/
structure Peeked where
  bytes : Bytes
  ne_nil : bytes ≠ []
  le : bytes.length ≤ peekSize

/-- What `recv` comes back with. -/
inductive PeekResult
  | error
  | closed
  | got (g : Peeked)

/-- The array afterwards. -/
def PeekBuf.receive (buf : PeekBuf) (g : Peeked) : PeekBuf where
  cells := g.bytes ++ buf.cells.drop g.bytes.length
  size := by
    rw [List.length_append, List.length_drop, buf.size]
    exact Nat.add_sub_of_le g.le

/-- `memcmp(a, b, n) == 0` -/
def memcmpEq (a b : Bytes) (n : ℕ) : Bool := a.take n == b.take n

/-- `demux_protocol` -/
def demuxProtocol (peekBuf : PeekBuf) : PeekResult → Protocol
  | .closed => .http11
  | .error => .unknown
  | .got g => if memcmpEq (peekBuf.receive g).cells preface 24 then .http2 else .http11

/-- What the bytes say. -/
def protocolOf (g : Peeked) : Protocol := if g.bytes = preface then .http2 else .http11

/-- Two runs with the same bytes: both classify them by what they say, and go on alike. -/
structure ReceivedOnly (buf buf' : PeekBuf) (g : Peeked) : Prop where
  left : demuxProtocol buf (.got g) = protocolOf g
  right : demuxProtocol buf' (.got g) = protocolOf g
  ingress : ∀ evs, processIngress (demuxProtocol buf (.got g)) evs =
    processIngress (demuxProtocol buf' (.got g)) evs

/-- Only the beginning of the preface has come, and the array has the rest. -/
def CompletedBy (buf : PeekBuf) (g : Peeked) : Prop :=
  g.bytes.length < peekSize ∧ g.bytes ++ buf.cells.drop g.bytes.length = preface

theorem memcmpEq_preface (buf : PeekBuf) :
    memcmpEq buf.cells preface 24 = true ↔ buf.cells = preface := by
  have hlen : preface.length = 24 := by decide
  have hcells : buf.cells.length = 24 := buf.size
  rw [memcmpEq, beq_iff_eq, List.take_of_length_le hcells.le, List.take_of_length_le hlen.le]

theorem demuxProtocol_got (buf : PeekBuf) (g : Peeked) :
    demuxProtocol buf (.got g) = if (buf.receive g).cells = preface then .http2 else .http11 := by
  rw [demuxProtocol]
  simp only [memcmpEq_preface]

/-- The array is the preface if that has come, or has been completed. -/
theorem receive_eq_preface_iff (buf : PeekBuf) (g : Peeked) :
    (buf.receive g).cells = preface ↔ g.bytes = preface ∨ CompletedBy buf g := by
  have hlen : preface.length = peekSize := by decide
  by_cases hfull : g.bytes.length = peekSize
  · have hnil : buf.cells.drop g.bytes.length = [] :=
      List.drop_eq_nil_of_le (by rw [buf.size, hfull])
    have hcells : (buf.receive g).cells = g.bytes := by
      show g.bytes ++ buf.cells.drop g.bytes.length = g.bytes
      rw [hnil, List.append_nil]
    rw [hcells]
    refine ⟨Or.inl, ?_⟩
    rintro (h | h)
    · exact h
    · exact absurd hfull h.1.ne
  · have hlt : g.bytes.length < peekSize := Nat.lt_of_le_of_ne g.le hfull
    constructor
    · intro h
      exact Or.inr ⟨hlt, h⟩
    · rintro (h | h)
      · exact absurd (h ▸ hlen) hfull
      · exact h.2

theorem demuxProtocol_eq_protocolOf_iff (buf : PeekBuf) (g : Peeked) :
    demuxProtocol buf (.got g) = protocolOf g ↔ ¬ CompletedBy buf g := by
  have hpreface := receive_eq_preface_iff buf g
  rw [demuxProtocol_got, protocolOf]
  by_cases hc : CompletedBy buf g
  · have hne : g.bytes ≠ preface := by
      intro h
      have hlt := hc.1
      rw [h] at hlt
      exact absurd hlt (by decide)
    rw [if_pos (hpreface.mpr (Or.inr hc)), if_neg hne]
    exact iff_of_false (by decide) (not_not_intro hc)
  · by_cases hg : g.bytes = preface
    · rw [if_pos (hpreface.mpr (Or.inl hg)), if_pos hg]
      exact iff_of_true rfl hc
    · have hne : (buf.receive g).cells ≠ preface := by
        intro h
        rcases hpreface.mp h with h | h
        · exact hg h
        · exact hc h
      rw [if_neg hne, if_neg hg]
      exact iff_of_true rfl hc

/-- **The protocol is a matter of the bytes received if and only if** neither array completes
them to the preface. -/
theorem receivedOnly_iff (buf buf' : PeekBuf) (g : Peeked) :
    ReceivedOnly buf buf' g ↔ ¬ CompletedBy buf g ∧ ¬ CompletedBy buf' g := by
  rw [← demuxProtocol_eq_protocolOf_iff, ← demuxProtocol_eq_protocolOf_iff]
  constructor
  · intro h
    exact ⟨h.left, h.right⟩
  · rintro ⟨hl, hr⟩
    refine ⟨hl, hr, ?_⟩
    intro evs
    rw [hl, hr]

/-- Whatever the arrays hold: if and only if what has come is not a part of the preface, less
than the whole. -/
theorem receivedOnly_forall_iff (g : Peeked) :
    (∀ buf buf', ReceivedOnly buf buf' g) ↔ ¬ (g.bytes <+: preface ∧ g.bytes ≠ preface) := by
  constructor
  · rintro h ⟨⟨rest, hrest⟩, hne⟩
    have hlen : preface.length = peekSize := by decide
    have hshort : g.bytes.length < peekSize := by
      refine Nat.lt_of_le_of_ne g.le fun hfull => hne ?_
      have hnil : rest = [] := by
        have := congrArg List.length hrest
        rw [List.length_append] at this
        exact List.length_eq_zero_iff.mp (by omega)
      rw [← hrest, hnil, List.append_nil]
    -- the array that holds the preface completes it
    refine ((receivedOnly_iff _ _ g).mp (h ⟨preface, hlen⟩ ⟨preface, hlen⟩)).1 ⟨hshort, ?_⟩
    show g.bytes ++ preface.drop g.bytes.length = preface
    rw [← hrest, List.drop_left]
  · intro h buf buf'
    have hno : ∀ b, ¬ CompletedBy b g := by
      rintro b ⟨hshort, heq⟩
      refine h ⟨⟨_, heq⟩, ?_⟩
      intro hg
      rw [hg] at hshort
      exact absurd hshort (by decide)
    exact (receivedOnly_iff buf buf' g).mpr ⟨hno buf, hno buf'⟩

/-! ## A preface of which one byte has come -/

def zeroPeekBuf : PeekBuf := ⟨List.replicate 24 0, rfl⟩

/-- What a client of HTTP/2 sends, -/
def wholePreface : Peeked := ⟨preface, by decide, by decide⟩

/-- and what the next one sends, in two segments. -/
def splitPut : List SockEvent := [.data (lit "P"), .data (lit "UT /a HTTP/1.1\r\nHost: h\r\n\r\n")]

/-- The first of them. -/
def splitPutPeeked : Peeked := ⟨lit "P", by decide, by decide⟩

/-- It is refused, because of the client before it. -/
theorem stale_preface_completes :
    let stale := zeroPeekBuf.receive wholePreface
    demuxProtocol zeroPeekBuf (.got splitPutPeeked) = .http11 ∧
      (processIngress (demuxProtocol zeroPeekBuf (.got splitPutPeeked)) splitPut).1.ok = true ∧
      demuxProtocol stale (.got splitPutPeeked) = .http2 ∧
      (processIngress (demuxProtocol stale (.got splitPutPeeked)) splitPut).1.statusCode = 505 ∧
      ¬ ReceivedOnly zeroPeekBuf stale splitPutPeeked := by
  intro stale
  have hstale : demuxProtocol stale (.got splitPutPeeked) = .http2 := by decide +kernel
  refine ⟨by decide +kernel, by decide +kernel, hstale, by decide +kernel, ?_⟩
  intro h
  have hright := h.right
  rw [hstale] at hright
  exact absurd hright (by decide +kernel)

end Celeritas
