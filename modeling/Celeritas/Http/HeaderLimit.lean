import Celeritas.Config.Parse
import Celeritas.Http.Framing
import Celeritas.Http.Grammar
import Celeritas.Http.ReadBuffer

/-!
# The limit on the request header

`max_rx_header_size` is read from the file and kept in the configuration, and no line of the
program looks at it there. `read_http_headers` has a limit of its own, the size of its buffer
less the byte of the terminator, and it is that one a request is refused for
(`enforcesLimit_iff`). The default is one more than it.
-/

set_option autoImplicit false

namespace Celeritas

open CLib

/-- The status of the answer, where `worker_thread` sends one: that of the handler, or the
one `process_ingress` has failed with. -/
def answerStatus (env : Env) (protocol : Protocol) (evs : List SockEvent) : Option ℕ :=
  let i := (processIngress protocol evs).1
  if i.ok then some (respond env i.protocol i.req).2.statusCode
  else if i.statusCode > 0 then some i.statusCode
  else none

/-- A block of more than `maxRxHeader` bytes is refused for its length, and no other. -/
structure EnforcesLimit (c : ConfigData) (env : Env) (protocol : Protocol) (evs : List SockEvent)
    (n : ℕ) : Prop where
  tooLong : c.maxRxHeader.toNat < n → answerStatus env protocol evs = some 431
  fits : n ≤ c.maxRxHeader.toNat → answerStatus env protocol evs ≠ some 431

/-! ## What the reader accepts -/

/-- What follows changes nothing. -/
theorem BlockEnd.append {stream : Bytes} {n : ℕ} (h : BlockEnd stream n) (later : Bytes) :
    BlockEnd (stream ++ later) n := by
  have htake : ∀ m, m ≤ n → (stream ++ later).take m = stream.take m :=
    fun m hm => List.take_append_of_le_length (hm.trans h.le_length)
  refine ⟨?_, ?_, ?_⟩
  · rw [htake n (Nat.le_refl n)]
    exact h.nul_free
  · rw [htake n (Nat.le_refl n)]
    exact h.marker
  · intro m hm
    rw [htake m hm.le]
    exact h.first m hm

/-- The search for the marker finds the end of a block. -/
theorem BlockEnd.of_indexOf {stream : Bytes} {i : ℕ} (hi : indexOf eoh stream = some i)
    (h0 : 0 ∉ stream) : BlockEnd stream (i + 4) := by
  have hle : i + 4 ≤ stream.length := indexOf_add_le hi (by decide)
  obtain ⟨hocc, hfirst⟩ := (indexOf_eq_some_iff (by decide)).mp hi
  refine ⟨fun h => h0 (List.mem_of_mem_take h), (suffix_take_iff hle).mpr hocc, ?_⟩
  intro m hm hsuf
  have h4 : 4 ≤ m := hsuf.length_le.trans (List.length_take_le _ _)
  rw [← Nat.sub_add_cancel h4] at hsuf
  have hfit : m - 4 + eoh.length ≤ stream.length := by
    show m - 4 + 4 ≤ stream.length
    omega
  exact hfirst (m - 4) (by omega) ((suffix_take_iff hfit).mp hsuf)

/-- The marker is found where the block ends early enough, and not at all elsewhere. -/
theorem BlockEnd.strstr_take {stream : Bytes} {n : ℕ} (h : BlockEnd stream n) :
    strstr (stream.take (MAX_HEADER_SIZE - 1)) eoh =
      if n ≤ MAX_HEADER_SIZE - 1 then some (n - 4) else none := by
  split_ifs with hle
  · exact HeaderEnd.strstr_take ⟨hle, h.nul_free, h.marker, h.first⟩
  · rw [Option.eq_none_iff_forall_not_mem]
    intro i hi
    have hend := strstr_take_iff.mp hi
    exact hle (h.unique hend.blockEnd ▸ hend.le)

/-- Once the buffer is full, what happens afterwards does not matter. -/
theorem readHttpHeaders_append_of_full {evs : List SockEvent} {buf : Bytes}
    (h : (readHttpHeaders buf evs).1 = .failed (-3)) (later : List SockEvent) :
    (readHttpHeaders buf (evs ++ later)).1 = .failed (-3) := by
  induction evs generalizing buf with
  | nil =>
    by_cases hroom : buf.length < MAX_HEADER_SIZE - 1
    · rw [readHttpHeaders, if_pos hroom] at h
      cases h
    · rw [List.nil_append, readHttpHeaders.eq_def]
      cases later <;> simp only [if_neg hroom]
  | cons e evs ih =>
    rw [List.cons_append]
    by_cases hroom : buf.length < MAX_HEADER_SIZE - 1
    swap
    · rw [readHttpHeaders.eq_def]
      exact congrArg Prod.fst (if_neg hroom)
    cases e with
    | interrupted =>
      rw [readHttpHeaders, if_pos hroom] at h ⊢
      exact ih h
    | wouldBlock ready =>
      rw [readHttpHeaders, if_pos hroom] at h ⊢
      cases ready with
      | true => exact ih h
      | false => cases h
    | error =>
      rw [readHttpHeaders, if_pos hroom] at h
      cases h
    | data seg =>
      rw [readHttpHeaders, if_pos hroom] at h ⊢
      dsimp only at h ⊢
      by_cases hseg : seg = []
      · rw [if_pos hseg] at h
        cases h
      rw [if_neg hseg] at h ⊢
      cases hfind : strstr (buf ++ seg.take (MAX_HEADER_SIZE - 1 - buf.length)) eoh with
      | some i =>
        simp only [hfind] at h
        cases h
      | none =>
        simp only [hfind] at h ⊢
        split_ifs at h ⊢ with hfit
        · exact ih h
        · rfl

/-! ## What is answered -/

theorem statusCode_respond_ne (env : Env) (protocol : Protocol) (r : Http1Req) :
    (respond env protocol r).2.statusCode ≠ 431 := by
  refine respond_cases (P := fun resp => resp.statusCode ≠ 431) env protocol r ?_ ?_ ?_ ?_
  · intro st hst
    show st ≠ 431
    omega
  · intro method
    unfold handleGetHead
    dsimp only
    split
    · show (404 : ℕ) ≠ 431
      decide
    · show (200 : ℕ) ≠ 431
      decide
  · show (200 : ℕ) ≠ 431
    decide
  · show (200 : ℕ) ≠ 431
    decide

/-- A complete header is answered with another status, or not at all. -/
theorem answerStatus_of_complete {evs rest : List SockEvent} {buf : Bytes} {n k : ℕ} (env : Env)
    (protocol : Protocol) (h : readHttpHeaders [] evs = (.complete buf n k, rest)) :
    answerStatus env protocol evs ≠ some 431 := by
  unfold answerStatus
  rw [processIngress_complete h]
  dsimp only
  split_ifs with hok hpos
  · rw [ne_eq, Option.some.injEq]
    exact statusCode_respond_ne _ _ _
  · rw [ne_eq, Option.some.injEq, ingressOf]
    split_ifs with hp
    · show (505 : ℕ) ≠ 431
      decide
    · rw [parseBlock, parseHttp1]
      dsimp only
      split_ifs <;> simp_all
  · simp

/-- **A header that fits the buffer is never refused for its length**, however it is
delivered. -/
theorem answerStatus_ne_of_le (env : Env) (protocol : Protocol) {evs : List SockEvent} {n : ℕ}
    (h : BlockEnd (pending evs) n) (hle : n ≤ MAX_HEADER_SIZE - 1) :
    answerStatus env protocol evs ≠ some 431 := by
  cases hread : readHttpHeaders [] evs with
  | mk result rest =>
    cases result with
    | complete buf m k => exact answerStatus_of_complete env protocol hread
    | failed status =>
      have hne : status ≠ -3 := by
        rintro rfl
        have hnone := strstr_of_full (Nat.zero_le _) (by decide) hread
        rw [List.nil_append, h.strstr_take, if_pos hle] at hnone
        cases hnone
      unfold answerStatus processIngress
      rw [hread]
      dsimp only
      unfold ingressStatus
      split_ifs <;> simp_all

/-- **One that does not is**, once it has come. -/
theorem answerStatus_eq_of_lt (env : Env) (protocol : Protocol) {evs : List SockEvent} {n : ℕ}
    (hd : ∀ e ∈ evs, e.Delivers) (h : BlockEnd (pending evs) n) (hlt : MAX_HEADER_SIZE - 1 < n)
    (later : List SockEvent) : answerStatus env protocol (evs ++ later) = some 431 := by
  have hverdict := verdict_readHttpHeaders evs hd [] (Nat.zero_le _) (by decide)
  have hlong : ¬ (pending evs).length < MAX_HEADER_SIZE - 1 := by
    have := h.le_length
    omega
  rw [List.nil_append, Verdict, h.strstr_take, if_neg (Nat.not_le.mpr hlt)] at hverdict
  simp only [if_neg hlong] at hverdict
  have hread : readHttpHeaders [] (evs ++ later) =
      (.failed (-3), (readHttpHeaders [] (evs ++ later)).2) :=
    Prod.ext (readHttpHeaders_append_of_full hverdict later) rfl
  unfold answerStatus processIngress
  rw [hread]
  rfl

/-- **The configured limit is enforced if and only if** it and the buffer agree about the
block: both would take it, or neither. Whatever `later` befalls the connection does not
matter. -/
theorem enforcesLimit_iff (c : ConfigData) (env : Env) (protocol : Protocol)
    {evs : List SockEvent} (hd : ∀ e ∈ evs, e.Delivers) {n : ℕ} (h : BlockEnd (pending evs) n)
    (later : List SockEvent) :
    EnforcesLimit c env protocol (evs ++ later) n ↔
      (n ≤ MAX_HEADER_SIZE - 1 ↔ n ≤ c.maxRxHeader.toNat) := by
  by_cases hle : n ≤ MAX_HEADER_SIZE - 1
  · have hne : answerStatus env protocol (evs ++ later) ≠ some 431 :=
      answerStatus_ne_of_le env protocol (pending_append evs later ▸ h.append _) hle
    rw [iff_true_left hle]
    constructor
    · intro henf
      by_contra hover
      exact hne (henf.tooLong (Nat.not_le.mp hover))
    · intro hwithin
      exact ⟨fun hover => absurd hover (Nat.not_lt.mpr hwithin), fun _ => hne⟩
  · have heq := answerStatus_eq_of_lt env protocol hd h (Nat.not_le.mp hle) later
    rw [iff_false_left hle]
    constructor
    · intro henf hwithin
      exact henf.fits hwithin heq
    · intro hover
      exact ⟨fun _ => heq, fun hwithin => absurd hwithin hover⟩

/-! ## Where the limits differ -/

def lowLimit : Bytes := lit "max_rx_header_size = 20\n"

/-- A request whose header is as long as the default limit. -/
def fullHeader : Bytes :=
  lit "GET /" ++ (List.replicate 8165 (charByte 'a') ++ lit " HTTP/1.1\r\nHost: h\r\n\r\n")

theorem length_fullHeader : fullHeader.length = 8192 := by
  rw [fullHeader, List.length_append, List.length_append, List.length_replicate]
  rfl

theorem blockEnd_fullHeader : BlockEnd fullHeader 8192 := by
  have hname : (13 : UInt8) ∉ List.replicate 8165 (charByte 'a') ∧
      (0 : UInt8) ∉ List.replicate 8165 (charByte 'a') := by
    constructor
    · exact fun h => absurd (List.eq_of_mem_replicate h) (by decide)
    · exact fun h => absurd (List.eq_of_mem_replicate h) (by decide)
  have h0 : (0 : UInt8) ∉ fullHeader :=
    List.not_mem_append (by decide) (List.not_mem_append hname.2 (by decide))
  have hline : (13 : UInt8) ∉ lit "GET /" := by decide
  have hfind : indexOf eoh fullHeader = some 8188 := by
    have htail : indexOf eoh (lit " HTTP/1.1\r\nHost: h\r\n\r\n") = some 18 := by decide
    rw [fullHeader, eoh]
    rw [eoh] at htail
    rw [indexOf_append_of_not_mem _ hline, indexOf_append_of_not_mem _ hname.1, htail,
      List.length_replicate]
    rfl
  exact .of_indexOf hfind h0

theorem blockEnd_getA : BlockEnd (pending [.data getA.block]) 28 := by
  exact .of_indexOf (by decide) (by decide)

theorem enforcesLimit_iff_getA : ∃ c, initConfig 4 [] (.ok lowLimit) = .ok c ∧
    (EnforcesLimit c plainVisit.env .http11 ([.data getA.block] ++ [.error]) 28 ↔
      (28 ≤ MAX_HEADER_SIZE - 1 ↔ 28 ≤ c.maxRxHeader.toNat)) := by
  have hok : initConfig 4 [] (.ok lowLimit) =
      .ok (parsedConf lowLimit (loadConfigDefaults 4 .zeroed)) :=
    initConfig_eq_ok.mpr ⟨by decide +kernel, rfl⟩
  exact ⟨_, hok, enforcesLimit_iff _ plainVisit.env .http11 (by decide) blockEnd_getA _⟩

/-- A header that is too long is served, and one that is not is refused. -/
theorem limits_differ :
    (∃ c, initConfig 4 [] (.ok lowLimit) = .ok c ∧ c.maxRxHeader = 20 ∧
      answerStatus plainVisit.env .http11 [.data getA.block] = some 200 ∧
      BlockEnd (pending [.data getA.block]) 28 ∧
      ¬ EnforcesLimit c plainVisit.env .http11 [.data getA.block] 28) ∧
    ∃ c, initConfig 4 [] (.ok []) = .ok c ∧ c.maxRxHeader = 8192 ∧
      answerStatus plainVisit.env .http11 [.data fullHeader] = some 431 ∧
      BlockEnd (pending [.data fullHeader]) 8192 ∧
      ¬ EnforcesLimit c plainVisit.env .http11 [.data fullHeader] 8192 := by
  have hlow : (parsedConf lowLimit (loadConfigDefaults 4 .zeroed)).maxRxHeader = 20 := by
    decide +kernel
  have hdefault : (parsedConf [] (loadConfigDefaults 4 .zeroed)).maxRxHeader = 8192 := by
    decide +kernel
  have hserved : answerStatus plainVisit.env .http11 [.data getA.block] = some 200 := by
    decide +kernel
  have hend : BlockEnd (pending [.data fullHeader]) 8192 := by
    rw [pending, pending, List.append_nil]
    exact blockEnd_fullHeader
  have hdelivers : ∀ e ∈ [SockEvent.data fullHeader], e.Delivers := by
    rw [List.forall_mem_singleton]
    intro hnil
    have hlen := length_fullHeader
    rw [hnil] at hlen
    cases hlen
  have hrefused : answerStatus plainVisit.env .http11 [.data fullHeader] = some 431 :=
    answerStatus_eq_of_lt _ _ hdelivers hend (by decide) []
  constructor
  · refine ⟨_, initConfig_eq_ok.mpr ⟨by decide +kernel, rfl⟩, hlow, hserved, blockEnd_getA, ?_⟩
    intro h
    have hover := h.tooLong (by rw [hlow]; decide)
    rw [hserved] at hover
    cases hover
  · refine ⟨_, initConfig_eq_ok.mpr ⟨by decide +kernel, rfl⟩, hdefault, hrefused, hend, ?_⟩
    intro h
    exact h.fits (by rw [hdefault]; decide) hrefused

end Celeritas
