import Celeritas.Http.Grammar
import Celeritas.Logger.Access

/-!
# One request, one line

A log file is read line by line, so a message is one record if its only line break is the
one at its end. Of what a client sends, the version and the headers have none inside
(`oneLine_parseFields`): the parser looks for the end of the line there. Before the second
blank it does not, and so the method and the URI decide alone (`one_record_iff`).
-/

set_option autoImplicit false

namespace Celeritas

open CLib

/-! ## Numbers -/

theorem mem_toDigits {b n : ℕ} (hb : 1 < b) {c : Char} (h : c ∈ Nat.toDigits b n) :
    ∃ d < b, c = Nat.digitChar d := by
  induction n using Nat.strongRecOn with
  | _ n ih =>
    rw [Nat.toDigits_eq_if hb] at h
    split_ifs at h with hlt
    · exact ⟨n, hlt, List.mem_singleton.mp h⟩
    · rcases List.mem_append.mp h with h | h
      · have hpos : 0 < n := by omega
        exact ih (n / b) (Nat.div_lt_self hpos hb) h
      · exact ⟨n % b, Nat.mod_lt _ (by omega), List.mem_singleton.mp h⟩

theorem oneLine_hexNat (n : ℕ) : OneLine (hexNat n) := by
  have hdigit : ∀ d < 16, charByte (Nat.digitChar d) ≠ charByte '\r' ∧
      charByte (Nat.digitChar d) ≠ charByte '\n' := by decide
  constructor
  · intro h
    obtain ⟨c, hc, he⟩ := List.mem_map.mp h
    obtain ⟨d, hd, rfl⟩ := mem_toDigits (by omega) hc
    exact (hdigit d hd).1 he
  · intro h
    obtain ⟨c, hc, he⟩ := List.mem_map.mp h
    obtain ⟨d, hd, rfl⟩ := mem_toDigits (by omega) hc
    exact (hdigit d hd).2 he

/-! ## Messages -/

/-- A message with one line break, at its end. -/
def OneRecord (text : Bytes) : Prop := ∃ body : Bytes, OneLine body ∧ text = body ++ lit "\n"

theorem oneRecord_iff {body : Bytes} : OneRecord (body ++ lit "\n") ↔ OneLine body := by
  constructor
  · rintro ⟨b, hb, he⟩
    rwa [List.append_cancel_right he]
  · intro h
    exact ⟨body, h, rfl⟩

/-- The message of `l_warn`: `now` is what `l_format_datetime` returns, `pid` and `tid` are
the numbers of the process and of the thread. -/
def warnText (now : Bytes) (pid : ℤ) (tid : ℕ) (msg : Bytes) : Bytes :=
  lit " [warn]" ++ lit " - " ++ now ++ lit " - pid " ++ decimal pid ++ lit " - tid 0x" ++
    hexNat tid ++ lit " - " ++ msg ++ lit "\n"

/-- What `validate_request` warns of. -/
def validateWarning (protocol : Protocol) (r : Http1Req) : Option Bytes :=
  let method := methodOf r.method
  if method = .invalid then some (lit "unknown method: " ++ r.method)
  else if protocol ≠ .http10 ∧ ¬ confirmHeaderExists r (lit "Host") then
    some (lit "request does not contain Host header")
  else if (strstr r.uri (lit "..")).isSome then
    some (lit "potential path traversal attempt: " ++ r.uri)
  else if ¬ method.supported then some (lit "request for unsupported method: " ++ r.method)
  else none

/-- A warning quotes nothing but the method or the URI. -/
theorem oneLine_validateWarning {protocol : Protocol} {r : Http1Req} (hmethod : OneLine r.method)
    (huri : OneLine r.uri) {msg : Bytes} (h : validateWarning protocol r = some msg) :
    OneLine msg := by
  simp only [validateWarning] at h
  split_ifs at h
  · rw [← Option.some.inj h]
    exact OneLine.append ⟨by decide, by decide⟩ hmethod
  · rw [← Option.some.inj h]
    exact ⟨by decide, by decide⟩
  · rw [← Option.some.inj h]
    exact OneLine.append ⟨by decide, by decide⟩ huri
  · rw [← Option.some.inj h]
    exact OneLine.append ⟨by decide, by decide⟩ hmethod

theorem oneRecord_warnText {now msg : Bytes} (hnow : OneLine now) (hmsg : OneLine msg) (pid : ℤ)
    (tid : ℕ) : OneRecord (warnText now pid tid msg) := by
  have hlit : OneLine (lit " [warn]") ∧ OneLine (lit " - ") ∧ OneLine (lit " - pid ") ∧
      OneLine (lit " - tid 0x") := ⟨⟨by decide, by decide⟩, ⟨by decide, by decide⟩,
        ⟨by decide, by decide⟩, by decide, by decide⟩
  apply oneRecord_iff.mpr
  simp only [oneLine_append, hlit, hnow, hmsg, oneLine_decimal, oneLine_hexNat, and_self]

/-! ## The fields of a request -/

/-- The `User-Agent` is a header's value. -/
theorem oneLine_getHeaderValue {r : Http1Req} (h : ∀ x ∈ r.headers, OneLine x.key ∧ OneLine x.value)
    (key : Bytes) : OneLine ((getHeaderValue r key).getD []) := by
  cases hfind : r.headers.find? fun x => strcasecmpEq x.key key with
  | none => simp [getHeaderValue, hfind, OneLine.nil]
  | some x =>
    have hx := (h x (List.mem_of_find?_eq_some hfind)).2
    simpa [getHeaderValue, hfind] using hx

/-- **The access record is one line exactly if the method and the URI are.** -/
theorem oneRecord_accessText {remoteIp now : Bytes} (hip : OneLine remoteIp) (hnow : OneLine now)
    {r : Http1Req} (hversion : OneLine r.version)
    (hheaders : ∀ x ∈ r.headers, OneLine x.key ∧ OneLine x.value)
    (statusCode bodyLen latency tid : ℕ) :
    OneRecord (accessText remoteIp now r statusCode bodyLen latency tid) ↔
      OneLine r.method ∧ OneLine r.uri := by
  have hagent : OneLine (if confirmHeaderExists r (lit "User-Agent") then
      (getHeaderValue r (lit "User-Agent")).getD [] else []) := by
    split_ifs
    · exact oneLine_getHeaderValue hheaders _
    · exact OneLine.nil
  have hlit : (OneLine (lit " - - [") ∧ OneLine (lit "]  \"") ∧ OneLine (lit " ")) ∧
      (OneLine (lit "\" ") ∧ OneLine (lit " [") ∧ OneLine (lit "μs] - ")) ∧
        OneLine (lit " - tid: 0x") :=
    ⟨⟨⟨by decide, by decide⟩, ⟨by decide, by decide⟩, by decide, by decide⟩,
      ⟨⟨by decide, by decide⟩, ⟨by decide, by decide⟩, by decide +kernel, by decide +kernel⟩,
      by decide, by decide⟩
  unfold accessText
  rw [oneRecord_iff]
  simp only [oneLine_append, hlit, hip, hnow, hversion, hagent, oneLine_decimalNat, oneLine_decimal,
    oneLine_hexNat, and_true, true_and]

/-- **Of every request that is parsed, what is logged is one line a message exactly if there
is no line break in the part of the method and of the URI that is stored.** The address and
the date are those of `inet_ntop` and `strftime`. -/
theorem one_record_iff (protocol : Protocol) (evs : List SockEvent) (block : Bytes)
    (hblock : (processIngress protocol evs).1.block = some block) (remoteIp now : Bytes)
    (hip : OneLine remoteIp) (hnow : OneLine now) (statusCode bodyLen latency tid : ℕ) (pid : ℤ) :
    (OneRecord (accessText remoteIp now (processIngress protocol evs).1.req statusCode bodyLen
        latency tid) ∧
      ∀ msg, validateWarning (processIngress protocol evs).1.protocol
          (processIngress protocol evs).1.req = some msg → OneRecord (warnText now pid tid msg)) ↔
      OneLine ((rawMethod block).take 15) ∧ OneLine ((rawUri block).take 4095) := by
  have hreq : (processIngress protocol evs).1.req = parseFields block := by
    rw [(parseBlock_of_block hblock).2, parseBlock_eq]
  obtain ⟨hversion, hheaders⟩ := oneLine_parseFields block
  obtain ⟨hmethod, huri⟩ := parseFields_method_uri block
  rw [hreq, oneRecord_accessText hip hnow hversion hheaders, ← hmethod, ← huri]
  constructor
  · rintro ⟨h, -⟩
    exact h
  · intro h
    refine ⟨h, fun msg hmsg => ?_⟩
    exact oneRecord_warnText hnow (oneLine_validateWarning h.1 h.2 hmsg) pid tid

theorem one_record_iff_getA :
    (processIngress .unknown [.data getA.block]).1.block = some getA.block ∧
      OneRecord (accessText (lit "127.0.0.1") (lit "1970-01-01 00:00:00 UTC")
        (processIngress .unknown [.data getA.block]).1.req 200 12 120 1) := by
  have hblock : (processIngress .unknown [.data getA.block]).1.block = some getA.block := by decide
  have hiff := one_record_iff .unknown [.data getA.block] getA.block hblock (lit "127.0.0.1")
    (lit "1970-01-01 00:00:00 UTC") ⟨by decide, by decide⟩ ⟨by decide, by decide⟩ 200 12 120 1 2
  exact ⟨hblock, (hiff.mpr ⟨⟨by decide, by decide⟩, by decide, by decide⟩).1⟩

/-! ## A forged record -/

/-- A URI with a line break, and what stands behind it in the log. -/
def forgedGet : Bytes := lit "GET /a\nforged HTTP/1.1\r\nHost: h\r\n\r\n"

/-- It is accepted, and its access record is two lines. -/
theorem forgedGet_forges :
    readHttpHeaders [] [.data forgedGet] = (.complete forgedGet forgedGet.length 0, []) ∧
      (processIngress .unknown [.data forgedGet]).1.ok = true ∧
      ¬ OneRecord (accessText (lit "127.0.0.1") (lit "1970-01-01 00:00:00 UTC")
        (processIngress .unknown [.data forgedGet]).1.req 404 0 120 1) := by
  refine ⟨by decide, by decide, fun h => ?_⟩
  have hreq : (processIngress .unknown [.data forgedGet]).1.req = parseFields forgedGet := by decide
  obtain ⟨hversion, hheaders⟩ := oneLine_parseFields forgedGet
  rw [hreq, oneRecord_accessText ⟨by decide, by decide⟩ ⟨by decide, by decide⟩ hversion hheaders] at h
  exact absurd h.2.2 (by decide)

end Celeritas
