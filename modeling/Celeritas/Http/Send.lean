import Celeritas.Http.Response

/-!
# Sending a response

`resp_build_response`, `conn_write` and `send_response`. A write may take less than it was
offered. `send_response` says so in the log and goes on, so that its result tells of failed
writes and not of short ones (`complete_iff`).
-/

set_option autoImplicit false

namespace Celeritas

open CLib

/-- The status line, the headers and the empty line, where they fit the buffer. -/
def respBuildResponse (statusCode : ℕ) (headers : List Header) : Bytes :=
  lit "HTTP/1.1 " ++ decimalNat statusCode ++ lit " " ++ httpStatusToString statusCode ++
    lit "\r\n" ++ headers.flatMap (fun h => h.key ++ lit ": " ++ h.value ++ lit "\r\n") ++
    lit "\r\n"

/-! ## Writing -/

/-- What `SSL_get_error` makes of a failed `SSL_write`. -/
inductive SslError
  | wantRead
  | wantWrite
  | syscall
  | other
  deriving DecidableEq

/-- `errno`, as far as `conn_write` sets it: `system` is what the kernel or the TLS layer
left there. -/
inductive Errno
  | again
  | io
  | system (code : ℕ)
  deriving DecidableEq

/-- What `write` or `SSL_write` does: it takes bytes, at most those it is offered, or it
fails. -/
inductive SysWrite
  | takes (n : ℕ)
  | fails (sslError : SslError) (errno : ℕ)

/-- The `switch` after `SSL_write`. -/
def SslError.errno (code : ℕ) : SslError → Errno
  | .wantRead | .wantWrite => .again
  | .syscall => .system code
  | .other => .io

/-- `conn_write`: its result, and `errno` where that is `-1`. `SSL_write` is given the count
as an `int`, and a result that is not positive is a failure. -/
def connWrite (tls : Bool) (count : ℕ) : SysWrite → ℤ × Errno
  | .takes n =>
    if ¬ tls then ((min n count : ℕ), .system 0)
    else
      let ret := min (n : ℤ) (intOfSize count)
      if ret > 0 then (ret, .system 0) else (-1, .io)
  | .fails e code => (-1, if ¬ tls then .system code else e.errno code)

/-- What `send_response` puts into the log. -/
inductive SendLog
  | failed (errno : Errno)
  | headersTruncated
  | bodyTruncated
  deriving DecidableEq

def SendLog.text (strerror : Errno → Bytes) : SendLog → Bytes
  | .failed errno => lit "write() to socket failed: " ++ strerror errno
  | .headersTruncated => lit "write() headers to socket was truncated!"
  | .bodyTruncated => lit "write() body to socket was truncated!"

/-- The result, the bytes `conn_write` has accepted, and the messages. -/
structure Sent where
  ret : ℤ
  accepted : Bytes
  log : List SendLog

/-- The body that is sent: that of a `GET`, if there is one and it is not empty. -/
def bodyToSend (method : HttpMethod) (bodyData : Option Bytes) : Option Bytes :=
  if method = .get then bodyData.filter fun body => body.length > 0 else none

/-- `send_response`; `w` and `w'` are what becomes of its two writes. The second warning
compares with the length of the header. -/
def sendResponse (tls : Bool) (statusCode : ℕ) (headers : List Header) (method : HttpMethod)
    (bodyData : Option Bytes) (w w' : SysWrite) : Sent :=
  let header := respBuildResponse statusCode headers
  let (res, errno) := connWrite tls header.length w
  if res < 0 then ⟨-1, [], [.failed errno]⟩
  else
    let accepted := header.take res.toNat
    let log := if res < intOfSize header.length then [.headersTruncated] else []
    match bodyToSend method bodyData with
    | none => ⟨0, accepted, log⟩
    | some body =>
      let (res, errno) := connWrite tls body.length w'
      if res < 0 then ⟨-1, accepted, log ++ [.failed errno]⟩
      else
        ⟨0, accepted ++ body.take res.toNat,
          log ++ if res < intOfSize header.length then [.bodyTruncated] else []⟩

/-! ## When a success is one -/

/-- Success says that all of the response was accepted. -/
structure Sent.Complete (s : Sent) (offered : Bytes) : Prop where
  all : s.ret = 0 → s.accepted = offered
  short : s.accepted.length < offered.length → s.ret ≠ 0

/-- The response as the client should get it. -/
def offered (statusCode : ℕ) (headers : List Header) (method : HttpMethod)
    (bodyData : Option Bytes) : Bytes :=
  respBuildResponse statusCode headers ++ (bodyToSend method bodyData).getD []

theorem bmod_natCast_le (n m : ℕ) : Int.bmod n m ≤ n := by
  have hmod : (n : ℤ) % m ≤ n := by exact_mod_cast Nat.mod_le n m
  rw [Int.bmod_def]
  split
  · exact hmod
  · exact (Int.sub_le_self _ (Int.natCast_nonneg _)).trans hmod

/-- The narrowing to `int` never makes a count larger. -/
theorem intOfSize_le (n : ℕ) : intOfSize n ≤ n := bmod_natCast_le n _

/-- What `conn_write` returns is negative or a number of the bytes it was offered. -/
theorem connWrite_cases (tls : Bool) (count : ℕ) (w : SysWrite) :
    (connWrite tls count w).1 < 0 ∨ ∃ n : ℕ, (connWrite tls count w).1 = n ∧ n ≤ count := by
  cases w with
  | fails e code => exact .inl (by simp [connWrite])
  | takes n =>
    cases tls with
    | false => exact .inr ⟨min n count, rfl, Nat.min_le_right _ _⟩
    | true =>
      by_cases hpos : min (n : ℤ) (intOfSize count) > 0
      · have hle := intOfSize_le count
        refine .inr ⟨(min (n : ℤ) (intOfSize count)).toNat, ?_, by omega⟩
        simp only [connWrite, not_true_eq_false, if_false, if_pos hpos]
        omega
      · refine .inl ?_
        simp only [connWrite, not_true_eq_false, if_false, if_neg hpos]
        decide

/-- A success is complete exactly if both parts were taken whole. -/
theorem complete_ok_iff {header body : Bytes} {h b : ℕ} (hh : h ≤ header.length)
    (hb : b ≤ body.length) (log : List SendLog) :
    (Sent.mk 0 (header.take h ++ body.take b) log).Complete (header ++ body) ↔
      h = header.length ∧ b = body.length := by
  constructor
  · intro hc
    have hlen : ¬ (header.take h ++ body.take b).length < (header ++ body).length :=
      fun hlt => hc.short hlt rfl
    simp only [List.length_append, List.length_take] at hlen
    omega
  · rintro ⟨rfl, rfl⟩
    rw [List.take_length, List.take_length]
    exact ⟨fun _ => rfl, fun hlt => absurd hlt (lt_irrefl _)⟩

theorem complete_failed (accepted offered : Bytes) (log : List SendLog) :
    (Sent.mk (-1) accepted log).Complete offered :=
  ⟨fun h => absurd h (by simp), fun _ => by simp⟩

def WriteFails (tls : Bool) (count : ℕ) (w : SysWrite) : Prop := (connWrite tls count w).1 < 0

def WritesAll (tls : Bool) (count : ℕ) (w : SysWrite) : Prop := (connWrite tls count w).1 = count

/-- A write fails, or every write takes all it is offered. -/
def NoShortWrite (tls : Bool) (header : Bytes) (body : Option Bytes) (w w' : SysWrite) : Prop :=
  WriteFails tls header.length w ∨ (∃ b, body = some b ∧ WriteFails tls b.length w') ∨
    (WritesAll tls header.length w ∧ ∀ b, body = some b → WritesAll tls b.length w')

/-- **`send_response` tells the truth if and only if no write is short**, or a write fails. -/
theorem complete_iff (tls : Bool) (statusCode : ℕ) (headers : List Header) (method : HttpMethod)
    (bodyData : Option Bytes) (w w' : SysWrite) :
    (sendResponse tls statusCode headers method bodyData w w').Complete
        (offered statusCode headers method bodyData) ↔
      NoShortWrite tls (respBuildResponse statusCode headers) (bodyToSend method bodyData) w w' := by
  unfold sendResponse offered NoShortWrite WriteFails WritesAll
  generalize respBuildResponse statusCode headers = header
  rcases connWrite_cases tls header.length w with hneg | ⟨h, hret, hle⟩
  · simp only [if_pos hneg]
    exact iff_of_true (complete_failed _ _ _) (.inl hneg)
  have hnn : ¬ (h : ℤ) < 0 := by omega
  simp only [hret, hnn, if_false, Int.toNat_natCast, false_or, Nat.cast_inj]
  cases bodyToSend method bodyData with
  | none =>
    have hbody : 0 ≤ ([] : Bytes).length := Nat.le_refl 0
    simpa using complete_ok_iff hle hbody _
  | some body =>
    simp only [Option.some.injEq, exists_eq_left', forall_eq']
    rcases connWrite_cases tls body.length w' with hneg | ⟨b, hret', hle'⟩
    · simp only [if_pos hneg]
      exact iff_of_true (complete_failed _ _ _) (.inl hneg)
    · have hnn' : ¬ (b : ℤ) < 0 := by omega
      simp only [hret', hnn', if_false, Int.toNat_natCast, false_or, Nat.cast_inj,
        Option.getD_some]
      exact complete_ok_iff hle hle' _

/-! ## A slow client

The socket buffer takes the header and four bytes of the body. -/

theorem short_body_succeeds :
    (sendResponse false 200 [] .get (some (lit "hello")) (.takes 100) (.takes 4)).ret = 0 ∧
      (sendResponse false 200 [] .get (some (lit "hello")) (.takes 100) (.takes 4)).accepted =
        lit "HTTP/1.1 200 OK\r\n\r\nhell" ∧
      ¬ (sendResponse false 200 [] .get (some (lit "hello")) (.takes 100) (.takes 4)).Complete
        (offered 200 [] .get (some (lit "hello"))) := by
  have hret : (sendResponse false 200 [] .get (some (lit "hello")) (.takes 100)
      (.takes 4)).ret = 0 := by decide
  refine ⟨hret, by decide, ?_⟩
  intro hc
  exact absurd (hc.all hret) (by decide)

end Celeritas
