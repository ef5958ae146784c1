import Celeritas.CLib.Str

/-!
# The program's data

The structures of `types.h` that more than one part of the program reads, with the fields
the modelled functions use. A `char` array is the list of the bytes stored in it
(`CLib/Str.lean`).
-/

set_option autoImplicit false

namespace Celeritas

open CLib

/-- `protocol_t` -/
inductive Protocol
  | unknown
  | http10
  | http11
  | http2
  deriving DecidableEq, Repr

/-- `log_target_t` -/
inductive LogTarget
  | access
  | event
  deriving DecidableEq, Repr

/-- `log_entry_t`. `line` is the part of the 2048-byte array that has been written, the
terminating NUL included; what lies behind it is indeterminate. -/
structure LogEntry where
  target : LogTarget
  len : ℕ
  line : Bytes
  deriving DecidableEq, Repr

/-- An entry of the `calloc`ed array. -/
def LogEntry.zeroed : LogEntry := ⟨.access, 0, []⟩

/-- The OpenSSL object of a connection: what matters of it here is the descriptor it was
given by `SSL_set_fd`, if that call succeeded. -/
structure Ssl where
  fd : Option ℕ
  deriving DecidableEq, Repr

/-- `conn_t`. `id` is not in the source: it numbers the accepted connections, so that a
connection can be told from a later one that got its descriptor number. The zeroed
`conn_t` of `listener_thread` has number `0`, accepted ones count from `1`. -/
structure Conn where
  id : ℕ := 0
  fd : ℕ := 0
  isTls : Bool := false
  remoteIp : Bytes := []
  ssl : Option Ssl := none
  protocol : Protocol := .unknown
  keepaliveDeadline : ℤ := 0
  deriving DecidableEq, Repr

/-- The descriptor the TLS layer writes to for this connection. -/
def Conn.tlsFd (c : Conn) : Option ℕ := c.ssl.bind Ssl.fd

end Celeritas
