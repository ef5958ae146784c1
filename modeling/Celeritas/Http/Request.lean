import Celeritas.Types

/-!
# HTTP/1 requests: reading and parsing

`http1.c`. `readHttpHeaders` is fed the answers `conn_read` gives, one after the other, and
hands back those it has not asked for: what the socket still holds. `parseHttp1` is the byte
automaton of `parse_http1`; its inner loop over the blanks behind a colon is a state of its
own (`headerValue true`), everything else is the source's.

A parser field is the C string stored in it. The buffers come out of `calloc`, so a field
that the parser was still filling when the input ended is a string as well.
-/

set_option autoImplicit false

namespace Celeritas

open CLib

/-- `kv_t` -/
structure Header where
  key : Bytes
  value : Bytes
  deriving DecidableEq, Repr

/-- `http1_req_t`, with the `header_count` headers that are complete. -/
structure Http1Req where
  method : Bytes := []
  uri : Bytes := []
  version : Bytes := []
  headers : List Header := []
  deriving DecidableEq, Repr

/-- `get_header_value`: `none` is the null pointer. -/
def getHeaderValue (r : Http1Req) (key : Bytes) : Option Bytes :=
  (r.headers.find? fun h => strcasecmpEq h.key key).map Header.value

/-- `confirm_header_exists` -/
def confirmHeaderExists (r : Http1Req) (key : Bytes) : Bool :=
  r.headers.any fun h => strcasecmpEq h.key key

/-! ## `parse_http1` -/

/-- `parse_step_t`; `skip` is the loop over the blanks behind a colon. -/
inductive ParseStep
  | method
  | uri
  | version
  | headerKey
  | headerValue (skip : Bool)
  | body
  | done
  deriving DecidableEq

/-- The parser's variables: `dest` is what it has stored behind the pointer of that name, and
`key` the key of the header whose value comes next. -/
structure Parser where
  state : ParseStep := .method
  dest : Bytes := []
  key : Bytes := []
  req : Http1Req := {}
  deriving DecidableEq

/-- `else if (count < limit) dest[count++] = *p` -/
def Parser.store (s : Parser) (limit : ℕ) (c : UInt8) : Parser :=
  if s.dest.length < limit then { s with dest := s.dest ++ [c] } else s

/-- `HEADER_VALUE` on a line feed: one header more, of at most 128. -/
def Parser.endHeader (s : Parser) : Parser :=
  let headers := s.req.headers ++ [⟨s.key, s.dest⟩]
  { s with
    state := if headers.length ≥ 128 then .body else .headerKey
    dest := []
    req := { s.req with headers } }

/-- One byte of the input. -/
def parseByte (s : Parser) (c : UInt8) : Parser :=
  match s.state with
  | .method =>
    if c = charByte ' ' then
      { s with state := .uri, dest := [], req := { s.req with method := s.dest } }
    else s.store 15 c
  | .uri =>
    if c = charByte ' ' then
      { s with state := .version, dest := [], req := { s.req with uri := s.dest } }
    else s.store 4095 c
  | .version =>
    if c = charByte '\r' then s
    else if c = charByte '\n' then
      { s with state := .headerKey, dest := [], req := { s.req with version := s.dest } }
    else s.store 15 c
  | .headerKey =>
    if c = charByte ':' then { s with state := .headerValue true, dest := [], key := s.dest }
    else if c = charByte '\r' then s
    else if c = charByte '\n' then { s with state := .body }
    else s.store 127 c
  | .headerValue skip =>
    if skip ∧ c = charByte ' ' then s
    else
      let s := { s with state := .headerValue false }
      if c = charByte '\r' then s
      else if c = charByte '\n' then s.endHeader
      else s.store 4095 c
  | .body => { s with state := .done }
  | .done => s

/-- What the fields hold when the input has ended. -/
def Parser.fields (s : Parser) : Http1Req :=
  match s.state with
  | .method => { s.req with method := s.dest }
  | .uri => { s.req with uri := s.dest }
  | .version => { s.req with version := s.dest }
  | _ => s.req

/-- The loop of `parse_http1`. -/
def parseFields (buf : Bytes) : Http1Req := (buf.foldl parseByte {}).fields

def upgradesToH2c (r : Http1Req) : Bool :=
  r.headers.any fun h =>
    strcasecmpEq h.key (lit "Upgrade") && (strstr h.value (lit "h2c")).isSome

/-- `parse_http1`: its result, the request, and the protocol it leaves in the connection. -/
def parseHttp1 (protocol : Protocol) (buf : Bytes) : ℤ × Http1Req × Protocol :=
  let r := parseFields buf
  if upgradesToH2c r then (1, r, protocol)
  else (0, r, if strcasecmpEq r.version (lit "HTTP/1.0") then .http10 else protocol)

/-! ## `read_http_headers` -/

def MAX_HEADER_SIZE : ℕ := 8192

/-- The size of both buffers called `header_buffer`. -/
def HEADER_BUFFER_SIZE : ℕ := 8192

/-- What `conn_read` comes back with; when it would have to wait, what `poll` does then.
An empty `data` and the end of the list are the end of the stream. -/
inductive SockEvent
  | data (seg : Bytes)
  | interrupted
  | wouldBlock (ready : Bool)
  /-- any other error, that of `poll` included -/
  | error
  deriving DecidableEq

inductive ReadResult
  /-- the result `0`: `header_buffer`, `header_bytes_read` and `body_overshoot_bytes` -/
  | complete (buf : Bytes) (headerBytesRead overshoot : ℕ)
  | failed (status : ℤ)
  deriving DecidableEq

/-- The end-of-header marker. -/
def eoh : Bytes := [13, 10, 13, 10]

/-- What is left of a segment after a read into `room` bytes. -/
def leftover (seg : Bytes) (room : ℕ) (evs : List SockEvent) : List SockEvent :=
  if seg.length ≤ room then evs else .data (seg.drop room) :: evs

/-- `read_http_headers`, `buf` being the `header_bytes_read` bytes read so far. -/
def readHttpHeaders (buf : Bytes) : List SockEvent → ReadResult × List SockEvent
  | [] => if buf.length < MAX_HEADER_SIZE - 1 then (.failed (-2), []) else (.failed (-3), [])
  | e :: evs =>
    if buf.length < MAX_HEADER_SIZE - 1 then
      match e with
      | .interrupted => readHttpHeaders buf evs
      | .wouldBlock ready => if ready then readHttpHeaders buf evs else (.failed (-4), evs)
      | .error => (.failed (-1), evs)
      | .data seg =>
        let room := MAX_HEADER_SIZE - 1 - buf.length
        if seg = [] then (.failed (-2), evs)
        else
          match strstr (buf ++ seg.take room) eoh with
          | some i =>
            (.complete (buf ++ seg.take room) (i + 4) ((buf ++ seg.take room).length - (i + 4)),
              leftover seg room evs)
          | none =>
            -- a segment that does not fit fills the buffer, and that ends the loop
            if seg.length ≤ room then readHttpHeaders (buf ++ seg) evs
            else (.failed (-3), leftover seg room evs)
    else (.failed (-3), e :: evs)

end Celeritas
