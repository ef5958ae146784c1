import Celeritas.Http.Request

/-!
# HTTP/1 responses: validation, routing and the handlers

`validator.c`, `handler_static.c`, `response.c` and the parts of `http_common.c` that come
after parsing. A handler's effect on the context is a record: the calls of
`resp_add_header` it makes, in order, and the three body fields. The calls are kept as they
are made, because a `Content-Length` passes through the buffer of `int_to_string` on its
way, and whether that is one step or two is a question of who else is running.

What the handlers are told by the file system, the clock and the configuration is `Env`.
-/

set_option autoImplicit false

namespace Celeritas

open CLib

/-- `http_method_t` -/
inductive HttpMethod
  | get
  | head
  | post
  | put
  | delete
  | connect
  | options
  | trace
  | invalid
  deriving DecidableEq, Repr

/-- What the file system answers for a path: the size `stat` reports and the date it gives,
if it succeeds, and whether `open` and `mmap` would. -/
structure FileOutcome where
  stat : Option (ℕ × Bytes)
  opens : Bool
  maps : Bool

structure Env where
  docRoot : Bytes
  serverTok : Bytes
  dateNow : Bytes
  files : Bytes → FileOutcome

/-! ## Headers -/

/-- A call of `resp_add_header`, with a string of its own or with what `int_to_string`
returns. -/
inductive HeaderOp
  | add (name value : Bytes)
  | addInt (name : Bytes) (i : ℤ)
  deriving DecidableEq

/-- `int_to_string` -/
def intToString (i : ℤ) : Bytes := snprintfStored 32 (decimal i)

/-- The entry `resp_add_header` makes of its two strings. -/
def respAddHeader (name value : Bytes) : Header := ⟨strncpy name 128, strncpy value 4096⟩

/-- The entry a call makes when nobody else is running. -/
def HeaderOp.header : HeaderOp → Header
  | .add name value => respAddHeader name value
  | .addInt name i => respAddHeader name (intToString i)

/-- What a handler leaves in the context: the status, the headers, `body_len`, whether
`body_data` is a pointer, and `is_mmap`. -/
structure Response where
  statusCode : ℕ
  ops : List HeaderOp
  bodyLen : ℕ := 0
  hasBody : Bool := false
  isMmap : Bool := false

def Response.headers (r : Response) : List Header := r.ops.map HeaderOp.header

/-- `resp_add_common_headers` -/
def commonHeaders (env : Env) : List HeaderOp :=
  [.add (lit "Server") env.serverTok, .add (lit "Date") env.dateNow]

/-! ## The handlers -/

/-- `http_status_to_string` -/
def httpStatusToString : ℕ → Bytes
  | 100 => lit "Continue"
  | 101 => lit "Switching Protocols"
  | 102 => lit "Processing"
  | 103 => lit "Early Hints"
  | 200 => lit "OK"
  | 201 => lit "Created"
  | 202 => lit "Accepted"
  | 203 => lit "Non-Authoritative Information"
  | 204 => lit "No Content"
  | 205 => lit "Reset Content"
  | 206 => lit "Partial Content"
  | 207 => lit "Multi-Status"
  | 208 => lit "Already Reported"
  | 226 => lit "IM Used"
  | 300 => lit "Multiple Choices"
  | 301 => lit "Moved Permanently"
  | 302 => lit "Found"
  | 303 => lit "See Other"
  | 304 => lit "Not Modified"
  | 305 => lit "Use Proxy"
  | 306 => lit "Unused"
  | 307 => lit "Temporary Redirect"
  | 308 => lit "Permanent Redirect"
  | 400 => lit "Bad Request"
  | 401 => lit "Unauthorized"
  | 402 => lit "Payment Required"
  | 403 => lit "Forbidden"
  | 404 => lit "Not Found"
  | 405 => lit "Method Not Allowed"
  | 406 => lit "Not Acceptable"
  | 407 => lit "Proxy Authentication Required"
  | 408 => lit "Request Timeout"
  | 409 => lit "Conflict"
  | 410 => lit "Gone"
  | 411 => lit "Length Required"
  | 412 => lit "Precondition Failed"
  | 413 => lit "Content Too Large"
  | 414 => lit "URI Too Long"
  | 415 => lit "Unsupported Media Type"
  | 416 => lit "Range Not Satisfiable"
  | 417 => lit "Expectation Failed"
  | 418 => lit "I'm a teapot"
  | 421 => lit "Misdirected Request"
  | 422 => lit "Unprocessable Content"
  | 423 => lit "Locked"
  | 424 => lit "Failed Dependency"
  | 425 => lit "Too Early"
  | 426 => lit "Upgrade Required"
  | 428 => lit "Precondition Required"
  | 429 => lit "Too Many Requests"
  | 431 => lit "Request Header Fields Too Large"
  | 451 => lit "Unavailable For Legal Reasons"
  | 500 => lit "Internal Server Error"
  | 501 => lit "Not Implemented"
  | 502 => lit "Bad Gateway"
  | 503 => lit "Service Unavailable"
  | 504 => lit "Gateway Timeout"
  | 505 => lit "HTTP Version Not Supported"
  | 506 => lit "Variant Also Negotiates"
  | 507 => lit "Insufficient Storage"
  | 508 => lit "Loop Detected"
  | 510 => lit "Not Extended"
  | 511 => lit "Network Authentication Required"
  | _ => lit "Unspecified"

/-- The body of `handle_error`, before `snprintf` cuts it. -/
def errorBody (statusCode : ℕ) : Bytes :=
  lit "<!DOCTYPE html>\n<html lang='en'>\n<head><title>" ++ decimalNat statusCode ++ lit " " ++
    httpStatusToString statusCode ++ lit "</title></head>\n<body><h1>" ++ decimalNat statusCode ++
    lit " " ++ httpStatusToString statusCode ++
    lit "</h1><p>Celeritas Server</p></body>\n</html>\n"

/-- `handle_error` -/
def handleError (env : Env) (statusCode : ℕ) : Response :=
  let len := snprintfRet (errorBody statusCode)
  { statusCode
    ops := commonHeaders env ++ [.add (lit "Connection") (lit "close"),
        .add (lit "Content-Type") (lit "text/html")] ++
      (if statusCode = 405 then [.add (lit "Allow") (lit "GET, HEAD, OPTIONS")] else []) ++
      [.addInt (lit "Content-Length") len]
    bodyLen := sizeOfInt len
    hasBody := true }

/-- `handle_options` -/
def handleOptions (env : Env) (statusCode : ℕ) : Response :=
  { statusCode
    ops := commonHeaders env ++ [.add (lit "Accept-Ranges") (lit "bytes"),
      .add (lit "Allow") (lit "GET, HEAD, OPTIONS"), .addInt (lit "Content-Length") 0,
      .add (lit "Connection") (lit "keep-alive")] }

/-- `handle_put` -/
def handlePut (statusCode : ℕ) : Response := { statusCode, ops := [] }

def PATH_MAX : ℕ := 4096

/-- `resolve_path` -/
def resolvePath (docRoot uri : Bytes) : Bytes :=
  let rootHasSlash := docRoot.getLast? = some (charByte '/')
  let uriHasSlash := uri.head? = some (charByte '/')
  let path := snprintfStored PATH_MAX <|
    if rootHasSlash ∧ uriHasSlash then docRoot ++ uri.tail
    else if ¬ rootHasSlash ∧ ¬ uriHasSlash then docRoot ++ lit "/" ++ uri
    else docRoot ++ uri
  if path.getLast? = some (charByte '/') then
    path ++ (lit "index.html").take (PATH_MAX - path.length - 1)
  else path

def mimeTable : List (Bytes × Bytes) :=
  [(lit ".html", lit "text/html"), (lit ".htm", lit "text/html"), (lit ".css", lit "text/css"),
    (lit ".js", lit "text/javascript"), (lit ".txt", lit "text/plain"),
    (lit ".jpg", lit "image/jpeg"), (lit ".jpeg", lit "image/jpeg"), (lit ".png", lit "image/png"),
    (lit ".gif", lit "image/gif"), (lit ".webp", lit "image/webp"),
    (lit ".ico", lit "image/x-icon"), (lit ".svg", lit "image/svg+xml"),
    (lit ".woff2", lit "font/woff2")]

/-- `get_mime_type`; the extension is what `strrchr` finds. -/
def getMimeType (path : Bytes) : Bytes :=
  let ext := (path.reverse.takeWhile (· != charByte '.')).reverse
  if charByte '.' ∈ path then
    match mimeTable.find? fun e => strcasecmpEq (charByte '.' :: ext) e.1 with
    | some e => e.2
    | none => lit "application/octet-stream"
  else lit "application/octet-stream"

/-- `resp_map_file_to_ctx`: `body_len` and whether `body_data` is a pointer. -/
def respMapFileToCtx (file : FileOutcome) (bodyLen : ℕ) : ℕ × Bool :=
  if ¬ file.opens then (bodyLen, false)
  else if ¬ file.maps then (0, false)
  else (bodyLen, true)

/-- `handle_get_head` -/
def handleGetHead (env : Env) (statusCode : ℕ) (method : HttpMethod) (uri : Bytes) : Response :=
  let localFile := resolvePath (strncpy env.docRoot PATH_MAX) uri
  match (env.files localFile).stat with
  | none => handleError env 404
  | some (size, lastMod) =>
    let mapped := method = .get ∧ size > 0
    let body := if mapped then respMapFileToCtx (env.files localFile) size else (size, false)
    { statusCode
      ops := commonHeaders env ++ [.add (lit "Content-Type") (getMimeType localFile),
        .add (lit "Last-Modified") lastMod, .addInt (lit "Content-Length") (intOfSize size),
        .add (lit "Connection") (lit "keep-alive"), .add (lit "Content-Language") (lit "en-CA")]
      bodyLen := body.1
      hasBody := body.2
      isMmap := mapped }

/-- `handle_static` -/
def handleStatic (env : Env) (statusCode : ℕ) (method : HttpMethod) (uri : Bytes) : Response :=
  match method with
  | .get | .head => handleGetHead env statusCode method uri
  | .options => handleOptions env statusCode
  | .put => handlePut statusCode
  | _ => { statusCode, ops := [] }

/-! ## From the request to the response -/

def methodOf (method : Bytes) : HttpMethod :=
  if strcmpEq (lit "GET") method then .get
  else if strcmpEq (lit "HEAD") method then .head
  else if strcmpEq (lit "PUT") method then .put
  else if strcmpEq (lit "DELETE") method then .delete
  else if strcmpEq (lit "TRACE") method then .trace
  else if strcmpEq (lit "POST") method then .post
  else if strcmpEq (lit "OPTIONS") method then .options
  else .invalid

/-- The method whitelist. -/
def HttpMethod.supported : HttpMethod → Bool
  | .get | .head | .options | .put => true
  | _ => false

/-- `validate_request`: the method and the status. -/
def validateRequest (protocol : Protocol) (r : Http1Req) : HttpMethod × ℕ :=
  let method := methodOf r.method
  if method = .invalid then (method, 400)
  else if protocol ≠ .http10 ∧ ¬ confirmHeaderExists r (lit "Host") then (method, 400)
  else if (strstr r.uri (lit "..")).isSome then (method, 403)
  else if ¬ method.supported then (method, 405)
  else (method, 200)

/-- `validate_request`, `route_request` and the handler. -/
def respond (env : Env) (protocol : Protocol) (r : Http1Req) : HttpMethod × Response :=
  let (method, statusCode) := validateRequest protocol r
  (method, if statusCode ≥ 400 then handleError env statusCode
    else handleStatic env statusCode method r.uri)

/-! ## After the response -/

/-- The body bytes `send_response` offers to `conn_write`. -/
def bodyOffered (method : HttpMethod) (resp : Response) : ℕ :=
  if method = .get ∧ resp.hasBody ∧ resp.bodyLen > 0 then resp.bodyLen else 0

/-- `should_keep_alive` -/
def shouldKeepAlive (protocol : Protocol) (r : Http1Req) (headers : List Header) : Bool :=
  if confirmHeaderExists r (lit "Connection") ∧
      (getHeaderValue r (lit "Connection")).any (strcmpEq (lit "close")) then false
  else if headers.any fun h =>
      strcasecmpEq h.key (lit "Connection") && strcasecmpEq h.value (lit "close") then false
  else protocol == .http11

end Celeritas
