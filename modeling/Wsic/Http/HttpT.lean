import Wsic.Http.UrlT
import Wsic.String.Cursor

/-!
# HTTP messages

Model of `src/http/http.c` and `src/http/response-codes.c`: the parts of a message, the
parsers of the request line and of header lines, and the response text, with the write
of `src/connection/connection.c` that sends it.
-/

open CMemory

namespace Wsic

/-- `enum httpMethod`, `http.h:13–18`. -/
inductive HttpMethod where
  | unknown
  | get
  | put
  | post
  | head
  | options
deriving DecidableEq

/-- `http_t`, `http.h:20–29`. -/
structure HttpT where
  method : HttpMethod
  version : Option StringT
  responseCode : UInt16
  responseCodeText : Option StringT
  headers : HashTableT (Option StringT)
  body : Option StringT
  url : Option UrlT

namespace HttpT

/-! ### Responses -/

/-- `http_create`, `http.c:9`. -/
def create : HttpT := ⟨.unknown, none, 0, none, HashTableT.create, none, none⟩

/-- The texts of the response codes, `response-codes.h`. -/
def codeText : UInt16 → String
  | 100 => "Continue"
  | 101 => "Switching Protocol"
  | 102 => "Processing"
  | 103 => "Early Hints"
  | 200 => "OK"
  | 201 => "Created"
  | 202 => "Accepted"
  | 203 => "Non-Authoritative Information"
  | 204 => "No Content"
  | 205 => "Reset Content"
  | 206 => "Partial Content"
  | 207 => "Multi-Status"
  | 208 => "Multi-Status"
  | 226 => "IM Used"
  | 300 => "Multiple Choice"
  | 301 => "Moved Permanently"
  | 302 => "Found"
  | 303 => "See Other"
  | 304 => "Not Modified"
  | 305 => "Use Proxy"
  | 306 => "unused"
  | 307 => "Temporary Redirect"
  | 308 => "Permanent Redirect"
  | 400 => "Bad Request"
  | 401 => "Unauthorized"
  | 402 => "Payment Required"
  | 403 => "Forbidden"
  | 404 => "Not Found"
  | 405 => "Method Not Allowed"
  | 406 => "Not Acceptable"
  | 407 => "Proxy Authentication Required"
  | 408 => "Request Timeout"
  | 409 => "Conflict"
  | 410 => "Gone"
  | 411 => "Length Required"
  | 412 => "Precondition Failed"
  | 413 => "Payload Too Large"
  | 414 => "URI Too Long"
  | 415 => "Unsupported Media Type"
  | 416 => "Requested Range Not Satisfiable"
  | 417 => "Expectation Failed"
  | 418 => "I'm a teapot"
  | 421 => "Misdirected Request"
  | 422 => "Unprocessable Entity"
  | 423 => "Locked"
  | 424 => "Failed Dependency"
  | 425 => "Too Early"
  | 426 => "Upgrade Required"
  | 428 => "Precondition Required"
  | 429 => "Too Many Requests"
  | 431 => "Request Header Fields Too Large"
  | 451 => "Unavailable For Legal Reasons"
  | 500 => "Internal Server Error"
  | 501 => "Not Implemented"
  | 502 => "Bad Gateway"
  | 503 => "Service Unavailable"
  | 504 => "Gateway Timeout"
  | 505 => "HTTP Version Not Supported"
  | 506 => "Variant Also Negotiates"
  | 507 => "Insufficient Storage"
  | 508 => "Loop Detected"
  | 510 => "Not Extended"
  | 511 => "Network Authentication Required"
  | _ => ""

/-- `http_codeToString`, `response-codes.c:3`. -/
def codeToString (code : UInt16) : StringT := StringT.fromBuffer (ascii (codeText code))

/-- `http_setVersion`, `http.c:33`. -/
def setVersion (http : HttpT) (version : Option StringT) : HttpT := { http with version := version }

/-- `http_setResponseCode`, `http.c:44`. -/
def setResponseCode (http : HttpT) (code : UInt16) : HttpT :=
  { http with responseCode := code, responseCodeText := some (codeToString code) }

/-- `http_setHeader`, `http.c:53`. -/
def setHeader (http : HttpT) (key value : Option StringT) : Checked HttpT := do
  let key ← deref key
  let (_, headers) ← http.headers.setValue key value
  return { http with headers := headers }

/-- `http_getHeader`, `http.c:59`; the value and the table behind it. -/
def getHeader (http : HttpT) (key : StringT) : Checked (Option StringT × HttpT) := do
  let (value, headers) ← http.headers.getValue key
  return (value.join, { http with headers := headers })

variable [FreshBytes]

/-- The conversion of a `size_t` to the `int` that `string_fromInt` takes. -/
def toInt (size : Nat) : Int := (BitVec.ofNat 32 size).toInt

/-- `http_setBody`, `http.c:63`. -/
def setBody (http : HttpT) (body : Option StringT) : Checked HttpT :=
  match body with
  | none => .ok { http with body := none }
  | some b => { http with body := some b }.setHeader
      (some (StringT.fromBuffer (ascii "Content-Length"))) (some (StringT.fromInt (toInt b.size)))

/-- The start of the status line, `http.c:88–92`. -/
def appendVersion (result : StringT) : Option StringT → Checked StringT
  | none => .ok result
  | some version => return (← (result.appendBuffer (ascii "HTTP/")).append version).appendChar 32

/-- The loop body of `http_toResponseString`, `http.c:107–114`. -/
def appendHeader (result : StringT) (header : Option StringT × Option (Option StringT)) :
    Checked StringT := do
  let result ← result.append (← deref header.1)
  let result := result.appendBuffer (ascii ": ")
  let result ← result.append (← deref header.2.join)
  return result.appendBuffer [13, 10]

/-- `http_toResponseString`, `http.c:81`; the text and the message with its table. -/
def toResponseString (http : HttpT) : Checked (StringT × HttpT) := do
  let bodySize := match http.body with
    | none => 0
    | some body => body.size
  let result := StringT.create.setBufferSize (40 + http.headers.getLength * 40 + bodySize)
  let result ← appendVersion result http.version
  let result ← result.append (StringT.fromInt http.responseCode.toNat)
  let result := result.appendChar 32
  let result ← UrlT.appendUnlessNull result http.responseCodeText
  let result := result.appendBuffer [13, 10]
  let (visited, headers) ← http.headers.iterate
  let result ← visited.foldlM appendHeader result
  let result := result.appendBuffer [13, 10]
  let result ← UrlT.appendUnlessNull result http.body
  return (result, { http with headers := headers })

/-- The bytes that `connection_write`, `connection.c:280`, hands to `send` or to
`SSL_write_ex`: the C string of the buffer, whatever the size argument says. -/
def connectionWrite (buffer : List UInt8) : List UInt8 := buffer.take (strlen buffer)

/-! ### Requests -/

/-- `http_parseMethod`, `http.c:367`. -/
def parseMethod (method : StringT) : Checked HttpMethod := do
  if ← method.equalsBuffer (ascii "GET") then return .get
  if ← method.equalsBuffer (ascii "PUT") then return .put
  if ← method.equalsBuffer (ascii "POST") then return .post
  if ← method.equalsBuffer (ascii "HEAD") then return .head
  if ← method.equalsBuffer (ascii "OPTIONS") then return .options
  return .unknown

/-- The loop of `http_parseRequestTarget`, `http.c:309–328`: a key up to `=`, a value up to
`&` or to the end. -/
def parametersLoop (requestTarget : StringT) :
    Nat → Nat → StringCursorT → UrlT → Checked (Bool × UrlT)
  | 0, _, _, _ => .error .nonTermination
  | rounds + 1, firstParameter, cursor, url => do
    let secondParameter := firstParameter + 1
    let (found, cursor) := cursor.findNextChar 61
    match found with
    | none => return (false, url)
    | some firstParameter =>
      let key ← requestTarget.substring secondParameter firstParameter
      let secondParameter := firstParameter + 1
      let (found, cursor) := cursor.findNextChar 38
      match found with
      | none =>
        let value ← requestTarget.substring secondParameter requestTarget.size
        let url ← url.setParameter key value
        return (true, url)
      | some firstParameter =>
        let value ← requestTarget.substring secondParameter firstParameter
        let url ← url.setParameter key value
        parametersLoop requestTarget rounds firstParameter cursor url

/-- `http_parseRequestTarget`, `http.c:286`, on the URL of the message. The check for a
bare `?` at the end reads one character ahead. -/
def parseRequestTarget (url : UrlT) (requestTarget : StringT) : Checked (Bool × UrlT) := do
  let (firstParameter, cursor) := (StringCursorT.create requestTarget).findNextChar 63
  match firstParameter with
  | none =>
    let path ← requestTarget.substring 0 requestTarget.size
    return (true, url.setPath path)
  | some firstParameter =>
    let path ← requestTarget.substring 0 firstParameter
    let url := url.setPath path
    let (current, cursor) := cursor.getNextChar
    if current = 0 then return (true, url)
    else parametersLoop requestTarget requestTarget.size firstParameter cursor url

/-- The checks on the three characters of the version, `http.c:228–232`; `char` is signed,
and the third check looks at the first character again. -/
def isVersionNumber (version : StringT) : Bool :=
  let first := (version.getCharAt 0).toBitVec.toInt
  let third := (version.getCharAt 2).toBitVec.toInt
  !(first < 48 || first > 57) && version.getCharAt 1 == 46 && !(third < 48 || first > 57)

/-- The end of `http_parseRequestLine`, `http.c:202–243`: the version, or none. -/
def parseVersion (versionString : StringT) : Checked (Option StringT) := do
  match ← versionString.substring 0 5 with
  | none => return none
  | some compareString =>
    if ← compareString.equalsBuffer (ascii "HTTP/") then
      match ← versionString.substring 5 8 with
      | none => return none
      | some version => return if isVersionNumber version then some version else none
    else return none

/-- `http_parseRequestLine`, `http.c:125`. -/
def parseRequestLine (http : HttpT) (string : StringT) : Checked (Bool × HttpT) := do
  let (current, tempString, cursor) := (StringCursorT.create string).appendUntil 32
  if current = 0 then return (false, http)
  else
    let http := { http with method := ← parseMethod tempString }
    let url := (http.url.getD UrlT.create).setProtocol (some (StringT.fromBuffer (ascii "http")))
    let (current, requestTarget, cursor) := cursor.appendUntil 32
    if current = 0 then return (false, { http with url := some url })
    else
      let (correctlyParsed, url) ← parseRequestTarget url requestTarget
      let http := { http with url := some url }
      if correctlyParsed = false then return (false, http)
      else
        let (_, versionString, _) := cursor.appendUntil 0
        match ← parseVersion versionString with
        | none => return (false, http)
        | some version => return (true, http.setVersion (some version))

/-- `http_parseHeader`, `http.c:246`. -/
def parseHeader (http : HttpT) (string : StringT) : Checked (Bool × HttpT) := do
  match ((StringCursorT.create string).findNextChar 58).1 with
  | none => return (false, http)
  | some offset =>
    if string.getCharAt (offset + 1) ≠ 32 then return (false, http)
    else
      let key ← string.substring 0 offset
      let value ← string.substring (offset + 2) string.size
      match value with
      | none => return (false, http)
      | some value => return (true, ← http.setHeader key (some value))

/-- `http_parseHost`, `http.c:334`. The port is converted to a `uint16_t`, and a colon at the
end of the value leaves no text for it. -/
def parseHost (http : HttpT) : Checked (Bool × HttpT) := do
  let (host, http) ← http.getHeader (StringT.fromBuffer (ascii "Host"))
  match host with
  | none => return (false, http)
  | some host =>
    let url := http.url.getD UrlT.create
    match ((StringCursorT.create host).findNextChar 58).1 with
    | none =>
      let domainName := StringT.fromBuffer (← deref host.buffer)
      return (true, { http with url := some ((url.setPort 80).setDomainName (some domainName)) })
    | some parameter =>
      let portString ← deref (← host.substring (parameter + 1) host.size)
      let port := atoi (← portString.cstr)
      if port < 0 ∨ port > 65536 then return (false, { http with url := some url })
      else
        let domainName ← host.substring 0 parameter
        return (true, { http with
          url := some ((url.setPort (UInt16.ofNat port.toNat)).setDomainName domainName) })

/-- `http_free`, `http.c:399`. -/
def free (http : HttpT) : Checked Unit := do
  let (visited, _) ← http.headers.drain
  UrlT.freeValues visited
  match http.url with
  | none => return
  | some url => url.free

end HttpT
end Wsic
