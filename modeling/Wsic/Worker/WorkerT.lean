import Wsic.Lib.Effects
import Wsic.Connection.ConnectionT
import Wsic.Resources.Resources
import Wsic.Worker.Resolution
import Wsic.Worker.Location
import Wsic.Www.PageT

/-!
# Handling a connection

Model of `worker_handleConnection`, `src/worker/worker.c:119`, with the functions that answer a
request, the lookups of `src/config/config.c:382–419` and the process of `src/cgi/cgi.c`. The
connection, the file system and the CGI process answer as they like. What is sent to the client
and to a CGI process are events: they have happened even when the code faults behind them.
-/

open CMemory Effects Effects.Outcome

namespace Wsic

/-- The parts of `server_config_t`, `config.h`, that handling a request reads. The port is an
`int16_t` that is read as a `uint16_t`. -/
structure SiteT where
  domain : Option StringT
  port : UInt16
  sslContext : Bool
  rootDirectory : Option StringT
  directoryIndex : Option (ListT StringT)

/-- How a CGI process turns out: whether it can be spawned, how many bytes each write to it takes,
and what is read from it, unless that fails. -/
structure Script where
  spawns : Bool
  accepts : ℕ → ℕ
  output : Option (List (List UInt8))

/-- How a connection is read: `connection_readLine` and `connection_read`. -/
structure Reader (σ : Type) where
  readLine : σ → ℕ → Option StringT × σ
  read : σ → ℕ → Option StringT × σ

/-- What a worker finds: the configuration, the connection, the operating system. -/
structure Context where
  sites : ListT SiteT
  ssl : Bool
  sourceAddress : StringT
  sourcePort : UInt16
  fs : FileSystem
  openFile : List UInt8 → Option (ℕ × List UInt8)
  systemPath : Option (List UInt8)
  script : Script

/-- What a worker does to the outside: bytes for the client, with the code that is logged (0 for
the answer of a CGI process), and what happens to a CGI process. -/
inductive Effect where
  | response (code : UInt16) (bytes : List UInt8)
  | spawn (command : List UInt8) (environment : HashTableT (Option StringT))
  | stdin (bytes : List UInt8)
  | closeStdin

/-- `REQUEST_MAX_HEADER_SIZE`, `worker.h:21`. -/
def requestMaxHeaderSize : ℕ := 1048576

/-- `REQUEST_MAX_BODY_SIZE`, `worker.h:25`. -/
def requestMaxBodySize : Int := 1048576

/-! ### Configuration -/

namespace Config

/-- The loop of the lookups, `config.c:384–390`, at index `i`. -/
def findLoop (isMatch : SiteT → Checked Bool) :
    ℕ → ℕ → ListT SiteT → Checked (Option SiteT × ListT SiteT)
  | 0, _, sites => .ok (none, sites)
  | rounds + 1, i, sites => do
    let (serverConfig, sites) ← sites.getValue i
    let serverConfig ← deref serverConfig
    if ← isMatch serverConfig then return (some serverConfig, sites)
    else findLoop isMatch rounds (i + 1) sites

/-- The condition of `config_getServerConfigByDomain`, `config.c:414`. -/
def isDomain (domain : Option StringT) (port : UInt16) (serverConfig : SiteT) : Checked Bool :=
  if port = serverConfig.port then do (← deref domain).equals (← deref serverConfig.domain)
  else .ok false

/-- `config_getServerConfigByDomain`, `config.c:408`. -/
def getServerConfigByDomain (sites : ListT SiteT) (domain : Option StringT) (port : UInt16) :
    Checked (Option SiteT × ListT SiteT) := findLoop (isDomain domain port) sites.length 0 sites

/-- The condition of `config_getServerConfigByHTTPSDomain`, `config.c:386–388`. -/
def isHTTPSDomain (domain : Option StringT) (serverConfig : SiteT) : Checked Bool := do
  let isSameDomain ← (← deref serverConfig.domain).equals (← deref domain)
  return isSameDomain && serverConfig.sslContext

/-- `config_getServerConfigByHTTPSDomain`, `config.c:382`. -/
def getServerConfigByHTTPSDomain (sites : ListT SiteT) (domain : Option StringT) :
    Checked (Option SiteT × ListT SiteT) := findLoop (isHTTPSDomain domain) sites.length 0 sites

end Config

namespace Worker

variable [FreshBytes]

/-! ### Answers -/

/-- The response with a page, `worker.c:445–465` and its siblings: built, sent, logged with the
path and freed. The body of a `HEAD` request is removed behind its `Content-Length`. -/
def returnPage (request : HttpT) (code : UInt16) (page : Checked PageT)
    (loggedPath : Checked (Option StringT)) : Outcome Effect :=
  attempt (do
    let page ← page
    let response ← HttpT.create.setBody page.source
    let response := if request.method = .head then { response with body := none } else response
    let response := response.setResponseCode code
    let response := response.setVersion (some (StringT.fromBuffer (ascii "1.1")))
    let response ← response.setHeader (some (StringT.fromBuffer (ascii "Content-Type")))
      (some (StringT.fromBuffer (ascii "text/html")))
    let (responseString, response) ← response.toResponseString
    return (← deref responseString.buffer, response)) fun (buffer, response) ↦
  emit (.response code (HttpT.connectionWrite buffer)) <|
  attempt loggedPath fun _ ↦
  attempt { response with body := none }.free fun _ ↦ done

/-- The path of the request, `url_getPath(http_getUrl(request))`. -/
def requestPath (request : HttpT) : Checked (Option StringT) := return (← deref request.url).path

/-- `worker_return500`, `worker.c:434`. -/
def return500 (rounds : ℕ) (request : HttpT) (description : String) : Outcome Effect :=
  returnPage request 500 (PageT.create500 rounds (StringT.fromBuffer (ascii description)))
    (requestPath request)

/-- `worker_return404`, `worker.c:468`, with a copy of the path. -/
def return404 (rounds : ℕ) (request : HttpT) (path : StringT) : Outcome Effect :=
  returnPage request 404 (PageT.create404 rounds path.copy) (.ok (some path))

/-- `worker_return400`, `worker.c:502`. -/
def return400 (rounds : ℕ) (request : HttpT) (path : Option StringT) (description : String) :
    Outcome Effect :=
  returnPage request 400 (PageT.create400 rounds (StringT.fromBuffer (ascii description)))
    (.ok path)

/-- `worker_return417`, `worker.c:535`. -/
def return417 (rounds : ℕ) (request : HttpT) (path : Option StringT) : Outcome Effect :=
  returnPage request 417 (PageT.create417 rounds) (.ok path)

/-- `worker_return413`, `worker.c:569`. -/
def return413 (rounds : ℕ) (request : HttpT) (path : Option StringT) : Outcome Effect :=
  returnPage request 413 (PageT.create413 rounds) (.ok path)

/-- The response with a file, `worker.c:607–632`: the parts that read the file and its type. -/
def fileResponse (request : HttpT) (fileContent : StringT) (mimeType : Option StringT) :
    Checked (List UInt8 × HttpT) := do
  let response := HttpT.create.setResponseCode 200
  let response := response.setVersion (some (StringT.fromBuffer (ascii "1.1")))
  let response ← response.setBody (some fileContent)
  -- Default to text/plain if no type was found
  let mimeType := mimeType.getD (StringT.fromBuffer (ascii "text/plain"))
  let response ← response.setHeader (some (StringT.fromBuffer (ascii "Content-Type")))
    (some mimeType)
  let response := if request.method = .head then { response with body := none } else response
  let (responseString, response) ← response.toResponseString
  return (← deref responseString.buffer, response)

/-- `worker_return200`, `worker.c:603`. -/
def return200 (context : Context) (rounds : ℕ) (request : HttpT) (resolvedPath : StringT) :
    Outcome Effect :=
  attempt (Resources.loadFile context.openFile resolvedPath) fun
    | none => return500 rounds request "Unable to access requested file"
    | some fileContent =>
      attempt (do
        let mimeType ← Resources.getMIMEType resolvedPath
        fileResponse request fileContent mimeType) fun (buffer, response) ↦
      emit (.response 200 (HttpT.connectionWrite buffer)) <|
      attempt (requestPath request) fun _ ↦
      attempt response.free fun _ ↦ done

/-! ### CGI -/

/-- Set one variable of an environment. -/
def setVariable (environment : HashTableT (Option StringT)) (key : String) (value : StringT) :
    Checked (HashTableT (Option StringT)) := do
  let (_, environment) ← environment.setValue (StringT.fromBuffer (ascii key)) (some value)
  return environment

/-- Set one variable unless there is no value for it. -/
def setVariableIf (environment : HashTableT (Option StringT)) (key : String) :
    Option StringT → Checked (HashTableT (Option StringT))
  | none => .ok environment
  | some value => setVariable environment key value

/-- The text of the method, `worker.c:379–383`. -/
def environmentMethod : HttpMethod → Option StringT
  | .get => some (StringT.fromBuffer (ascii "GET"))
  | .post => some (StringT.fromBuffer (ascii "POST"))
  | _ => none

/-- `worker_createEnvironment`, `worker.c:367`; the variables and the request with its table. -/
def createEnvironment (context : Context) (request : HttpT) (rootDirectory resolvedPath : StringT) :
    Checked (HashTableT (Option StringT) × HttpT) := do
  let environment ← setVariable HashTableT.create "HTTPS" (StringT.fromBuffer (ascii "off"))
  let environment ← setVariable environment "SERVER_SOFTWARE" (StringT.fromBuffer (ascii "WSIC"))
  let environment ← setVariable environment "REMOTE_ADDR" context.sourceAddress.copy
  let environment ← setVariable environment "REMOTE_PORT"
    (StringT.fromInt context.sourcePort.toNat)
  let environment ← setVariableIf environment "REQUEST_METHOD" (environmentMethod request.method)
  let (cookie, request) ← request.getHeader (StringT.fromBuffer (ascii "Cookie"))
  let environment ← setVariableIf environment "HTTP_COOKIE" (cookie.map StringT.copy)
  let (referer, request) ← request.getHeader (StringT.fromBuffer (ascii "Referer"))
  let environment ← setVariableIf environment "HTTP_REFERER" (referer.map StringT.copy)
  let (userAgent, request) ← request.getHeader (StringT.fromBuffer (ascii "User-Agent"))
  let environment ← setVariableIf environment "HTTP_USER_AGENT" (userAgent.map StringT.copy)
  let url ← deref request.url
  let environment ← setVariableIf environment "HTTP_HOST" (url.domainName.map StringT.copy)
  let environment ← setVariableIf environment "SERVER_NAME" (url.domainName.map StringT.copy)
  let environment ← setVariableIf environment "SERVER_PORT"
    (if url.port ≠ 0 then some (StringT.fromInt url.port.toNat) else none)
  let environment ← setVariableIf environment "REQUEST_URI" (url.path.map StringT.copy)
  let environment ← setVariable environment "DOCUMENT_ROOT" rootDirectory.copy
  let environment ← setVariable environment "SCRIPT_FILENAME" resolvedPath.copy
  let relativePath ← Path.relativeTo context.fs resolvedPath rootDirectory
  let environment ← setVariableIf environment "SCRIPT_NAME" relativePath
  let environment ← setVariableIf environment "PATH" (context.systemPath.map StringT.fromBuffer)
  return (environment, request)

/-- `cgi_write`, `cgi.c:191`, as the write number `i` to the process. -/
def cgiWrite (script : Script) (i : ℕ) (bytes : List UInt8) : Outcome Effect → Outcome Effect :=
  emit (.stdin (bytes.take (script.accepts i)))

/-- `cgi_flushStdin`, `cgi.c:204`: a NUL is written before the pipe is closed. -/
def cgiFlushStdin (script : Script) (i : ℕ) (next : Outcome Effect) : Outcome Effect :=
  cgiWrite script i [0] (emit .closeStdin next)

/-- `cgi_read`, `cgi.c:131`, on the bytes of each read. -/
def cgiRead (script : Script) : Option StringT :=
  script.output.map (·.foldl StringT.appendBufferWithLength StringT.create)

/-- The end of `worker_returnCGI`, `worker.c:668–694`. -/
def answerCGI (context : Context) (rounds : ℕ) (request : HttpT) : Outcome Effect :=
  match (cgiRead context.script).bind StringT.buffer with
  | none => return500 rounds request "Unable to build response."
  | some buffer =>
    emit (.response 0 (HttpT.connectionWrite buffer)) <|
    attempt (requestPath request) fun _ ↦ done

/-- The variables are freed in the worker, `worker.c:649–654`. -/
def freeEnvironment (environment : HashTableT (Option StringT)) : Checked Unit := do
  let (visited, _) ← environment.drain
  UrlT.freeValues visited

/-- `worker_returnCGI`, `worker.c:642`. A process that was not spawned is followed all the same. -/
def returnCGI (context : Context) (rounds : ℕ) (request : HttpT)
    (resolvedPath rootDirectory : StringT) (body : Option StringT) : Outcome Effect :=
  attempt (createEnvironment context request rootDirectory resolvedPath)
    fun (environment, request) ↦
  attempt resolvedPath.cstr fun command ↦
  if context.script.spawns = false then ⟨[], some .nullPointer⟩
  else
    emit (.spawn command environment) <|
    attempt (freeEnvironment environment) fun _ ↦
    match body with
    | some body =>
      cgiWrite context.script 0 body.content <|
      cgiFlushStdin context.script 1 <| answerCGI context rounds request
    | none => cgiFlushStdin context.script 0 <| answerCGI context rounds request

/-! ### The connection -/

section Handling

variable {σ : Type} (context : Context) (reader : Reader σ)

/-- The end of every answer, `http_free(request)`. -/
def freeRequest (request : HttpT) : Outcome Effect := attempt request.free fun _ ↦ done

/-- The loop over the header, `worker.c:127–168`, for a bounded number of lines: whether all lines
were parsed, the request and the connection behind it. The limit of a line is a `size_t`. -/
def readHeader : ℕ → ℕ → ℕ → HttpT → σ → Checked (Bool × HttpT × σ)
  | 0, _, _, _, _ => .error .nonTermination
  | rounds + 1, line, headerSize, request, socket =>
    let maxBytes := (requestMaxHeaderSize + 2 ^ 64 - headerSize) % 2 ^ 64
    match reader.readLine socket maxBytes with
    | (none, socket) => .ok (true, request, socket)
    | (some currentLine, socket) =>
      if currentLine.size = 0 then .ok (true, request, socket)
      else do
        let (parsed, request) ←
          if line = 0 then request.parseRequestLine currentLine else request.parseHeader currentLine
        if parsed then
          readHeader rounds (line + 1) (headerSize + currentLine.size) request socket
        else return (false, request, socket)

/-- The redirect to the TLS server, `worker.c:225–247`. -/
def redirectResponse (url : UrlT) (httpsConfig : SiteT) : Checked (List UInt8 × UrlT × HttpT) := do
  let response := HttpT.create.setResponseCode 301
  let response := response.setVersion (some (StringT.fromBuffer (ascii "1.1")))
  let response ← response.setHeader (some (StringT.fromBuffer (ascii "Vary")))
    (some (StringT.fromBuffer (ascii "Upgrade-Insecure-Requests")))
  let (text, url) ← location url httpsConfig.port
  let response ← response.setHeader (some (StringT.fromBuffer (ascii "Location"))) (some text)
  let (responseString, response) ← response.toResponseString
  return (← deref responseString.buffer, url, response)

/-- The answer with a redirect, `worker.c:225–247`. -/
def redirect (request : HttpT) (url : UrlT) (httpsConfig : SiteT) : Outcome Effect :=
  attempt (redirectResponse url httpsConfig) fun (buffer, url, response) ↦
  emit (.response 301 (HttpT.connectionWrite buffer)) <|
  (freeRequest { request with url := some url }).andThen <|
  attempt response.free fun _ ↦ done

/-- The checks of the length and the reading of the body, `worker.c:305–345`. -/
def answerScript (rounds : ℕ) (request : HttpT) (path rootDirectory resolvedPath : StringT)
    (socket : σ) (expects : Option StringT) : Option StringT → Outcome Effect
  | none => returnCGI context rounds request resolvedPath rootDirectory none
  | some contentLengthString =>
    attempt contentLengthString.cstr fun digits ↦
    let contentLength := atoi digits
    if contentLength > requestMaxBodySize then
      if expects.isSome then return417 rounds request (some path)
      else return413 rounds request (some path)
    else if contentLength = 0 then
      if expects.isSome then return417 rounds request (some path)
      else return400 rounds request (some path) "Empty body when headers specified content length"
    else
      match (reader.read socket (contentLength % 2 ^ 64).toNat).1 with
      | none => return400 rounds request (some path) "Request timed out"
      | some body => returnCGI context rounds request resolvedPath rootDirectory (some body)

/-- The request for a script, `worker.c:293–345`: the body is read if there is one. -/
def serveScript (rounds : ℕ) (request : HttpT) (path rootDirectory resolvedPath : StringT)
    (socket : σ) : Outcome Effect :=
  attempt (request.getHeader (StringT.fromBuffer (ascii "Expect"))) fun (expects, request) ↦
  attempt (request.getHeader (StringT.fromBuffer (ascii "Content-Length")))
    fun (contentLengthString, request) ↦
  (answerScript context reader rounds request path rootDirectory resolvedPath socket expects
    contentLengthString).andThen (freeRequest request)

/-- The answer to a request whose path is resolved, `worker.c:256–260` and `worker.c:292–364`. -/
def answer (rounds : ℕ) (request : HttpT) (path rootDirectory : StringT) (socket : σ) :
    Reply → Outcome Effect
  | .notFound => (return404 rounds request path).andThen (freeRequest request)
  | .badRequest =>
    (return400 rounds request (some path) "Method not supported").andThen (freeRequest request)
  | .file resolvedPath =>
    (return200 context rounds request resolvedPath).andThen (freeRequest request)
  | .cgi resolvedPath =>
    serveScript context reader rounds request path rootDirectory resolvedPath socket

/-- The resolution of the path and the answer, `worker.c:254–364`. -/
def serveFile (rounds : ℕ) (request : HttpT) (url : UrlT) (serverConfig : SiteT) (socket : σ) :
    Outcome Effect :=
  attempt (do
    let path ← deref url.path
    let rootDirectory ← deref serverConfig.rootDirectory
    let (reply, _) ← handleRequest context.fs ⟨rootDirectory, serverConfig.directoryIndex⟩
      request.method path
    return (path, rootDirectory, reply)) fun (path, rootDirectory, reply) ↦
  answer context reader rounds request path rootDirectory socket reply

/-- The wish for an upgrade, `worker.c:216`: the value is `1`, and the site has no TLS. -/
def wantsUpgrade (upgradeInsecureRequests : Option StringT) (serverConfig : SiteT) : Checked Bool :=
  match upgradeInsecureRequests with
  | none => .ok false
  | some value => return (← value.equalsBuffer (ascii "1")) && !serverConfig.sslContext

/-- The request on the right transport, `worker.c:212–364`: it is redirected if it wishes so and
there is a server with TLS. -/
def serveSite (rounds : ℕ) (request : HttpT) (url : UrlT) (serverConfig : SiteT)
    (sites : ListT SiteT) (socket : σ) : Outcome Effect :=
  attempt (request.getHeader (StringT.fromBuffer (ascii "Upgrade-Insecure-Requests")))
    fun (upgradeInsecureRequests, request) ↦
  attempt (wantsUpgrade upgradeInsecureRequests serverConfig) fun
    | false => serveFile context reader rounds request url serverConfig socket
    | true =>
      attempt (Config.getServerConfigByHTTPSDomain sites url.domainName) fun (httpsConfig, _) ↦
      match httpsConfig with
      | some httpsConfig => redirect request url httpsConfig
      | none => serveFile context reader rounds request url serverConfig socket

/-- The request with a URL, `worker.c:185–364`. -/
def serve (rounds : ℕ) (request : HttpT) (url : UrlT) (socket : σ) : Outcome Effect :=
  attempt (Config.getServerConfigByDomain context.sites url.domainName url.port)
    fun (serverConfig, sites) ↦
  match serverConfig with
  | none => (return500 rounds request "The requested domain is not served by this server").andThen
      (freeRequest request)
  | some serverConfig =>
    -- Ensure that the same transport is used
    if !context.ssl && serverConfig.sslContext then
      (return400 rounds request url.path "Got HTTP request on HTTPS port").andThen
        (freeRequest request)
    else if context.ssl && !serverConfig.sslContext then
      (return400 rounds request url.path "Got HTTPS request on HTTP port").andThen
        (freeRequest request)
    else serveSite context reader rounds request url serverConfig sites socket

/-- `worker_handleConnection`, `worker.c:119`; the templates of a page are resolved for a bounded
number of rounds. -/
def handleConnection (rounds : ℕ) (socket : σ) : Outcome Effect :=
  attempt (readHeader reader (requestMaxHeaderSize + 1) 0 0 HttpT.create socket)
    fun (parsed, request, socket) ↦
  if parsed = false then
    (return400 rounds request none "Bad header received").andThen (freeRequest request)
  else
    attempt request.parseHost fun (parsedHost, request) ↦
    if parsedHost = false then
      (return400 rounds request none "Bad header received").andThen (freeRequest request)
    else
      match request.url with
      | none => (return400 rounds request none "No header received").andThen (freeRequest request)
      | some url => serve context reader rounds request url socket

end Handling

/-- A connection without TLS. -/
def plainReader (traffic : Traffic) : Reader SocketT :=
  ⟨Connection.readLine traffic, Connection.read traffic⟩

end Worker
end Wsic
