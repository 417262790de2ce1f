import Wsic.Connection.Lines
import Wsic.String.Decimal
import Wsic.Worker.Transport

/-!
# The body of a script

A request for a script with a `Content-Length`, on its way from the stream of the connection to
the input of the process: the lines of the header, `src/worker/worker.c:127–168`, the body,
`worker.c:297–345`, and `cgi_write` and `cgi_flushStdin`, `src/cgi/cgi.c:191–210`. The script is
given all bytes of the body and one more.
-/

open CMemory Effects Effects.Outcome Wsic.Connection

namespace Wsic.Worker

/-! ### The end of the header -/

section Header

variable {σ : Type}

/-- Where the loop over the header leaves the connection when it meets the empty line; nothing
when it stops for the lack of a line. -/
def headerEnd (reader : Reader σ) : ℕ → ℕ → σ → Option σ
  | 0, _, _ => none
  | rounds + 1, headerSize, socket =>
    match reader.readLine socket ((requestMaxHeaderSize + 2 ^ 64 - headerSize) % 2 ^ 64) with
    | (none, _) => none
    | (some line, socket) =>
      if line.size = 0 then some socket else headerEnd reader rounds (headerSize + line.size) socket

/-- The bytes of a header: lines up to the first one of which nothing is left without the blanks
at its end. -/
inductive IsHeader : List UInt8 → Prop
  | blank {line : List UInt8} (h : 10 ∉ line) (hblank : ∀ c ∈ line, StringT.isTrimmed c = true) :
      IsHeader (line ++ [10])
  | line {line header : List UInt8} (h : 10 ∉ line) (htext : ∃ c ∈ line, ¬ StringT.isTrimmed c)
      (hheader : IsHeader header) : IsHeader (line ++ [10] ++ header)

/-- A line with its newline is trimmed to nothing when it is blank. -/
private theorem rdropWhile_eq_nil_iff (line : List UInt8) :
    (line ++ [10]).rdropWhile StringT.isTrimmed = [] ↔
      ∀ c ∈ line, StringT.isTrimmed c = true := by
  rw [List.rdropWhile_eq_nil_iff]
  constructor
  · exact fun h c hc ↦ h c (List.mem_append_left _ hc)
  · intro h c hc
    rcases List.mem_append.mp hc with hc | hc
    · exact h c hc
    · rw [List.mem_singleton.mp hc]
      decide

/-- A call that returns a line takes it off the stream. -/
private theorem readLine_of_line {traffic : Traffic} {socket socket' : SocketT} {maxBytes : ℕ}
    {result : StringT} (hread : readLine traffic socket maxBytes = (some result, socket'))
    {line rest : List UInt8} (hline : 10 ∉ line)
    (hunread : unread traffic socket = line ++ [10] ++ rest) :
    unread traffic socket' = rest ∧
      (result.size = 0 ↔ ∀ c ∈ line, StringT.isTrimmed c = true) := by
  have haccept := @acceptLine_readLine traffic maxBytes socket
  rw [hread, hunread] at haccept
  obtain ⟨body, hbody, hsplit, hcontent⟩ := acceptLine_some_eq_some haccept
  rw [List.append_assoc, List.append_assoc] at hsplit
  obtain ⟨rfl, hrest⟩ := append_cons_unique hline hbody hsplit
  refine ⟨hrest.symm, ?_⟩
  rw [← StringT.length_content, hcontent, List.length_eq_zero_iff, rdropWhile_eq_nil_iff]

/-- A header that is met up to its empty line is taken off the stream as a whole. -/
theorem unread_headerEnd {traffic : Traffic} {rounds headerSize : ℕ} {socket socket' : SocketT}
    (h : headerEnd (plainReader traffic) rounds headerSize socket = some socket')
    {header rest : List UInt8} (hheader : IsHeader header)
    (hunread : unread traffic socket = header ++ rest) : unread traffic socket' = rest := by
  induction rounds generalizing headerSize socket header with
  | zero => cases h
  | succ rounds ih =>
    rw [headerEnd] at h
    split at h
    · cases h
    · next result socket₁ hread =>
      cases hheader with
      | blank hline hblank =>
        obtain ⟨hrest, hsize⟩ := readLine_of_line hread hline hunread
        rw [if_pos (hsize.mpr hblank)] at h
        cases h
        exact hrest
      | line hline htext hheader =>
        rw [List.append_assoc] at hunread
        obtain ⟨hrest, hsize⟩ := readLine_of_line hread hline hunread
        obtain ⟨c, hc, hcharacter⟩ := htext
        rw [if_neg (fun hzero ↦ hcharacter (hsize.mp hzero c hc))] at h
        exact ih h hheader hrest

end Header

/-! ### From the stream to the process -/

section Stream

variable [FreshBytes] {context : Context} {sites : List SiteT} {traffic : Traffic}
  {socket : SocketT}

/-- A request for a script with a body: the stream starts with a header that is read up to its
empty line, the body and a rest. The request has a server of the right transport, is not redirected
and finds a regular executable file, its `Content-Length` is a numeral of the number of bytes of
the body, which is allowed, and the body has arrived in time. With TLS the same loops run over the
decrypted stream. -/
structure ScriptRequest (context : Context) (sites : List SiteT) (traffic : Traffic)
    (socket : SocketT) where
  header : List UInt8
  body : List UInt8
  rest : List UInt8
  request : HttpT
  url : UrlT
  path : StringT
  bodySocket : SocketT
  site : SiteT
  server : Server
  resolved : CanonicalPath
  contentLength : StringT
  digits : List UInt8
  isHeader : IsHeader header
  stream_eq : unread traffic socket = header ++ (body ++ rest)
  headerEnd_eq : headerEnd (plainReader traffic) (requestMaxHeaderSize + 1) 0 socket =
    some bodySocket
  parsed : Parsed (plainReader traffic) socket request url path bodySocket
  holds : context.sites.Holds sites
  serves : Serves context sites url site
  stays : Stays sites request url site
  resolvesBy : site.ResolvesBy server
  found : server.found context.fs path = .ok (some resolved)
  regular : context.fs.isRegular resolved.1 = true
  executable : context.fs.isExecutable resolved.1 = true
  contentLength_eq : request.headerValue "Content-Length" = some contentLength
  digits_eq : contentLength.cstr = .ok digits
  denotes : StringT.Denotes digits body.length
  body_pos : 1 ≤ body.length
  body_le : (body.length : Int) ≤ requestMaxBodySize
  available : Available traffic bodySocket body.length

/-- The bytes that are written to a process before its input is closed. -/
def stdinBytes : List Effect → List UInt8
  | [] => []
  | .stdin bytes :: events => bytes ++ stdinBytes events
  | .closeStdin :: _ => []
  | .response _ _ :: events => stdinBytes events
  | .spawn _ _ :: events => stdinBytes events

namespace ScriptRequest

variable (script : ScriptRequest context sites traffic socket)

/-- The script is run with the body. -/
theorem scriptBody_eq : scriptBody (plainReader traffic) script.bodySocket
    (script.request.headerValue "Content-Length") =
      some (some (StringT.fromBufferWithLength script.body)) := by
  have hmax := script.body_le
  have hpos := script.body_pos
  unfold requestMaxBodySize at hmax
  have hatoi : atoi script.digits = script.body.length :=
    StringT.atoi_of_denotes script.denotes (by omega)
  have hread : ((plainReader traffic).read script.bodySocket script.body.length).1 =
      some (StringT.fromBufferWithLength script.body) := by
    have hunread := unread_headerEnd script.headerEnd_eq script.isHeader script.stream_eq
    have hread := read_of_available hpos script.available
    rwa [hunread, List.take_left] at hread
  have hnat : ((script.body.length : Int) % 2 ^ 64).toNat = script.body.length := by omega
  rw [script.contentLength_eq, scriptBody, script.digits_eq]
  dsimp only
  rw [hatoi, if_neg (by unfold requestMaxBodySize; omega), hnat, hread]
  rfl

/-- What is done for the request. -/
theorem events_handleConnection : ∃ environment request', ∀ rounds,
    (handleConnection context (plainReader traffic) rounds socket).events =
      if context.script.spawns = false then []
      else .spawn script.resolved.1 environment ::
        (stdinEvents context.script (some (StringT.fromBufferWithLength script.body)) ++
          (answerCGI context rounds request').events) := by
  have hmade : script.request.MadeOf AnyCharacter :=
    script.parsed.madeOf (fun _ _ _ _ _ _ ↦ trivial)
  obtain ⟨request₁, hmade₁, hlooks₁, hserve⟩ := @serve_of_stays _ _ context sites
    (plainReader traffic) script.request script.url script.bodySocket script.site script.serves
    script.stays script.holds hmade
  have hreply : replyTo context.fs request₁.method (some script.resolved) =
      .cgi (StringT.fromBuffer script.resolved.1) := by
    rw [replyTo, Option.elim_some, routeCanonical, route, script.regular, script.executable]
    rfl
  have hbody := script.scriptBody_eq
  rw [← hlooks₁.headerValue] at hbody
  obtain ⟨request₂, hmade₂, hlooks₂, hscript⟩ := serveScript_of_body context script.path
    (StringT.fromBuffer script.server.root.1) (StringT.fromBuffer script.resolved.1) hmade₁ hbody
  have hurl : request₂.url = some script.url :=
    hlooks₂.url.trans (hlooks₁.url.trans script.parsed.url_eq)
  obtain ⟨environment, request₃, hevents⟩ := events_returnCGI context hmade₂ hurl
    script.server.root script.resolved (some (StringT.fromBufferWithLength script.body))
  refine ⟨environment, request₃, fun rounds ↦ ?_⟩
  rw [script.parsed.handleConnection_eq, hserve,
    serveFile_of_found rounds script.resolvesBy script.parsed.path_eq script.found, hreply, answer,
    hscript, hevents]

/-- The script gets what its input takes of the body, and of a NUL behind it. -/
theorem stdinBytes_eq (rounds : ℕ) :
    stdinBytes (handleConnection context (plainReader traffic) rounds socket).events =
      if context.script.spawns = false then []
      else script.body.take (context.script.accepts 0) ++
        List.take (context.script.accepts 1) [0] := by
  obtain ⟨environment, request', hevents⟩ := script.events_handleConnection
  rw [hevents]
  split
  · rfl
  · simp only [stdinEvents, List.cons_append, List.nil_append, stdinBytes, List.append_nil,
      StringT.content_fromBufferWithLength]

end ScriptRequest

omit [FreshBytes] in
/-- What is written of a text and of a NUL behind it is the text. -/
theorem take_append_zero_eq_iff {body : List UInt8} (hbody : 1 ≤ body.length) (first second : ℕ) :
    body.take first ++ List.take second [0] = body ↔
      body.length ≤ first ∧ second = 0 ∨
      first + 1 = body.length ∧ 0 < second ∧ body.getLast? = some 0 := by
  cases second with
  | zero =>
    rw [List.take_zero, List.append_nil, List.take_eq_self_iff]
    simp
  | succ second =>
    rw [List.take_succ_cons, List.take_nil]
    constructor
    · intro h
      have hlength := congrArg List.length h
      rw [List.length_append, List.length_take, List.length_singleton] at hlength
      refine .inr ⟨by omega, Nat.succ_pos second, ?_⟩
      rw [← h, List.getLast?_concat]
    · rintro (⟨-, hzero⟩ | ⟨hfirst, -, hlast⟩)
      · cases hzero
      · rw [List.getLast?_eq_some_iff] at hlast
        obtain ⟨init, rfl⟩ := hlast
        rw [List.length_append, List.length_singleton] at hfirst
        rw [Nat.add_right_cancel hfirst, List.take_left]

/-- A script gets exactly the body when it is spawned and either takes all of the body and then not
the NUL, or misses the last byte, and this is the NUL that it is given behind it. -/
theorem stdinBytes_eq_body_iff (script : ScriptRequest context sites traffic socket) (rounds : ℕ) :
    stdinBytes (handleConnection context (plainReader traffic) rounds socket).events =
        script.body ↔
      context.script.spawns = true ∧
        (script.body.length ≤ context.script.accepts 0 ∧ context.script.accepts 1 = 0 ∨
          context.script.accepts 0 + 1 = script.body.length ∧ 0 < context.script.accepts 1 ∧
            script.body.getLast? = some 0) := by
  rw [script.stdinBytes_eq]
  cases context.script.spawns with
  | false =>
    rw [if_pos rfl]
    refine iff_of_false ?_ (fun h ↦ Bool.false_ne_true h.1)
    intro hnil
    exact absurd script.body_pos (by rw [← hnil]; decide)
  | true =>
    rw [if_neg (by decide), take_append_zero_eq_iff script.body_pos, and_iff_right rfl]

end Stream

/-! ### A form -/

/-- The worker of `emptyFileContext`, where the file is a script. -/
def formContext (script : Script) : Context :=
  { emptyFileContext with
    fs := ⟨emptyFileContext.fs.realpath, fun _ ↦ true, fun _ ↦ true⟩
    script := script }

/-- The header of a form with two bytes. -/
def formHeader : List UInt8 :=
  ascii "POST /e HTTP/1.1\r" ++ [10] ++ (ascii "Host: a\r" ++ [10] ++
    (ascii "Content-Length: 2\r" ++ [10] ++ (ascii "\r" ++ [10])))

/-- The whole form has arrived. -/
def formTraffic : Traffic := ⟨formHeader ++ ascii "hi", fun _ ↦ .ready 50⟩

theorem isHeader_formHeader : IsHeader formHeader := by
  refine .line (by decide) ⟨80, by decide, by decide⟩ ?_
  refine .line (by decide) ⟨72, by decide, by decide⟩ ?_
  refine .line (by decide) ⟨67, by decide, by decide⟩ ?_
  exact .blank (by decide) (by decide +kernel)

/-- The form is a request for a script, however the script behaves. -/
theorem exists_formRequest (script : Script) :
    ∃ form : @ScriptRequest FreshBytes.zero (formContext script) [plainSite] formTraffic ⟨0, 0⟩,
      @ScriptRequest.body FreshBytes.zero _ _ _ _ form = ascii "hi" := by
  let _ := FreshBytes.zero
  have hdigest : digest (plainReader formTraffic) ⟨0, 0⟩ =
      .ok ⟨true, true, .post, some (some (StringT.fromBuffer (ascii "a")), 80,
        some (StringT.fromBuffer (ascii "/e"))), none, some (StringT.fromBuffer (ascii "2")),
        ⟨48, 4⟩⟩ := by decide +kernel
  have hend : headerEnd (plainReader formTraffic) (requestMaxHeaderSize + 1) 0 ⟨0, 0⟩ =
      some ⟨48, 4⟩ := by decide +kernel
  obtain ⟨request, url, hparsed, hmethod, hname, hport, hupgrade, hlength⟩ := exists_parsed hdigest
  have hserves : Serves (formContext script) [plainSite] url plainSite := by
    refine ⟨?_, rfl⟩
    rw [hname, hport]
    rfl
  have hstays : Stays [plainSite] request url plainSite := by
    intro hwants
    rw [Upgrades, hupgrade] at hwants
    cases hwants
  have hfound : plainServer.found (formContext script).fs (StringT.fromBuffer (ascii "/e")) =
      .ok (some ⟨ascii "/w/e", by decide⟩) := by
    change plainServer.found emptyFileContext.fs (StringT.fromBuffer (ascii "/e")) = _
    decide +kernel
  exact ⟨{
    header := formHeader
    body := ascii "hi"
    rest := []
    request := request
    url := url
    path := StringT.fromBuffer (ascii "/e")
    bodySocket := ⟨48, 4⟩
    site := plainSite
    server := plainServer
    resolved := ⟨ascii "/w/e", by decide⟩
    contentLength := StringT.fromBuffer (ascii "2")
    digits := ascii "2"
    isHeader := isHeader_formHeader
    stream_eq := by decide
    headerEnd_eq := hend
    parsed := hparsed
    holds := emptyFileContext_holds
    serves := hserves
    stays := hstays
    resolvesBy := ⟨rfl, rfl⟩
    found := hfound
    regular := rfl
    executable := rfl
    contentLength_eq := hlength
    digits_eq := by decide
    denotes := StringT.decimal_denotes 2
    body_pos := by decide
    body_le := by decide
    available := ⟨0, by decide, fun _ hj ↦ absurd hj (Nat.not_lt_zero _), 50, rfl, by decide⟩ },
    rfl⟩

/-- A script whose input takes everything. -/
def formScript : Script := ⟨true, fun _ ↦ 65536, some [ascii "ok"]⟩

/-- It gets a NUL behind the form. -/
theorem form_followed_by_zero :
    ∃ form : @ScriptRequest FreshBytes.zero (formContext formScript) [plainSite] formTraffic
        ⟨0, 0⟩, ∀ rounds,
      stdinBytes (@handleConnection FreshBytes.zero _ (formContext formScript)
        (plainReader formTraffic) rounds ⟨0, 0⟩).events = ascii "hi" ++ [0] ∧
      ascii "hi" ++ [0] ≠ @ScriptRequest.body FreshBytes.zero _ _ _ _ form := by
  let _ := FreshBytes.zero
  obtain ⟨form, hbody⟩ := exists_formRequest formScript
  refine ⟨form, fun rounds ↦ ⟨?_, ?_⟩⟩
  · rw [form.stdinBytes_eq, hbody]
    rfl
  · rw [hbody]
    decide

/-- A script that closes its input behind the form. -/
def closingScript : Script := ⟨true, fun i ↦ if i = 0 then 65536 else 0, some [ascii "ok"]⟩

/-- It gets the form. -/
theorem stdinBytes_eq_body_iff_closing :
    ∃ form : @ScriptRequest FreshBytes.zero (formContext closingScript) [plainSite] formTraffic
        ⟨0, 0⟩, ∀ rounds,
      stdinBytes (@handleConnection FreshBytes.zero _ (formContext closingScript)
        (plainReader formTraffic) rounds ⟨0, 0⟩).events =
          @ScriptRequest.body FreshBytes.zero _ _ _ _ form := by
  let _ := FreshBytes.zero
  obtain ⟨form, hbody⟩ := exists_formRequest closingScript
  refine ⟨form, fun rounds ↦ ?_⟩
  rw [stdinBytes_eq_body_iff, hbody]
  exact ⟨rfl, .inl ⟨by decide, rfl⟩⟩

end Wsic.Worker
