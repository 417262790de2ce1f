import Wsic.Worker.Redirect
import Wsic.Worker.Scripts

/-!
# One response, on the right transport

`worker_handleConnection`, `src/worker/worker.c:119`, for a request whose header was parsed: which
events it causes on which transport, and the requests that it leaves without an answer.
-/

open CMemory Effects Effects.Outcome

namespace Wsic

/-! ### Servers of the configuration -/

namespace Config

/-- The first server that meets the condition. -/
def lookup (isMatch : SiteT → Checked Bool) : List SiteT → Checked (Option SiteT)
  | [] => .ok none
  | site :: sites => do
    if ← isMatch site then return some site else lookup isMatch sites

/-- The loop visits the servers in order, whatever the cursor of the list. -/
private theorem findLoop_eq (isMatch : SiteT → Checked Bool) {list : ListT SiteT}
    {sites : List SiteT} (h : list.Holds sites) (rounds i : ℕ) (hi : i + rounds = sites.length)
    (hc : i = 0 ∨ i = list.currentIndex + 1) :
    (∃ fault, lookup isMatch (sites.drop i) = .error fault ∧
      findLoop isMatch rounds i list = .error fault) ∨
    ∃ found list', lookup isMatch (sites.drop i) = .ok found ∧
      findLoop isMatch rounds i list = .ok (found, list') ∧ list'.Holds sites := by
  induction rounds generalizing list i with
  | zero =>
    rw [List.drop_of_length_le (by omega)]
    exact .inr ⟨none, list, rfl, rfl, h⟩
  | succ rounds ih =>
    have hlt : i < sites.length := by omega
    obtain ⟨list', hget, hholds, hcursor⟩ := h.getValue_inOrder hlt hc
    have hrest := ih hholds (i + 1) (by omega) hcursor
    rw [List.drop_eq_getElem_cons hlt, lookup, findLoop, hget, checked_ok_bind]
    dsimp only
    rw [deref_some, checked_ok_bind]
    cases isMatch sites[i] with
    | error fault => exact .inl ⟨fault, rfl, rfl⟩
    | ok found =>
      cases found with
      | true => exact .inr ⟨_, list', rfl, rfl, hholds⟩
      | false => exact hrest

theorem findLoop_cases (isMatch : SiteT → Checked Bool) {list : ListT SiteT} {sites : List SiteT}
    (h : list.Holds sites) :
    (∃ fault, lookup isMatch sites = .error fault ∧
      findLoop isMatch list.length 0 list = .error fault) ∨
    ∃ found list', lookup isMatch sites = .ok found ∧
      findLoop isMatch list.length 0 list = .ok (found, list') ∧ list'.Holds sites := by
  have hloop := findLoop_eq isMatch h list.length 0 (by rw [h.length_eq, Nat.zero_add]) (.inl rfl)
  rwa [List.drop_zero] at hloop

end Config

/-- A server as `config_parseServerTable`, `config.c:134`, makes it: the root directory is a
result of `realpath`, and the index is a list of names. Everything may be missing. -/
structure SiteT.Configured (site : SiteT) : Prop where
  root : ∀ directory, site.rootDirectory = some directory →
    ∃ path : CanonicalPath, directory = StringT.fromBuffer path.1
  index : ∀ list, site.directoryIndex = some list →
    ∃ names, list.Holds names ∧ ∀ name ∈ names, name.buffer ≠ none

/-- The server below whose root directory the requests of this one are resolved. -/
def SiteT.ResolvesBy (site : SiteT) (server : Server) : Prop :=
  site.rootDirectory = some server.rootDirectory ∧ site.directoryIndex = server.directoryIndex

theorem SiteT.Configured.exists_server {site : SiteT} (h : site.Configured) {directory : StringT}
    (hroot : site.rootDirectory = some directory) :
    ∃ server : Server, site.ResolvesBy server ∧ ∀ name ∈ server.names, name.buffer ≠ none := by
  obtain ⟨root, rfl⟩ := h.root directory hroot
  cases hindex : site.directoryIndex with
  | none =>
    exact ⟨Server.ofRoot root, ⟨hroot, hindex⟩, fun _ hname ↦ absurd hname List.not_mem_nil⟩
  | some list =>
    obtain ⟨names, hholds, hnames⟩ := h.index list hindex
    exact ⟨⟨⟨_, some list⟩, root, names, rfl, hholds⟩, ⟨hroot, hindex⟩, hnames⟩

namespace Worker

variable [FreshBytes]

/-- No condition on the characters of a request. -/
def AnyCharacter (_ : UInt8) : Prop := True

/-! ### What a path is answered with -/

omit [FreshBytes] in
private theorem firstIndex_ok (fs : FileSystem) (directory : List UInt8) {names : List StringT}
    (h : ∀ name ∈ names, name.buffer ≠ none) :
    ∃ index, firstIndex fs directory names = .ok index := by
  induction names with
  | nil => exact ⟨none, rfl⟩
  | cons name names ih =>
    have hcstr : name.cstr = .ok name.text := HttpT.readsAs_text (h name List.mem_cons_self)
    rw [firstIndex, hcstr, checked_ok_bind]
    split
    · exact ⟨_, rfl⟩
    · exact ih (fun name hname ↦ h name (List.mem_cons_of_mem _ hname))

omit [FreshBytes] in
theorem found_ok (server : Server) (h : ∀ name ∈ server.names, name.buffer ≠ none)
    (fs : FileSystem) {path : StringT} {text : List UInt8} (hpath : path.cstr = .ok text) :
    ∃ found, server.found fs path = .ok found := by
  rw [Server.found, hpath, checked_ok_bind]
  split
  · exact ⟨none, rfl⟩
  · next resolved _ =>
    split
    · exact ⟨_, rfl⟩
    · obtain ⟨index, hindex⟩ := firstIndex_ok fs resolved.1 h
      rw [hindex]
      exact ⟨_, rfl⟩

/-- The reply to a path that finds this. -/
def replyTo (fs : FileSystem) (method : HttpMethod) (found : Option CanonicalPath) : Reply :=
  found.elim .notFound (routeCanonical fs method)

theorem handleRequest_of_found {server : Server} {fs : FileSystem} {path : StringT}
    {found : Option CanonicalPath} (h : server.found fs path = .ok found) (method : HttpMethod) :
    ∃ config, handleRequest fs server.toServerConfigT method path =
      .ok (replyTo fs method found, config) := by
  have heq := @handleRequest_eq fs _ server method path
  rw [h] at heq
  obtain ⟨_, _, he⟩ | ⟨reply, config, hreply, he⟩ := checked_fst_cases heq
  · cases he
  · cases he
    exact ⟨config, hreply⟩

/-! ### Requests without an answer -/

section Answers

variable {σ : Type} (context : Context) (sites : List SiteT) (reader : Reader σ) (request : HttpT)
  (url : UrlT) (path : StringT) (socket : σ)

/-- The server of the request, when it has the transport of the connection. -/
def Serves (site : SiteT) : Prop :=
  Config.lookup (Config.isDomain url.domainName url.port) sites = .ok (some site) ∧
    site.sslContext = context.ssl

/-- The request asks for an upgrade that the server does not give. -/
def Upgrades (site : SiteT) : Prop :=
  wantsUpgrade (request.headerValue "Upgrade-Insecure-Requests") site = .ok true

/-- The request is not redirected. -/
def Stays (site : SiteT) : Prop := Upgrades request site →
  Config.lookup (Config.isHTTPSDomain url.domainName) sites = .ok none

variable {context sites reader request url path socket}

/-- The request of a server that answers it itself. -/
theorem serveFile_of_found (rounds : ℕ) {site : SiteT} {server : Server}
    (hserver : site.ResolvesBy server) (hpath : url.path = some path)
    {found : Option CanonicalPath} (hfound : server.found context.fs path = .ok found) :
    serveFile context reader rounds request url site socket =
      answer context reader rounds request path (StringT.fromBuffer server.root.1) socket
        (replyTo context.fs request.method found) := by
  obtain ⟨config, hreply⟩ := handleRequest_of_found hfound request.method
  rw [serveFile, hpath, hserver.1, hserver.2, deref_some, checked_ok_bind, deref_some,
    checked_ok_bind, hreply, ← server.rootDirectory_eq]
  rfl

omit [FreshBytes] in
theorem Serves.unique {site site' : SiteT} (h : Serves context sites url site)
    (h' : Serves context sites url site') : site' = site := by
  have heq := h'.1.symm.trans h.1
  cases heq
  rfl

omit [FreshBytes] in
private theorem wantsUpgrade_ok {value : Option StringT} (h : FreshField AnyCharacter value)
    (site : SiteT) : ∃ wants, wantsUpgrade value site = .ok wants := by
  cases value with
  | none => exact ⟨false, rfl⟩
  | some value =>
    obtain ⟨text, htext, -⟩ := (h value rfl).cstr
    rw [wantsUpgrade, StringT.equalsBuffer, htext]
    exact ⟨_, rfl⟩

/-- The right transport. -/
private theorem serve_of_serves {site : SiteT} (hsite : Serves context sites url site)
    (hholds : context.sites.Holds sites) :
    ∃ list, list.Holds sites ∧ ∀ rounds, serve context reader rounds request url socket =
      serveSite context reader rounds request url site list socket := by
  obtain ⟨hlookup, hssl⟩ := hsite
  rcases Config.findLoop_cases (Config.isDomain url.domainName url.port) hholds with
    ⟨fault, herror, -⟩ | ⟨found, list, hfound, hloop, hlist⟩
  · cases herror.symm.trans hlookup
  · cases hfound.symm.trans hlookup
    refine ⟨list, hlist, fun rounds ↦ ?_⟩
    rw [serve, Config.getServerConfigByDomain, hloop, attempt_ok]
    dsimp only
    rw [hssl]
    cases context.ssl <;> rfl

/-- A request that is not redirected. -/
theorem serve_of_stays {site : SiteT} (hsite : Serves context sites url site)
    (hstays : Stays sites request url site) (hholds : context.sites.Holds sites)
    (h : request.MadeOf AnyCharacter) :
    ∃ request', request'.MadeOf AnyCharacter ∧ HttpT.LooksLike request' request ∧ ∀ rounds,
      serve context reader rounds request url socket =
        serveFile context reader rounds request' url site socket := by
  obtain ⟨list, hlist, hserve⟩ := @serve_of_serves _ σ context sites reader request url socket site
    hsite hholds
  obtain ⟨request', hget, hmade, hlooks, htext⟩ := h.getHeader "Upgrade-Insecure-Requests"
  obtain ⟨wants, hwants⟩ := wantsUpgrade_ok htext site
  refine ⟨request', hmade, hlooks, fun rounds ↦ ?_⟩
  rw [hserve, serveSite, hget, attempt_ok]
  dsimp only
  rw [hwants, attempt_ok]
  cases wants with
  | false => rfl
  | true =>
    rcases Config.findLoop_cases (Config.isHTTPSDomain url.domainName) hlist with
      ⟨fault, herror, -⟩ | ⟨found, list', hfound, hloop, -⟩
    · cases herror.symm.trans (hstays hwants)
    · cases hfound.symm.trans (hstays hwants)
      dsimp only
      rw [Config.getServerConfigByHTTPSDomain, hloop, attempt_ok]

variable (context sites request url path)

variable {context sites request url path}

end Answers

/-! ### Connections -/

section Connections

variable {σ : Type}

/-- The header and the `Host` of a connection were parsed into this request, whose path is not
null, and this much of the connection is left. -/
structure Parsed (reader : Reader σ) (socket : σ) (request : HttpT) (url : UrlT) (path : StringT)
    (socket' : σ) : Prop where
  header : ∃ request₀, readHeader reader (requestMaxHeaderSize + 1) 0 0 HttpT.create socket =
    .ok (true, request₀, socket') ∧ request₀.parseHost = .ok (true, request)
  url_eq : request.url = some url
  path_eq : url.path = some path

variable {context : Context} {sites : List SiteT} {reader : Reader σ} {request : HttpT}
  {url : UrlT} {path : StringT} {socket socket' : σ}

theorem Parsed.madeOf {P : UInt8 → Prop} (h : Parsed reader socket request url path socket')
    (hlines : Reader.LinesOf P reader) : request.MadeOf P := by
  obtain ⟨request₀, hread, hhost⟩ := h.header
  exact ((readHeader_madeOf hlines HttpT.madeOf_create (fun _ ↦ rfl) hread).parseHost hhost).1

theorem Parsed.handleConnection_eq (h : Parsed reader socket request url path socket')
    (context : Context) (rounds : ℕ) : handleConnection context reader rounds socket =
      serve context reader rounds request url socket' := by
  obtain ⟨request₀, hread, hhost⟩ := h.header
  rw [handleConnection, hread, attempt_ok]
  dsimp only
  rw [if_neg (by decide), hhost, attempt_ok]
  dsimp only
  rw [if_neg (by decide), h.url_eq]

/-- What tells concrete requests apart: whether their header and host were parsed, parts of the
request, and how far the connection was read. -/
structure Digest where
  parsed : Bool
  parsedHost : Bool
  method : HttpMethod
  url : Option (Option StringT × UInt16 × Option StringT)
  upgrade : Option StringT
  contentLength : Option StringT
  socket : SocketT
deriving DecidableEq

def digest (reader : Reader SocketT) (socket : SocketT) : Checked Digest := do
  let (parsed, request, socket) ←
    readHeader reader (requestMaxHeaderSize + 1) 0 0 HttpT.create socket
  let (parsedHost, request) ← request.parseHost
  return ⟨parsed, parsedHost, request.method,
    request.url.map (fun url ↦ (url.domainName, url.port, url.path)),
    request.headerValue "Upgrade-Insecure-Requests", request.headerValue "Content-Length", socket⟩

/-- The request of a digest. -/
theorem exists_parsed {reader : Reader SocketT} {socket socket' : SocketT} {method : HttpMethod}
    {domainName upgrade contentLength : Option StringT} {port : UInt16}
    (h : digest reader socket = .ok ⟨true, true, method, some (domainName, port, some path),
      upgrade, contentLength, socket'⟩) :
    ∃ request url, Parsed reader socket request url path socket' ∧ request.method = method ∧
      url.domainName = domainName ∧ url.port = port ∧
      request.headerValue "Upgrade-Insecure-Requests" = upgrade ∧
      request.headerValue "Content-Length" = contentLength := by
  obtain ⟨⟨parsed, request₀, socket''⟩, hread, h⟩ := exists_of_bind_eq_ok h
  obtain ⟨⟨parsedHost, request⟩, hhost, h⟩ := exists_of_bind_eq_ok h
  have hfields := Except.ok.inj h
  simp only [Digest.mk.injEq, Option.map_eq_some_iff, Prod.mk.injEq] at hfields
  obtain ⟨rfl, rfl, hmethod, ⟨url, hurl, hname, hport, hpath⟩, hupgrade, hlength, rfl⟩ := hfields
  exact ⟨request, url, ⟨⟨request₀, hread, hhost⟩, hurl, hpath⟩, hmethod, hname, hport, hupgrade,
    hlength⟩

end Connections

/-! ### An empty file -/

/-- The server of the domain `a` on port 80, with the root directory `/w`. -/
def plainSite : SiteT :=
  ⟨some (StringT.fromBuffer (ascii "a")), 80, false, some (StringT.fromBuffer (ascii "/w")), none⟩

/-- A worker of this server; the file `/w/e` is empty. -/
def emptyFileContext : Context where
  sites := match ListT.create.addValue plainSite with
    | .ok sites => sites
    | .error _ => ListT.create
  ssl := false
  sourceAddress := StringT.create
  sourcePort := 0
  fs := ⟨fun path ↦ if path = ascii "/w//e" then some ⟨ascii "/w/e", by decide⟩ else none,
    fun _ ↦ true, fun _ ↦ false⟩
  openFile := fun _ ↦ some (0, [])
  systemPath := none
  script := ⟨false, fun _ ↦ 0, none⟩

omit [FreshBytes] in
theorem emptyFileContext_holds : emptyFileContext.sites.Holds [plainSite] := by
  obtain ⟨list, hadd, hholds, -⟩ := ListT.holds_create.addValue plainSite
  simp only [emptyFileContext, hadd]
  exact hholds

/-- The server that its requests are resolved by. -/
def plainServer : Server := Server.ofRoot ⟨ascii "/w", by decide⟩

end Worker
end Wsic
