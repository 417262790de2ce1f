import Wsic.Http.Response
import Wsic.Connection.Lines
import Wsic.Worker.Answers
import Wsic.Worker.Request

/-!
# Redirects

The answer to a request that asks for an upgrade repeats what the client has sent, without any
escaping. The lines of a request have no newline in them, so none comes into the answer but those
of the code: they end its four lines.
-/

open CMemory Effects Effects.Outcome

namespace Wsic

/-- The condition allows all visible characters of ASCII. -/
def AllowsVisible (P : UInt8 → Prop) : Prop := ∀ c, 33 ≤ c → c ≤ 126 → P c

/-- What is printed so far: not empty, of characters that meet the condition, without NUL. -/
def StringT.PrintsOf (P : UInt8 → Prop) (s : StringT) : Prop :=
  ∃ text, s.Prints text ∧ text ≠ [] ∧ (∀ c ∈ text, P c) ∧ 0 ∉ text

namespace StringT

variable [FreshBytes] {P : UInt8 → Prop} {s : StringT}

theorem PrintsOf.append (h : s.PrintsOf P) {t : StringT} {b : List UInt8} (ht : t.cstr = .ok b)
    (hb : ∀ c ∈ b, P c) : ∃ r, s.append t = .ok r ∧ r.PrintsOf P := by
  obtain ⟨text, hprints, hne, htext, hz⟩ := h
  obtain ⟨r, hr, hprints'⟩ := hprints.append ht
  refine ⟨r, hr, _, hprints', List.append_ne_nil_of_left_ne_nil hne _, ?_, ?_⟩
  · intro c hc
    exact (List.mem_append.mp hc).elim (htext c) (hb c)
  · rw [List.mem_append, not_or]
    exact ⟨hz, zero_notMem_of_cstr ht⟩

theorem PrintsOf.appendText (h : s.PrintsOf P) {t : StringT} (ht : FreshText P t) :
    ∃ r, s.append t = .ok r ∧ r.PrintsOf P := by
  obtain ⟨b, hcstr, hb⟩ := ht.cstr
  exact h.append hcstr hb

theorem PrintsOf.appendChar (h : s.PrintsOf P) (hP : AllowsVisible P) {c : UInt8}
    (hc : 33 ≤ c ∧ c ≤ 126) : (s.appendChar c).PrintsOf P := by
  obtain ⟨text, hprints, hne, htext, hz⟩ := h
  have hc₀ : c ≠ 0 := by
    rintro rfl
    exact absurd hc (by decide)
  refine ⟨_, hprints.appendChar hc₀, List.append_ne_nil_of_left_ne_nil hne _, ?_, ?_⟩
  · intro c' hc'
    rcases List.mem_append.mp hc' with hc' | hc'
    · exact htext c' hc'
    · rw [List.mem_singleton.mp hc']
      exact hP c hc.1 hc.2
  · rw [List.mem_append, not_or, List.mem_singleton]
    exact ⟨hz, hc₀.symm⟩

theorem PrintsOf.appendUnlessNull (h : s.PrintsOf P) {t : Option StringT}
    (ht : FreshField P t) : ∃ r, UrlT.appendUnlessNull s t = .ok r ∧ r.PrintsOf P := by
  cases t with
  | none => exact ⟨s, rfl, h⟩
  | some t => exact h.appendText (ht t rfl)

theorem PrintsOf.appendPort (h : s.PrintsOf P) (hP : AllowsVisible P) (port : UInt16) :
    ∃ r, UrlT.appendPort s port = .ok r ∧ r.PrintsOf P := by
  unfold UrlT.appendPort
  split
  · refine (h.appendChar hP (by decide)).append (cstr_fromInt_natCast port.toNat) ?_
    intro c hc
    obtain ⟨hlow, hhigh⟩ := mem_decimal hc
    exact hP c (UInt8.le_trans (by decide) hlow) (UInt8.le_trans hhigh (by decide))
  · exact ⟨s, rfl, h⟩

end StringT

/-! ### Copies of a URL -/

namespace UrlT

variable {P : UInt8 → Prop}

/-- A URL whose parameters all have a value. -/
structure Complete (P : UInt8 → Prop) (url : UrlT) : Prop where
  domainName : FreshField P url.domainName
  path : FreshField P url.path
  parameters : ∃ m, url.parameters.Represents m ∧
    ∀ e ∈ m.entries, FreshText P e.key ∧ ∃ value, e.value = some value ∧ FreshText P value

private theorem Complete.copyParameter {newUrl url : UrlT} (h : newUrl.Complete P)
    {parameter : Option StringT × Option (Option StringT)} (hkey : FreshField P parameter.1)
    (hvalue : FreshField P parameter.2.join) (hcopy : copyParameter newUrl parameter = .ok url) :
    url.Complete P := by
  obtain ⟨m, hrep, hm⟩ := h.parameters
  obtain ⟨key, hk, hcopy⟩ := exists_of_bind_eq_ok hcopy
  obtain ⟨value, hv, hcopy⟩ := exists_of_bind_eq_ok hcopy
  have hkey := hkey key (deref_eq_ok hk)
  have hvalue := hvalue value (deref_eq_ok hv)
  rw [hkey.copy_eq, hvalue.copy_eq] at hcopy
  obtain ⟨table, hset, hrep'⟩ := setParameter_spec hrep ⟨key, hkey.buffer⟩ (some value)
  rw [hset] at hcopy
  cases hcopy
  refine ⟨h.domainName, h.path, _, hrep', ?_⟩
  intro e he
  rcases KeyedList.mem_set he with rfl | he
  · exact ⟨hkey, value, rfl, hvalue⟩
  · exact hm e he

private theorem Complete.copyParameters {newUrl url : UrlT} (h : newUrl.Complete P)
    {visited : List (Option StringT × Option (Option StringT))}
    (hv : ∀ parameter ∈ visited, FreshField P parameter.1 ∧ FreshField P parameter.2.join)
    (hcopy : visited.foldlM UrlT.copyParameter newUrl = .ok url) : url.Complete P := by
  induction visited generalizing newUrl with
  | nil =>
    cases hcopy
    exact h
  | cons parameter visited ih =>
    rw [List.foldlM_cons] at hcopy
    obtain ⟨next, hnext, hcopy⟩ := exists_of_bind_eq_ok hcopy
    obtain ⟨hkey, hvalue⟩ := hv parameter List.mem_cons_self
    exact ih (h.copyParameter hkey hvalue hnext) (fun p hp ↦ hv p (List.mem_cons_of_mem _ hp))
      hcopy

theorem FreshField.map_copy {s : Option StringT} (h : FreshField P s) :
    FreshField P (s.map StringT.copy) := by
  cases s with
  | none => exact freshField_none
  | some s =>
    rw [Option.map_some, (h s rfl).copy_eq]
    exact h

/-- A copy is made only of complete parameters. -/
theorem MadeOf.copy {url newUrl url' : UrlT} (h : url.MadeOf P)
    (hcopy : url.copy = .ok (newUrl, url')) : newUrl.Complete P := by
  obtain ⟨m, hrep, hm⟩ := h.parameters
  obtain ⟨table, hit, -⟩ := hrep.iterate
  rw [UrlT.copy, hit, checked_ok_bind] at hcopy
  obtain ⟨copied, hfold, hcopy⟩ := exists_of_bind_eq_ok hcopy
  cases hcopy
  have hnew : Complete P { create with
      protocol := url.protocol.map StringT.copy
      domainName := url.domainName.map StringT.copy
      port := url.port
      path := url.path.map StringT.copy } :=
    ⟨FreshField.map_copy h.domainName, FreshField.map_copy h.path, KeyedList.empty,
      HashTableT.represents_create, fun _ he ↦ absurd he List.not_mem_nil⟩
  refine hnew.copyParameters ?_ hfold
  intro parameter hp
  obtain ⟨e, he, rfl⟩ := List.mem_map.mp hp
  exact ⟨(hm e he).1.field, (hm e he).2⟩

/-! ### Printing -/

section Printing

variable [FreshBytes]

private theorem appendParameters_of {result : StringT} (h : result.PrintsOf P)
    (hP : AllowsVisible P) {es : List (HashTableEntryT (Option StringT))}
    (hes : ∀ e ∈ es, FreshText P e.key ∧ ∃ value, e.value = some value ∧ FreshText P value) :
    ∃ r, appendParameters result (es.map (fun e ↦ (some e.key, some e.value))) = .ok r ∧
      r.PrintsOf P := by
  induction es generalizing result with
  | nil => exact ⟨result, rfl, h⟩
  | cons e es ih =>
    obtain ⟨hkey, value, hvalue, htext⟩ := hes e List.mem_cons_self
    obtain ⟨r₁, h₁, hp₁⟩ := h.appendText hkey
    obtain ⟨r₂, h₂, hp₂⟩ := (hp₁.appendChar hP (c := 61) (by decide)).appendText htext
    have hp₃ : (if es.map (fun e ↦ (some e.key, some e.value)) = [] then r₂
        else r₂.appendChar 38).PrintsOf P := by
      split
      · exact hp₂
      · exact hp₂.appendChar hP (by decide)
    obtain ⟨r, hr, hp⟩ := ih hp₃ (fun e he ↦ hes e (List.mem_cons_of_mem _ he))
    refine ⟨r, ?_, hp⟩
    rw [List.map_cons, appendParameters, deref_some, checked_ok_bind, h₁, checked_ok_bind]
    dsimp only [Option.join_some]
    rw [hvalue, deref_some, checked_ok_bind, h₂, checked_ok_bind]
    exact hr

/-- A complete URL with the protocol of a redirect is printed. -/
theorem Complete.toString {url : UrlT} (h : url.Complete P) (hP : AllowsVisible P)
    (hprotocol : url.protocol = some (StringT.fromBuffer (ascii "https"))) :
    ∃ text url', url.toString = .ok (text, url') ∧ text.PrintsOf P ∧ url'.Complete P := by
  obtain ⟨m, hrep, hm⟩ := h.parameters
  obtain ⟨table, hit, hrep'⟩ := hrep.iterate
  have hcreate : StringT.create.Prints [] := ⟨StringT.clean_create, rfl⟩
  have hname : (StringT.fromBuffer (ascii "https")).cstr = .ok (ascii "https") := by decide
  obtain ⟨r₁, h₁, hp₁⟩ := hcreate.append hname
  have hp₁ : (r₁.appendBuffer (ascii "://")).PrintsOf P := by
    have hvisible : ∀ c ∈ [] ++ ascii "https" ++ cString (ascii "://"), 33 ≤ c ∧ c ≤ 126 := by
      decide +kernel
    refine ⟨_, hp₁.appendBuffer _, by decide, ?_, by decide⟩
    exact fun c hc ↦ hP c (hvisible c hc).1 (hvisible c hc).2
  obtain ⟨r₂, h₂, hp₂⟩ := hp₁.appendUnlessNull h.domainName
  obtain ⟨r₃, h₃, hp₃⟩ := hp₂.appendPort hP url.port
  obtain ⟨r₄, h₄, hp₄⟩ := hp₃.appendUnlessNull h.path
  have hquestion : (if url.parameters.getLength > 0 then r₄.appendChar 63 else r₄).PrintsOf P := by
    split
    · exact hp₄.appendChar hP (by decide)
    · exact hp₄
  obtain ⟨r₅, h₅, hp₅⟩ := appendParameters_of hquestion hP hm
  refine ⟨r₅, { url with parameters := table }, ?_, hp₅, h.domainName, h.path, m, hrep', hm⟩
  have hfirst : appendUnlessNull StringT.create (some (StringT.fromBuffer (ascii "https"))) =
      .ok r₁ := h₁
  simp only [UrlT.toString, hprotocol, hfirst, Option.isNone_some, Bool.false_eq_true, if_false, h₂,
    h₃, h₄, hit, h₅, checked_ok_bind]
  rfl

end Printing

theorem Complete.free {url : UrlT} (h : url.Complete P) : url.free = .ok () := by
  obtain ⟨m, hrep, hm⟩ := h.parameters
  apply free_of_hasValues hrep
  intro e he
  obtain ⟨-, value, hvalue, htext⟩ := hm e he
  exact ⟨value, hvalue, htext.buffer⟩

end UrlT

namespace Worker

/-- A URL that can be copied has a location. -/
theorem location_of_copy [FreshBytes] {P : UInt8 → Prop} {url newUrl url' : UrlT}
    (h : url.MadeOf P) (hP : AllowsVisible P) (hcopy : url.copy = .ok (newUrl, url'))
    (port : UInt16) :
    ∃ text, location url port = .ok (text, url') ∧ text.PrintsOf P := by
  have hcomplete := h.copy hcopy
  have hnew : ((newUrl.setProtocol (some (StringT.fromBuffer (ascii "https")))).setPort
      port).Complete P := ⟨hcomplete.domainName, hcomplete.path, hcomplete.parameters⟩
  obtain ⟨text, newUrl', htext, hprints, hprinted⟩ := hnew.toString hP rfl
  refine ⟨text, ?_, hprints⟩
  rw [location, hcopy, checked_ok_bind]
  dsimp only
  rw [htext, checked_ok_bind]
  dsimp only
  rw [hprinted.free]
  rfl

/-! ### The answer -/

/-- The lines of the answer, without their newlines. -/
def redirectLines (location : List UInt8) : List (List UInt8) :=
  [ascii "HTTP/1.1 301 Moved Permanently\r", ascii "Vary: Upgrade-Insecure-Requests\r",
    ascii "Location: " ++ location ++ [13], [13]]

/-- The bytes are the four lines of a redirect, each ended by a newline. -/
def IsRedirect (bytes : List UInt8) : Prop :=
  ∃ location, 10 ∉ location ∧ bytes = (redirectLines location).flatMap (· ++ [10])

theorem IsRedirect.count {bytes : List UInt8} (h : IsRedirect bytes) : bytes.count 10 = 4 := by
  obtain ⟨location, hlocation, rfl⟩ := h
  have hstatus : (ascii "HTTP/1.1 301 Moved Permanently\r").count 10 = 0 := by decide
  have hvary : (ascii "Vary: Upgrade-Insecure-Requests\r").count 10 = 0 := by decide
  have hname : (ascii "Location: ").count 10 = 0 := by decide
  simp [redirectLines, hstatus, hvary, hname, List.count_eq_zero_of_not_mem hlocation]

/-- An event that is no redirect, or one of four lines. -/
def RedirectFits : Effect → Prop
  | .response code bytes => code = 301 → IsRedirect bytes
  | _ => True

private theorem redirectFits_of_follows {reply : Reply} {effect : Effect}
    (h : Follows reply effect) : RedirectFits effect := by
  cases effect with
  | response code bytes =>
    rintro rfl
    cases reply <;> simp [Follows] at h
  | spawn command environment => trivial
  | stdin bytes => trivial
  | closeStdin => trivial

section Handling

/-- The response of a redirect. -/
def redirectMessage (location : List UInt8) : HttpT.Message where
  version := some (ascii "1.1")
  code := 301
  codeText := some (ascii (HttpT.codeText 301))
  headers := (KeyedList.empty.set (ascii "Vary", ascii "Upgrade-Insecure-Requests")).set
    (ascii "Location", location)
  body := none

private theorem entries_redirectMessage (b : List UInt8) : (redirectMessage b).headers.entries =
    [(ascii "Vary", ascii "Upgrade-Insecure-Requests"), (ascii "Location", b)] := by
  change KeyedList.putEntry Prod.fst (ascii "Location", b)
    [(ascii "Vary", ascii "Upgrade-Insecure-Requests")] = _
  rw [KeyedList.putEntry, if_neg (show ascii "Vary" ≠ ascii "Location" by decide)]
  rfl

theorem bytes_redirectMessage (b : List UInt8) :
    (redirectMessage b).bytes = (redirectLines b).flatMap (· ++ [10]) := by
  have hstatus : (redirectMessage b).statusLine =
      ascii "HTTP/1.1 301 Moved Permanently\r" ++ [10] := by
    change HttpT.versionText (some (ascii "1.1")) ++ StringT.decimal 301 ++ [32] ++
      ascii (HttpT.codeText 301) ++ [13, 10] = _
    decide
  have hvary : HttpT.headerLine (ascii "Vary", ascii "Upgrade-Insecure-Requests") =
      ascii "Vary: Upgrade-Insecure-Requests\r" ++ [10] := by decide
  have hheader : HttpT.headerLine (ascii "Location", b) =
      ascii "Location: " ++ b ++ [13] ++ [10] := by
    have hname : ascii "Location" ++ ascii ": " = ascii "Location: " := by decide
    rw [HttpT.headerLine, hname, List.append_assoc _ [13]]
    rfl
  have hbody : (redirectMessage b).body.getD [] = [] := rfl
  rw [HttpT.Message.bytes, hstatus, entries_redirectMessage, hbody, List.append_nil]
  simp only [redirectLines, List.flatMap_cons, List.flatMap_nil, hvary, hheader, List.append_nil,
    List.append_assoc, List.cons_append, List.nil_append]

variable [FreshBytes]

/-- A location without NUL is sent as the third line. -/
theorem redirectResponse_of_location {url url' : UrlT} {httpsConfig : SiteT} {text : StringT}
    (hlocation : location url httpsConfig.port = .ok (text, url')) {b : List UInt8}
    (hb : text.cstr = .ok b) :
    ∃ buffer response, redirectResponse url httpsConfig = .ok (buffer, url', response) ∧
      HttpT.connectionWrite buffer = (redirectLines b).flatMap (· ++ [10]) := by
  have hversion : Option.Rel HttpT.ReadsAs (some (StringT.fromBuffer (ascii "1.1")))
      (some (ascii "1.1")) := .some (by decide)
  have hstart := (HttpT.carries_create.setResponseCode 301).setVersion hversion
  obtain ⟨http₁, h₁, hcarries₁⟩ := hstart.setHeader
    (show HttpT.ReadsAs (StringT.fromBuffer (ascii "Vary")) (ascii "Vary") by decide)
    (show HttpT.ReadsAs (StringT.fromBuffer (ascii "Upgrade-Insecure-Requests"))
      (ascii "Upgrade-Insecure-Requests") by decide)
    (fun _ hm ↦ nomatch hm)
  have hfree : ∀ header ∈ [(ascii "Vary", ascii "Upgrade-Insecure-Requests")],
      HashTableT.hash header.1 = HashTableT.hash (ascii "Location") →
        header.1 = ascii "Location" := by decide
  obtain ⟨http₂, h₂, hcarries₂⟩ := hcarries₁.setHeader
    (show HttpT.ReadsAs (StringT.fromBuffer (ascii "Location")) (ascii "Location") by decide) hb
    hfree
  obtain ⟨printed, http₃, buffer, htext, hbuffer, hsent, -⟩ := hcarries₂.sent
  refine ⟨buffer, http₃, ?_, hsent.trans (bytes_redirectMessage b)⟩
  simp only [redirectResponse, h₁, hlocation, h₂, htext, hbuffer, deref_some, checked_ok_bind]
  rfl

variable {σ : Type} {context : Context} {reader : Reader σ}

/-- A URL that can be copied is sent in a redirect. -/
theorem redirectResponse_of_copy {P : UInt8 → Prop} {url newUrl url' : UrlT} (h : url.MadeOf P)
    (hP : AllowsVisible P) (hcopy : url.copy = .ok (newUrl, url')) (httpsConfig : SiteT) :
    ∃ b buffer response, redirectResponse url httpsConfig = .ok (buffer, url', response) ∧
      (∀ c ∈ b, P c) ∧ HttpT.connectionWrite buffer = (redirectLines b).flatMap (· ++ [10]) := by
  obtain ⟨text, hlocation, b, hprints, hne, hb, hz⟩ := location_of_copy h hP hcopy httpsConfig.port
  obtain ⟨buffer, response, hresponse, hsent⟩ :=
    redirectResponse_of_location hlocation (hprints.cstr hz hne)
  exact ⟨b, buffer, response, hresponse, hb, hsent⟩

/-- A redirect that is sent has copied the URL. -/
theorem copy_of_redirectResponse {url : UrlT} {httpsConfig : SiteT}
    {result : List UInt8 × UrlT × HttpT} (h : redirectResponse url httpsConfig = .ok result) :
    ∃ copied, url.copy = .ok copied := by
  obtain ⟨http, -, h⟩ := exists_of_bind_eq_ok h
  obtain ⟨text, hlocation, -⟩ := exists_of_bind_eq_ok h
  obtain ⟨copied, hcopy, -⟩ := exists_of_bind_eq_ok hlocation
  exact ⟨copied, hcopy⟩

private theorem all_returnPage_fits {code : UInt16} (h : code ≠ 301) (request : HttpT)
    (page : Checked PageT) (loggedPath : Checked (Option StringT)) :
    All RedirectFits (returnPage request code page loggedPath) :=
  all_returnPage (fun _ hcode ↦ absurd hcode h) request page loggedPath

/-- A character that can stand in a line. -/
def InLine (c : UInt8) : Prop := c ≠ 10

private theorem all_redirect {request : HttpT} {url : UrlT} (h : url.MadeOf InLine)
    (httpsConfig : SiteT) : All RedirectFits (redirect request url httpsConfig) := by
  apply all_attempt
  rintro ⟨buffer, url', response⟩ hresponse
  have hfits : IsRedirect (HttpT.connectionWrite buffer) := by
    obtain ⟨⟨newUrl, old⟩, hcopy⟩ := copy_of_redirectResponse hresponse
    have hvisible : AllowsVisible InLine := by
      rintro c hc - rfl
      exact absurd hc (by decide)
    obtain ⟨b, buffer', response', hresponse', hb, hsent⟩ :=
      redirectResponse_of_copy h hvisible hcopy httpsConfig
    rw [hresponse'] at hresponse
    cases hresponse
    exact ⟨b, fun hm ↦ hb 10 hm rfl, hsent⟩
  refine all_emit (fun _ ↦ hfits) ?_
  refine all_andThen (all_of_nil (events_freeRequest _)) ?_
  exact all_attempt (fun _ _ ↦ all_done)

private theorem all_serveFile_fits (rounds : ℕ) (request : HttpT) (url : UrlT)
    (serverConfig : SiteT) (socket : σ) :
    All RedirectFits (serveFile context reader rounds request url serverConfig socket) := by
  apply all_attempt
  rintro ⟨path, rootDirectory, reply⟩ -
  intro effect he
  exact redirectFits_of_follows
    (all_answer rounds request path rootDirectory socket reply effect he)

private theorem all_serve_fits {url : UrlT} (h : url.MadeOf InLine) (rounds : ℕ) (request : HttpT)
    (socket : σ) : All RedirectFits (serve context reader rounds request url socket) := by
  apply all_attempt
  rintro ⟨serverConfig, sites⟩ -
  cases serverConfig with
  | none => exact all_andThen_freeRequest (all_returnPage_fits (by decide) _ _ _) _
  | some serverConfig =>
    dsimp only
    split
    · exact all_andThen_freeRequest (all_returnPage_fits (by decide) _ _ _) _
    · split
      · exact all_andThen_freeRequest (all_returnPage_fits (by decide) _ _ _) _
      · apply all_attempt
        rintro ⟨upgradeInsecureRequests, request⟩ -
        apply all_attempt
        intro wants _
        cases wants with
        | false => exact all_serveFile_fits _ _ _ _ _
        | true =>
          apply all_attempt
          rintro ⟨httpsConfig, _⟩ -
          cases httpsConfig with
          | none => exact all_serveFile_fits _ _ _ _ _
          | some httpsConfig => exact all_redirect h httpsConfig

/-- Whatever the client sends, a redirect has four lines: the status line, the two headers and
the empty line. -/
theorem redirect_lines (context : Context) {reader : Reader σ}
    (hlines : Reader.LinesOf InLine reader) (rounds : ℕ) (socket : σ) {bytes : List UInt8}
    (h : .response 301 bytes ∈ (handleConnection context reader rounds socket).events) :
    (∃ location, 10 ∉ location ∧ bytes = (redirectLines location).flatMap (· ++ [10])) ∧
      bytes.count 10 = 4 := by
  have hall : All RedirectFits (handleConnection context reader rounds socket) := by
    apply all_attempt
    rintro ⟨parsed, request₀, socket'⟩ hread
    dsimp only
    split
    · exact all_andThen_freeRequest (all_returnPage_fits (by decide) _ _ _) _
    · next hparsed =>
      rw [Bool.not_eq_false] at hparsed
      rw [hparsed] at hread
      have hrequest := readHeader_madeOf hlines HttpT.madeOf_create (fun _ ↦ rfl) hread
      apply all_attempt
      rintro ⟨parsedHost, request⟩ hhost
      dsimp only
      split
      · exact all_andThen_freeRequest (all_returnPage_fits (by decide) _ _ _) _
      · next hparsedHost =>
        rw [Bool.not_eq_false] at hparsedHost
        rw [hparsedHost] at hhost
        split
        · exact all_andThen_freeRequest (all_returnPage_fits (by decide) _ _ _) _
        · next url hurl =>
          exact all_serve_fits ((hrequest.parseHost hhost).1.url url hurl) rounds request socket'
  have hredirect := hall _ h rfl
  exact ⟨hredirect, hredirect.count⟩

end Handling

/-- The lines of a connection without TLS have no newline. -/
theorem plainReader_linesOf (traffic : Traffic) :
    Reader.LinesOf InLine (plainReader traffic) := by
  intro socket maxBytes line hread c hc
  have haccept := @Connection.acceptLine_readLine traffic maxBytes socket
  rw [show (Connection.readLine traffic socket maxBytes).1 = some line from hread] at haccept
  obtain ⟨body, hbody, -, hcontent⟩ := Connection.acceptLine_some_eq_some haccept
  rw [hcontent, List.rdropWhile_concat_pos _ _ _ (by decide)] at hc
  rintro rfl
  exact hbody ((List.rdropWhile_prefix _ body).subset hc)

/-- Two servers of the domain `a`, without TLS on port 80 and with TLS on port 443. -/
def twoServers : ListT SiteT :=
  match (do
    let sites ← ListT.create.addValue
      (⟨some (StringT.fromBuffer (ascii "a")), 80, false, none, none⟩ : SiteT)
    sites.addValue ⟨some (StringT.fromBuffer (ascii "a")), 443, true, none, none⟩) with
  | .ok sites => sites
  | .error _ => ListT.create

/-- A worker of the two servers on a connection without TLS; there is no file. -/
def upgradeContext : Context where
  sites := twoServers
  ssl := false
  sourceAddress := StringT.create
  sourcePort := 0
  fs := ⟨fun _ ↦ none, fun _ ↦ false, fun _ ↦ false⟩
  openFile := fun _ ↦ none
  systemPath := none
  script := ⟨false, fun _ ↦ 0, none⟩

/-- A connection over which all bytes have arrived. -/
def arrived (bytes : List UInt8) : Reader SocketT :=
  plainReader ⟨bytes, fun _ ↦ .ready bytes.length⟩

/-- The target `/x?a=b` on the domain `a`. -/
theorem redirect_lines_upgrade : ∃ bytes,
    .response 301 bytes ∈ (@handleConnection FreshBytes.zero _ upgradeContext
      (arrived (ascii ("GET /x?a=b HTTP/1.1\r\nHost: a\r\n" ++
        "Upgrade-Insecure-Requests: 1\r\n\r\n"))) 0 ⟨0, 0⟩).events ∧
    (∃ location, 10 ∉ location ∧ bytes = (redirectLines location).flatMap (· ++ [10])) ∧
      bytes.count 10 = 4 := by
  have hresponses : responses (@handleConnection FreshBytes.zero _ upgradeContext
      (arrived (ascii ("GET /x?a=b HTTP/1.1\r\nHost: a\r\n" ++
        "Upgrade-Insecure-Requests: 1\r\n\r\n"))) 0 ⟨0, 0⟩) =
      [(301, (redirectLines (ascii "https://a:443/x?a=b")).flatMap (· ++ [10]))] := by
    decide +kernel
  have hmem := mem_responses.mp (hresponses ▸ List.mem_singleton.mpr rfl)
  exact ⟨_, hmem, @redirect_lines FreshBytes.zero _ _ _ (plainReader_linesOf _) _ _ _ hmem⟩

end Worker
end Wsic
