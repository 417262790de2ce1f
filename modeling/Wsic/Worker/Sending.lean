import Wsic.Http.HeaderBlock
import Wsic.Worker.Answers
import Wsic.Worker.Request
import Wsic.Www.ErrorPages

/-!
# When an answer is sent

Each function that answers a request: when it sends exactly one response that is not empty, and
when it sends none. A page is made in a bounded number of rounds, so an answer is one from some
number of rounds on.
-/

open CMemory Effects Effects.Outcome

namespace Wsic

/-! ### Messages with any body -/

namespace HttpT

/-- Headers are set whatever the body is. -/
theorem setHeader_withBody (http : HttpT) (body : Option StringT) (key value : Option StringT) :
    { http with body := body }.setHeader key value =
      (http.setHeader key value).map (fun http ↦ { http with body := body }) := by
  cases key with
  | none => rfl
  | some key =>
    rw [setHeader, setHeader, deref_some, checked_ok_bind, checked_ok_bind]
    dsimp only
    cases http.headers.setValue key value <;> rfl

theorem Carries.withBody {http : HttpT} {message : Message} (h : Carries http message)
    {body : Option StringT} {text : Option (List UInt8)} (hbody : Option.Rel ReadsAs body text) :
    Carries { http with body := body } { message with body := text } :=
  ⟨h.version, h.code, h.codeText, h.headers, hbody⟩

variable [FreshBytes]

end HttpT

namespace Worker

/-! ### One response -/

/-- Exactly one response, and it is not empty. -/
def SendsOne (outcome : Outcome Effect) : Prop :=
  ∃ code bytes, responses outcome = [(code, bytes)] ∧ bytes ≠ []

/-- From some number of rounds on exactly one response is sent. -/
def AnswersOnce (outcome : ℕ → Outcome Effect) : Prop :=
  ∃ n, ∀ rounds ≥ n, SendsOne (outcome rounds)

/-- Where all events are responses with one code, the one that is sent is all there is. -/
theorem events_of_sendsOne {code : UInt16} {outcome : Outcome Effect}
    (hall : All (fun event ↦ ∃ bytes, event = .response code bytes) outcome)
    (h : SendsOne outcome) : ∃ bytes, bytes ≠ [] ∧ outcome.events = [.response code bytes] := by
  obtain ⟨code', bytes, hone, hne⟩ := h
  unfold responses at hone
  unfold All at hall
  match hevents : outcome.events with
  | [] =>
    rw [hevents] at hone
    cases hone
  | [event] =>
    obtain ⟨bytes', rfl⟩ := hall event (by rw [hevents]; exact List.mem_cons_self)
    rw [hevents] at hone
    cases hone
    exact ⟨bytes, hne, rfl⟩
  | first :: second :: rest =>
    obtain ⟨bytes₁, rfl⟩ := hall first (by rw [hevents]; exact List.mem_cons_self)
    obtain ⟨bytes₂, rfl⟩ := hall second
      (by rw [hevents]; exact List.mem_cons_of_mem _ List.mem_cons_self)
    rw [hevents] at hone
    cases hone

/-! ### Pages -/

private theorem readsAs_contentType :
    HttpT.ReadsAs (StringT.fromBuffer (ascii "Content-Type")) (ascii "Content-Type") := by decide

private theorem readsAs_contentLength :
    HttpT.ReadsAs (StringT.fromBuffer (ascii "Content-Length")) HttpT.contentLength := by decide

private theorem readsAs_version :
    Option.Rel HttpT.ReadsAs (some (StringT.fromBuffer (ascii "1.1"))) (some (ascii "1.1")) :=
  .some (by decide)

private theorem hash_contentLength (length : List UInt8) :
    ∀ header ∈ [(HttpT.contentLength, length)],
      HashTableT.hash header.1 = HashTableT.hash (ascii "Content-Type") →
        header.1 = ascii "Content-Type" := by
  intro header hheader hhash
  cases List.mem_singleton.mp hheader
  have hne : HashTableT.hash HttpT.contentLength ≠ HashTableT.hash (ascii "Content-Type") := by
    decide
  exact absurd hhash hne

/-- The response of an answer: its body is framed by the length and the type. -/
def answerMessage (code : UInt16) (length type : List UInt8) (body : Option (List UInt8)) :
    HttpT.Message where
  version := some (ascii "1.1")
  code := code
  codeText := some (ascii (HttpT.codeText code))
  headers := (KeyedList.empty.set (HttpT.contentLength, length)).set (ascii "Content-Type", type)
  body := body

variable [FreshBytes] (request : HttpT)

/-- The value of `Content-Length` for a body. -/
def lengthText (body : StringT) : List UInt8 := (StringT.fromInt (HttpT.toInt body.size)).content

/-- The body that is sent: none for `HEAD`. -/
def bodyText (body : StringT) : Option (List UInt8) :=
  if request.method = .head then none else some body.text

omit [FreshBytes] in
/-- The body is removed for `HEAD`. -/
theorem carries_withBody {http : HttpT} {message : HttpT.Message}
    (h : HttpT.Carries http message) {body : StringT}
    (hbody : request.method = .head ∨ body.buffer ≠ none) :
    HttpT.Carries { http with body := if request.method = .head then none else some body }
      { message with body := bodyText request body } := by
  apply h.withBody
  unfold bodyText
  split
  · exact .none
  · next hmethod => exact .some (HttpT.readsAs_text (hbody.resolve_left hmethod))

omit [FreshBytes] in
private theorem ite_withBody (http : HttpT) (body body' : Option StringT) :
    (if request.method = .head then { http with body := body } else { http with body := body' }) =
      { http with body := if request.method = .head then body else body' } := by
  split <;> rfl

/-- What is sent for a page with a source. -/
theorem events_returnPage (code : UInt16) {page : PageT} {source : StringT}
    (hsource : page.source = some source) (hbuffer : source.buffer ≠ none)
    (loggedPath : Checked (Option StringT)) :
    (returnPage request code (.ok page) loggedPath).events =
      [.response code (answerMessage code (lengthText source) (ascii "text/html")
        (bodyText request source)).bytes] := by
  obtain ⟨http₁, h₁, hcarries₁⟩ := HttpT.carries_create.setHeader readsAs_contentLength
    (StringT.cstr_fromInt (HttpT.toInt source.size)) (fun _ hm ↦ nomatch hm)
  have hstart := ((carries_withBody request hcarries₁ (.inr hbuffer)).setResponseCode
    code).setVersion readsAs_version
  obtain ⟨http₂, h₂, hcarries₂⟩ := hstart.setHeader readsAs_contentType
    (show HttpT.ReadsAs (StringT.fromBuffer (ascii "text/html")) (ascii "text/html") by decide)
    (hash_contentLength _)
  obtain ⟨printed, http₃, buffer, hprinted, hprintedBuffer, hsent, -⟩ := hcarries₂.sent
  unfold returnPage
  simp only [hsource, HttpT.setBody, HttpT.setHeader_withBody, h₁, checked_ok_map,
    checked_ok_bind, ite_withBody, h₂, hprinted, hprintedBuffer, deref_some, pure, Except.pure,
    attempt_ok, events_emit, hsent]
  rw [events_attempt_of_nil (fun _ ↦ events_attempt_of_nil (fun _ ↦ rfl))]
  rfl

/-- A page with a source is sent. -/
theorem sendsOne_returnPage (code : UInt16) {page : PageT} (h : page.Sourced)
    (loggedPath : Checked (Option StringT)) :
    SendsOne (returnPage request code (.ok page) loggedPath) := by
  obtain ⟨source, hsource, hbuffer⟩ := h
  have hsent := events_returnPage request code hsource hbuffer loggedPath
  refine ⟨code, _, by rw [responses, hsent]; rfl, ?_⟩
  simp [HttpT.Message.bytes]

theorem answersOnce_returnPage {create : ℕ → Checked PageT} (h : PageT.Makes create)
    (code : UInt16) (loggedPath : Checked (Option StringT)) :
    AnswersOnce (fun rounds ↦ returnPage request code (create rounds) loggedPath) := by
  obtain ⟨n, hn⟩ := h
  refine ⟨n, fun rounds hrounds ↦ ?_⟩
  obtain ⟨page, hpage, hsourced⟩ := hn rounds hrounds
  dsimp only
  rw [hpage]
  exact sendsOne_returnPage request code hsourced loggedPath

theorem answersOnce_return413 (path : Option StringT) :
    AnswersOnce (fun rounds ↦ return413 rounds request path) :=
  answersOnce_returnPage request PageT.makes_create413 413 _

theorem answersOnce_return417 (path : Option StringT) :
    AnswersOnce (fun rounds ↦ return417 rounds request path) :=
  answersOnce_returnPage request PageT.makes_create417 417 _

private theorem buffer_foldl_appendChar (bytes : List UInt8) (s : StringT) :
    (bytes.foldl StringT.appendChar s).buffer = none ↔ s.buffer = none ∧ bytes = [] := by
  induction bytes generalizing s with
  | nil => exact (and_iff_left rfl).symm
  | cons c bytes ih =>
    rw [List.foldl_cons, ih]
    constructor
    · rintro ⟨hnull, -⟩
      cases hnull
    · rintro ⟨-, hnil⟩
      cases hnil

/-- Only an empty file of size 0 has no buffer. -/
theorem buffer_loaded (fileSize : ℕ) (bytes : List UInt8) :
    (bytes.foldl StringT.appendChar (StringT.create.setBufferSize fileSize)).buffer = none ↔
      fileSize = 0 ∧ bytes = [] := by
  rw [buffer_foldl_appendChar]
  apply and_congr_left
  intro _
  by_cases hsize : fileSize = 0
  · rw [hsize]
    exact iff_of_true rfl rfl
  · refine iff_of_false ?_ hsize
    rw [StringT.setBufferSize, if_neg (show fileSize ≠ StringT.create.bufferSize from hsize)]
    exact Option.some_ne_none _

omit [FreshBytes] in
private theorem cr_notMem_mimeTypes : ∀ type ∈ Resources.mimeTypes, 13 ∉ ascii type.2 := by
  decide +kernel

omit [FreshBytes] in
private theorem findMIMEType_ok {extension : StringT} {text : List UInt8}
    (h : extension.cstr = .ok text) {types : List (String × String)}
    (htypes : ∀ type ∈ types, 13 ∉ ascii type.2) :
    ∃ mimeType, Resources.findMIMEType extension types = .ok mimeType ∧
      ∀ t, mimeType = some t → t.buffer ≠ none ∧ 13 ∉ t.text := by
  induction types with
  | nil => exact ⟨none, rfl, fun _ ht ↦ nomatch ht⟩
  | cons type types ih =>
    rw [Resources.findMIMEType, StringT.equalsBuffer, h, checked_ok_bind, pure_bind]
    split
    · refine ⟨_, rfl, ?_⟩
      rintro _ ⟨⟩
      have htext : (StringT.fromBuffer (ascii type.2)).text = cString (ascii type.2) :=
        Except.ok.inj ((HttpT.readsAs_text (Option.some_ne_none _)).symm.trans
          (StringT.cstr_fromBuffer _))
      refine ⟨Option.some_ne_none _, fun hcr ↦ htypes type List.mem_cons_self ?_⟩
      rw [htext] at hcr
      exact (List.takeWhile_sublist _).mem hcr
    · exact ih (fun other hother ↦ htypes other (List.mem_cons_of_mem _ hother))

omit [FreshBytes] in
/-- Some type, or none, is found for every path; a type is a text on one line. -/
theorem getMIMEType_ok (filePath : StringT) :
    ∃ mimeType, Resources.getMIMEType filePath = .ok mimeType ∧
      ∀ t, mimeType = some t → t.buffer ≠ none ∧ 13 ∉ t.text := by
  unfold Resources.getMIMEType
  split
  · exact ⟨none, rfl, fun _ ht ↦ nomatch ht⟩
  · next dotIndex _ =>
    by_cases hdot : dotIndex < filePath.size
    · rw [StringT.substring_of_le hdot.le hdot (Nat.le_refl _), checked_ok_bind]
      exact findMIMEType_ok (StringT.cstr_fromBufferWithLength _) cr_notMem_mimeTypes
    · rw [StringT.substring_of_not (.inl (not_lt.mp hdot))]
      exact ⟨none, rfl, fun _ ht ↦ nomatch ht⟩

/-- The value of `Content-Type` for a file. -/
def mimeText (mimeType : Option StringT) : List UInt8 :=
  (mimeType.getD (StringT.fromBuffer (ascii "text/plain"))).text

/-- The response with a file is made, unless its body has no buffer. -/
private theorem fileResponse_ok {fileContent : StringT}
    (h : request.method = .head ∨ fileContent.buffer ≠ none) {mimeType : Option StringT}
    (hmime : ∀ t, mimeType = some t → t.buffer ≠ none) :
    ∃ buffer response, fileResponse request fileContent mimeType = .ok (buffer, response) ∧
      HttpT.connectionWrite buffer = (answerMessage 200 (lengthText fileContent)
        (mimeText mimeType) (bodyText request fileContent)).bytes := by
  have htype : (mimeType.getD (StringT.fromBuffer (ascii "text/plain"))).buffer ≠ none := by
    cases mimeType with
    | none => exact Option.some_ne_none _
    | some t => exact hmime t rfl
  have hstart := (HttpT.carries_create.setResponseCode 200).setVersion readsAs_version
  obtain ⟨http₁, h₁, hcarries₁⟩ := hstart.setHeader readsAs_contentLength
    (StringT.cstr_fromInt (HttpT.toInt fileContent.size)) (fun _ hm ↦ nomatch hm)
  obtain ⟨http₂, h₂, hcarries₂⟩ :=
    hcarries₁.setHeader readsAs_contentType (HttpT.readsAs_text htype) (hash_contentLength _)
  obtain ⟨printed, http₃, buffer, hprinted, hbuffer, hsent, -⟩ :=
    (carries_withBody request hcarries₂ h).sent
  refine ⟨buffer, http₃, ?_, hsent⟩
  simp only [fileResponse, HttpT.setBody, HttpT.setHeader_withBody, h₁, h₂, checked_ok_map,
    checked_ok_bind, ite_withBody, hprinted, hbuffer, deref_some]
  rfl

/-- What is sent for a file that was loaded. -/
theorem events_return200 {context : Context} {resolvedPath fileContent : StringT}
    (hload : Resources.loadFile context.openFile resolvedPath = .ok (some fileContent))
    (hbuffer : request.method = .head ∨ fileContent.buffer ≠ none) {mimeType : Option StringT}
    (hmime : Resources.getMIMEType resolvedPath = .ok mimeType) (rounds : ℕ) :
    (return200 context rounds request resolvedPath).events =
      [.response 200 (answerMessage 200 (lengthText fileContent) (mimeText mimeType)
        (bodyText request fileContent)).bytes] := by
  obtain ⟨found, hfound, htype⟩ := getMIMEType_ok resolvedPath
  cases Except.ok.inj (hmime.symm.trans hfound)
  obtain ⟨buffer, response, hresponse, hsent⟩ :=
    fileResponse_ok request hbuffer (fun t ht ↦ (htype t ht).1)
  unfold return200
  rw [hload, attempt_ok, hmime]
  simp only [checked_ok_bind, hresponse, attempt_ok, events_emit, hsent]
  rw [events_attempt_of_nil (fun _ ↦ events_attempt_of_nil (fun _ ↦ rfl))]

end Worker
end Wsic
