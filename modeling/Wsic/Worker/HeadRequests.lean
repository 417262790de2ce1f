import Wsic.Worker.Sending

/-!
# Answers to HEAD

The six functions that answer with a page or a file, `src/worker/worker.c:434–640`, for two
requests that differ in the method only. The body is set first, with its `Content-Length`, and
removed for `HEAD` afterwards, so what is sent for `HEAD` is what is sent for `GET` up to the
first empty line.
-/

open CMemory Effects Effects.Outcome

namespace Wsic

/-- The effect with a response cut behind its first empty line. -/
def Effect.withoutBody : Effect → Effect
  | .response code bytes => .response code (HttpT.throughEmptyLine bytes)
  | effect => effect

namespace Worker

/-- The same request with `GET` and with `HEAD`. -/
def asGet (request : HttpT) : HttpT := { request with method := .get }

def asHead (request : HttpT) : HttpT := { request with method := .head }

/-- For `HEAD` the same is sent as for `GET`, without the body. -/
def Mirrors (answer : HttpT → Outcome Effect) (request : HttpT) : Prop :=
  (answer (asHead request)).events = (answer (asGet request)).events.map Effect.withoutBody

/-- The file under this path is not empty, if it opens: its size is the one that `ftell` tells
at its end. -/
def FindsContent (context : Context) (resolvedPath : StringT) : Prop :=
  ∀ path file, resolvedPath.cstr = .ok path → context.openFile path = some file → file.1 ≠ 0

/-! ### The head of an answer -/

theorem lined_answerMessage (code : UInt16) {length type : List UInt8} (hlength : 13 ∉ length)
    (htype : 13 ∉ type) (body : Option (List UInt8)) :
    (answerMessage code length type body).Lined where
  version := show 13 ∉ HttpT.versionText (some (ascii "1.1")) by decide
  codeText := fun hcr ↦ absurd (HttpT.printable_codeText code 13 hcr) (by decide)
  headers := by
    intro header hmem
    have hnames : 13 ∉ HttpT.contentLength ∧ 13 ∉ ascii "Content-Type" := by decide
    rcases KeyedList.mem_set hmem with rfl | hmem
    · simp [HttpT.headerPiece, hnames, htype]
    · rcases KeyedList.mem_set hmem with rfl | hmem
      · simp [HttpT.headerPiece, hnames, hlength]
      · cases hmem

section Sent

variable [FreshBytes]

private theorem cr_notMem_lengthText (body : StringT) : 13 ∉ lengthText body := by
  intro hmem
  rcases StringT.mem_fromInt hmem with h | h
  · cases h
  · exact absurd h.1 (by decide)

/-- Answers that are sent with one head mirror each other. -/
theorem mirrors_of_events {answer : HttpT → Outcome Effect} {request : HttpT} (code : UInt16)
    {body : StringT} {type : List UInt8} (htype : 13 ∉ type)
    (h : ∀ request, (answer request).events = [.response code
      (answerMessage code (lengthText body) type (bodyText request body)).bytes]) :
    Mirrors answer request := by
  have hlined := lined_answerMessage code (cr_notMem_lengthText body) htype none
  have hhead : (answerMessage code (lengthText body) type (bodyText (asHead request) body)).bytes =
      (answerMessage code (lengthText body) type none).head := List.append_nil _
  have hget : (answerMessage code (lengthText body) type (bodyText (asGet request) body)).bytes =
      (answerMessage code (lengthText body) type none).head ++ body.text := rfl
  rw [Mirrors, h, h, hhead, hget, List.map_singleton, Effect.withoutBody,
    hlined.throughEmptyLine]

omit [FreshBytes] in
private theorem cr_notMem_mimeText {mimeType : Option StringT}
    (h : ∀ t, mimeType = some t → 13 ∉ t.text) : 13 ∉ mimeText mimeType := by
  cases mimeType with
  | none => decide
  | some t => exact h t rfl

/-! ### The answers -/

/-- A page that cannot be made is not sent for either method. -/
theorem mirrors_returnPage (request : HttpT) (code : UInt16) {page : Checked PageT}
    (hpage : ∀ p, page = .ok p → p.Sourced) (loggedPath : HttpT → Checked (Option StringT)) :
    Mirrors (fun request ↦ returnPage request code page (loggedPath request)) request := by
  cases page with
  | error fault => rfl
  | ok page =>
    obtain ⟨source, hsource, hbuffer⟩ := hpage page rfl
    exact mirrors_of_events code (by decide)
      (fun request ↦ events_returnPage request code hsource hbuffer (loggedPath request))

theorem mirrors_return500 (request : HttpT) (rounds : ℕ) (description : String) :
    Mirrors (fun request ↦ return500 rounds request description) request :=
  mirrors_returnPage request 500 (fun _ ↦ PageT.sourced_createWith) requestPath

/-- A file that is sent, or a page in its place. -/
theorem mirrors_return200 (request : HttpT) (rounds : ℕ) {context : Context}
    {resolvedPath : StringT} (hfile : FindsContent context resolvedPath) :
    Mirrors (fun request ↦ return200 context rounds request resolvedPath) request := by
  cases hpath : resolvedPath.cstr with
  | error fault =>
    have hload : Resources.loadFile context.openFile resolvedPath = .error fault := by
      rw [Resources.loadFile, hpath, checked_error_bind]
    unfold Mirrors return200
    rw [hload]
    rfl
  | ok path =>
    have hload := Resources.loadFile_eq context.openFile hpath
    cases hopen : context.openFile path with
    | none =>
      have hnone : ∀ request, return200 context rounds request resolvedPath =
          return500 rounds request "Unable to access requested file" := by
        intro request
        rw [return200, hload, hopen]
        rfl
      simp only [hnone]
      exact mirrors_return500 request rounds _
    | some file =>
      rw [hopen, Option.map_some] at hload
      obtain ⟨mimeType, hmime, htype⟩ := getMIMEType_ok resolvedPath
      have hbuffer := mt (buffer_loaded file.1 (file.2.takeWhile (· ≠ 255))).mp
        (fun hempty ↦ hfile path file hpath hopen hempty.1)
      apply mirrors_of_events 200 (cr_notMem_mimeText (fun t ht ↦ (htype t ht).2))
      exact fun request ↦ events_return200 request hload (.inr hbuffer) hmime rounds

/-- For every request each of the answers to `HEAD` is the answer to `GET` cut behind its first
empty line. -/
theorem head_mirrors_get (request : HttpT) (rounds : ℕ) :
    (∀ path description,
      Mirrors (fun request ↦ return400 rounds request path description) request) ∧
    (∀ path, Mirrors (fun request ↦ return404 rounds request path) request) ∧
    (∀ path, Mirrors (fun request ↦ return413 rounds request path) request) ∧
    (∀ path, Mirrors (fun request ↦ return417 rounds request path) request) ∧
    (∀ description, Mirrors (fun request ↦ return500 rounds request description) request) ∧
    ∀ context resolvedPath, FindsContent context resolvedPath →
      Mirrors (fun request ↦ return200 context rounds request resolvedPath) request := by
  refine ⟨fun path description ↦ ?_, fun path ↦ ?_, fun path ↦ ?_, fun path ↦ ?_, ?_, ?_⟩
  · exact mirrors_returnPage request 400 (fun _ ↦ PageT.sourced_createWith) (fun _ ↦ .ok path)
  · exact mirrors_returnPage request 404 (fun _ ↦ PageT.sourced_create404)
      (fun _ ↦ .ok (some path))
  · exact mirrors_returnPage request 413 (fun _ ↦ PageT.sourced_createWith) (fun _ ↦ .ok path)
  · exact mirrors_returnPage request 417 (fun _ ↦ PageT.sourced_createWith) (fun _ ↦ .ok path)
  · exact fun description ↦ mirrors_return500 request rounds description
  · exact fun context resolvedPath hfile ↦ mirrors_return200 request rounds hfile

end Sent

/-- A worker that finds two bytes in every file. -/
def twoBytesContext : Context where
  sites := ListT.create
  ssl := false
  sourceAddress := StringT.create
  sourcePort := 0
  fs := ⟨fun _ ↦ none, fun _ ↦ true, fun _ ↦ false⟩
  openFile := fun _ ↦ some (2, ascii "hi")
  systemPath := none
  script := ⟨false, fun _ ↦ 0, none⟩

theorem head_mirrors_get_two_bytes :
    FindsContent twoBytesContext (StringT.fromBuffer (ascii "/w/e.html")) ∧
      Mirrors (fun request ↦ @return200 FreshBytes.zero twoBytesContext 0 request
        (StringT.fromBuffer (ascii "/w/e.html"))) HttpT.create := by
  have hfile : FindsContent twoBytesContext (StringT.fromBuffer (ascii "/w/e.html")) := by
    rintro path file - ⟨⟩
    exact two_ne_zero
  obtain ⟨-, -, -, -, -, hmirrors⟩ := @head_mirrors_get FreshBytes.zero HttpT.create 0
  exact ⟨hfile, hmirrors _ _ hfile⟩

end Worker
end Wsic
