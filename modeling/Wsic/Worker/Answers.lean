import Wsic.Worker.WorkerT

/-!
# What the answers do

The events that the functions behind `worker_handleConnection` can cause. A condition on events
holds of all events of an answer when it holds of the few that the answer is made of; that a
request is answered at all is another matter.
-/

open CMemory Effects Effects.Outcome

namespace Wsic.Worker

/-- The responses among the events, with their codes. -/
def responses (outcome : Outcome Effect) : List (UInt16 × List UInt8) :=
  outcome.events.filterMap (fun
    | .response code bytes => some (code, bytes)
    | _ => none)

theorem mem_responses {outcome : Outcome Effect} {code : UInt16} {bytes : List UInt8} :
    (code, bytes) ∈ responses outcome ↔ .response code bytes ∈ outcome.events := by
  rw [responses, List.mem_filterMap]
  constructor
  · rintro ⟨effect, hmem, heq⟩
    cases effect with
    | response code' bytes' =>
      cases heq
      exact hmem
    | spawn command environment => cases heq
    | stdin bytes' => cases heq
    | closeStdin => cases heq
  · exact fun h ↦ ⟨_, h, rfl⟩

variable {P : Effect → Prop}

theorem events_freeRequest (request : HttpT) : (freeRequest request).events = [] :=
  events_attempt_of_nil (fun _ ↦ rfl)

/-- Freeing the request is not seen. -/
theorem events_andThen_freeRequest (first : Outcome Effect) (request : HttpT) :
    (first.andThen (freeRequest request)).events = first.events :=
  events_andThen_of_nil first (events_freeRequest request)

theorem all_andThen_freeRequest {first : Outcome Effect} (h : All P first) (request : HttpT) :
    All P (first.andThen (freeRequest request)) :=
  all_andThen h (all_of_nil (events_freeRequest request))

variable [FreshBytes]

/-! ### Pages and files -/

/-- A page is sent with its code. -/
theorem all_returnPage {code : UInt16} (h : ∀ bytes, P (.response code bytes)) (request : HttpT)
    (page : Checked PageT) (loggedPath : Checked (Option StringT)) :
    All P (returnPage request code page loggedPath) := by
  apply all_attempt
  rintro ⟨buffer, response⟩ -
  apply all_emit (h _)
  apply all_attempt
  intro _ _
  exact all_attempt (fun _ _ ↦ all_done)

/-- A file is sent, or the page for a file that was not read. -/
theorem all_return200 {context : Context} (h200 : ∀ bytes, P (.response 200 bytes))
    (h500 : ∀ bytes, P (.response 500 bytes)) (rounds : ℕ) (request : HttpT)
    (resolvedPath : StringT) : All P (return200 context rounds request resolvedPath) := by
  apply all_attempt
  intro fileContent _
  cases fileContent with
  | none => exact all_returnPage h500 _ _ _
  | some fileContent =>
    apply all_attempt
    rintro ⟨buffer, response⟩ -
    apply all_emit (h200 _)
    apply all_attempt
    intro _ _
    exact all_attempt (fun _ _ ↦ all_done)

/-! ### Scripts -/

/-- What is done to a script, and the answer that is made of its output. -/
structure ScriptEvents (P : Effect → Prop) : Prop where
  stdin : ∀ bytes, P (.stdin bytes)
  closeStdin : P .closeStdin
  output : ∀ bytes, P (.response 0 bytes)
  failure : ∀ bytes, P (.response 500 bytes)

/-- Behind the start of a script. -/
theorem ScriptEvents.followed (h : ScriptEvents P) (context : Context) (rounds : ℕ)
    (request : HttpT) (body : Option StringT) :
    All P (match body with
      | some body => cgiWrite context.script 0 body.content <|
          cgiFlushStdin context.script 1 <| answerCGI context rounds request
      | none => cgiFlushStdin context.script 0 <| answerCGI context rounds request) := by
  have hanswer : All P (answerCGI context rounds request) := by
    unfold answerCGI
    split
    · exact all_returnPage h.failure _ _ _
    · exact all_emit (h.output _) (all_attempt (fun _ _ ↦ all_done))
  have hflush (i : ℕ) : All P (cgiFlushStdin context.script i (answerCGI context rounds request)) :=
    all_emit (h.stdin _) (all_emit h.closeStdin hanswer)
  cases body with
  | none => exact hflush 0
  | some body => exact all_emit (h.stdin _) (hflush 1)

/-- A script is started with the resolved path as its command. -/
theorem all_returnCGI (h : ScriptEvents P) {context : Context} {resolvedPath : StringT}
    (hspawn : ∀ command environment, resolvedPath.cstr = .ok command →
      P (.spawn command environment)) (rounds : ℕ) (request : HttpT) (rootDirectory : StringT)
    (body : Option StringT) :
    All P (returnCGI context rounds request resolvedPath rootDirectory body) := by
  apply all_attempt
  rintro ⟨environment, request⟩ -
  apply all_attempt
  intro command hcommand
  split
  · exact all_of_nil rfl
  · apply all_emit (hspawn command environment hcommand)
    apply all_attempt
    intro _ _
    exact h.followed context rounds request body

section Requests

variable {σ : Type} {context : Context} {reader : Reader σ}

/-- The request for a script: it is refused, or the script is started. -/
theorem all_serveScript (h : ScriptEvents P) {resolvedPath : StringT}
    (hspawn : ∀ command environment, resolvedPath.cstr = .ok command →
      P (.spawn command environment))
    (hrefuse : ∀ code bytes, code = 400 ∨ code = 413 ∨ code = 417 → P (.response code bytes))
    (rounds : ℕ) (request : HttpT) (path rootDirectory : StringT) (socket : σ) :
    All P (serveScript context reader rounds request path rootDirectory resolvedPath socket) := by
  have h400 (request : HttpT) (description : String) :
      All P (return400 rounds request (some path) description) :=
    all_returnPage (fun bytes ↦ hrefuse 400 bytes (.inl rfl)) _ _ _
  have h413 (request : HttpT) : All P (return413 rounds request (some path)) :=
    all_returnPage (fun bytes ↦ hrefuse 413 bytes (.inr (.inl rfl))) _ _ _
  have h417 (request : HttpT) : All P (return417 rounds request (some path)) :=
    all_returnPage (fun bytes ↦ hrefuse 417 bytes (.inr (.inr rfl))) _ _ _
  apply all_attempt
  rintro ⟨expects, request⟩ -
  apply all_attempt
  rintro ⟨contentLengthString, request⟩ -
  apply all_andThen_freeRequest
  cases contentLengthString with
  | none => exact all_returnCGI h hspawn _ _ _ _
  | some contentLengthString =>
    apply all_attempt
    intro digits _
    dsimp only
    split
    · split
      · exact h417 request
      · exact h413 request
    · split
      · split
        · exact h417 request
        · exact h400 request _
      · split
        · exact h400 request _
        · exact all_returnCGI h hspawn _ _ _ _

/-- What the answer to a resolved path can cause. -/
def Follows : Reply → Effect → Prop
  | .notFound, .response code _ => code = 404
  | .badRequest, .response code _ => code = 400
  | .file _, .response code _ => code = 200 ∨ code = 500
  | .cgi _, .response code _ => code ∈ [0, 500, 400, 413, 417]
  | .cgi resolvedPath, .spawn command _ => resolvedPath.cstr = .ok command
  | .cgi _, .stdin _ => True
  | .cgi _, .closeStdin => True
  | _, _ => False

/-- The answer to a resolved path causes nothing else. -/
theorem all_answer (rounds : ℕ) (request : HttpT) (path rootDirectory : StringT) (socket : σ)
    (reply : Reply) : All (Follows reply)
      (answer context reader rounds request path rootDirectory socket reply) := by
  cases reply with
  | notFound => exact all_andThen_freeRequest (all_returnPage (fun _ ↦ rfl) _ _ _) _
  | badRequest => exact all_andThen_freeRequest (all_returnPage (fun _ ↦ rfl) _ _ _) _
  | file resolvedPath =>
    exact all_andThen_freeRequest (all_return200 (fun _ ↦ .inl rfl) (fun _ ↦ .inr rfl) _ _ _) _
  | cgi resolvedPath =>
    have hscript : ScriptEvents (Follows (.cgi resolvedPath)) :=
      ⟨fun _ ↦ trivial, trivial, fun _ ↦ by simp [Follows], fun _ ↦ by simp [Follows]⟩
    apply all_serveScript hscript (fun _ _ h ↦ h)
    rintro code bytes (rfl | rfl | rfl) <;> simp [Follows]

/-! ### Processes -/

end Requests

end Wsic.Worker
