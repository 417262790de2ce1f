import Wsic.Worker.Sending

/-!
# Scripts

`worker_returnCGI`, `src/worker/worker.c:642`, for a request whose strings are those of the client:
the environment is always made, and behind the start of the process the body is written to it.
-/

open CMemory Effects Effects.Outcome

namespace Wsic.Worker

variable {P : UInt8 → Prop}

/-! ### The environment -/

/-- A table of variables that all have a value. -/
def Filled (environment : HashTableT (Option StringT)) : Prop :=
  ∃ m, environment.Represents m ∧ ∀ e ∈ m.entries, e.value ≠ none

theorem filled_create : Filled HashTableT.create :=
  ⟨KeyedList.empty, HashTableT.represents_create, fun _ he ↦ nomatch he⟩

theorem Filled.setVariable {environment : HashTableT (Option StringT)} (h : Filled environment)
    (key : String) (value : StringT) :
    ∃ environment', setVariable environment key value = .ok environment' ∧ Filled environment' := by
  obtain ⟨m, hrep, hm⟩ := h
  obtain ⟨environment', hset, hrep'⟩ :=
    hrep.setValue (HashTableT.freshKey (cString (ascii key))) (some value)
  refine ⟨environment', ?_, _, hrep', ?_⟩
  · rw [Worker.setVariable, show StringT.fromBuffer (ascii key) =
      (HashTableT.freshKey (cString (ascii key))).1 from rfl, hset]
    rfl
  · intro e he
    rcases KeyedList.mem_set he with rfl | he
    · exact Option.some_ne_none value
    · exact hm e he

theorem Filled.setVariableIf {environment : HashTableT (Option StringT)} (h : Filled environment)
    (key : String) (value : Option StringT) :
    ∃ environment', setVariableIf environment key value = .ok environment' ∧
      Filled environment' := by
  cases value with
  | none => exact ⟨environment, rfl, h⟩
  | some value => exact h.setVariable key value

theorem Filled.free {environment : HashTableT (Option StringT)} (h : Filled environment) :
    freeEnvironment environment = .ok () := by
  obtain ⟨m, hrep, hm⟩ := h
  obtain ⟨table, hdrain, -⟩ := hrep.drain
  rw [freeEnvironment, hdrain, checked_ok_bind]
  apply UrlT.freeValues_ok
  intro entry hentry
  obtain ⟨e, he, rfl⟩ := List.mem_map.mp hentry
  exact hm e he

/-- The path of a script relative to the root, or null. -/
private theorem relativeTo_ok (fs : FileSystem) (path root : CanonicalPath) :
    ∃ relativePath, Path.relativeTo fs (StringT.fromBuffer path.1) (StringT.fromBuffer root.1) =
      .ok relativePath := by
  rw [Path.relativeTo, Path.cstr_canonical, checked_ok_bind]
  split
  · exact ⟨none, rfl⟩
  · next resolved _ =>
    rw [Path.fromBuffer_canonical, Path.fromBuffer_canonical]
    dsimp only
    rw [StringT.size_fromBufferWithLength, StringT.size_fromBufferWithLength]
    by_cases hlen : resolved.1.length ≤ 0 ∨ resolved.1.length < root.1.length
    · rw [StringT.substring_of_not (by rwa [StringT.size_fromBufferWithLength])]
      exact ⟨none, rfl⟩
    · rw [not_or, not_le, not_lt] at hlen
      rw [StringT.substring_fresh _ (Nat.zero_le _) hlen.1 hlen.2, checked_ok_bind]
      dsimp only
      rw [StringT.equals, StringT.buffer_fromBufferWithLength, deref_some, checked_ok_bind,
        StringT.equalsBuffer, StringT.cstr_fromBufferWithLength, checked_ok_bind, pure_bind]
      split
      · by_cases hlt : root.1.length < resolved.1.length
        · rw [StringT.substring_rest hlt]
          exact ⟨_, rfl⟩
        · rw [StringT.substring_of_not (.inl (by rw [StringT.size_fromBufferWithLength]; omega))]
          exact ⟨_, rfl⟩
      · exact ⟨none, rfl⟩

variable [FreshBytes]

/-- The environment of a script is made. -/
theorem createEnvironment_ok (context : Context) {request : HttpT} (h : request.MadeOf P)
    {url : UrlT} (hurl : request.url = some url) (root path : CanonicalPath) :
    ∃ environment request', createEnvironment context request (StringT.fromBuffer root.1)
        (StringT.fromBuffer path.1) = .ok (environment, request') ∧ Filled environment := by
  obtain ⟨e₁, h₁, hf₁⟩ := filled_create.setVariable "HTTPS" (StringT.fromBuffer (ascii "off"))
  obtain ⟨e₂, h₂, hf₂⟩ := hf₁.setVariable "SERVER_SOFTWARE" (StringT.fromBuffer (ascii "WSIC"))
  obtain ⟨e₃, h₃, hf₃⟩ := hf₂.setVariable "REMOTE_ADDR" context.sourceAddress.copy
  obtain ⟨e₄, h₄, hf₄⟩ :=
    hf₃.setVariable "REMOTE_PORT" (StringT.fromInt context.sourcePort.toNat)
  obtain ⟨e₅, h₅, hf₅⟩ := hf₄.setVariableIf "REQUEST_METHOD" (environmentMethod request.method)
  obtain ⟨r₁, hr₁, hm₁, hl₁, -⟩ := h.getHeader "Cookie"
  obtain ⟨e₆, h₆, hf₆⟩ :=
    hf₅.setVariableIf "HTTP_COOKIE" ((request.headerValue "Cookie").map StringT.copy)
  obtain ⟨r₂, hr₂, hm₂, hl₂, -⟩ := hm₁.getHeader "Referer"
  obtain ⟨e₇, h₇, hf₇⟩ :=
    hf₆.setVariableIf "HTTP_REFERER" ((r₁.headerValue "Referer").map StringT.copy)
  obtain ⟨r₃, hr₃, hm₃, hl₃, -⟩ := hm₂.getHeader "User-Agent"
  obtain ⟨e₈, h₈, hf₈⟩ :=
    hf₇.setVariableIf "HTTP_USER_AGENT" ((r₂.headerValue "User-Agent").map StringT.copy)
  have hurl₃ : r₃.url = some url := by rw [hl₃.url, hl₂.url, hl₁.url, hurl]
  obtain ⟨e₉, h₉, hf₉⟩ := hf₈.setVariableIf "HTTP_HOST" (url.domainName.map StringT.copy)
  obtain ⟨e₁₀, h₁₀, hf₁₀⟩ := hf₉.setVariableIf "SERVER_NAME" (url.domainName.map StringT.copy)
  obtain ⟨e₁₁, h₁₁, hf₁₁⟩ := hf₁₀.setVariableIf "SERVER_PORT"
    (if url.port ≠ 0 then some (StringT.fromInt url.port.toNat) else none)
  obtain ⟨e₁₂, h₁₂, hf₁₂⟩ := hf₁₁.setVariableIf "REQUEST_URI" (url.path.map StringT.copy)
  obtain ⟨e₁₃, h₁₃, hf₁₃⟩ := hf₁₂.setVariable "DOCUMENT_ROOT" (StringT.fromBuffer root.1).copy
  obtain ⟨e₁₄, h₁₄, hf₁₄⟩ := hf₁₃.setVariable "SCRIPT_FILENAME" (StringT.fromBuffer path.1).copy
  obtain ⟨relativePath, hrelative⟩ := relativeTo_ok context.fs path root
  obtain ⟨e₁₅, h₁₅, hf₁₅⟩ := hf₁₄.setVariableIf "SCRIPT_NAME" relativePath
  obtain ⟨e₁₆, h₁₆, hf₁₆⟩ :=
    hf₁₅.setVariableIf "PATH" (context.systemPath.map StringT.fromBuffer)
  refine ⟨e₁₆, r₃, ?_, hf₁₆⟩
  rw [createEnvironment, h₁, checked_ok_bind, h₂, checked_ok_bind, h₃, checked_ok_bind, h₄,
    checked_ok_bind, h₅, checked_ok_bind, hr₁, checked_ok_bind]
  dsimp only
  rw [h₆, checked_ok_bind, hr₂, checked_ok_bind]
  dsimp only
  rw [h₇, checked_ok_bind, hr₃, checked_ok_bind]
  dsimp only
  rw [h₈, checked_ok_bind, hurl₃, deref_some, checked_ok_bind, h₉, checked_ok_bind, h₁₀,
    checked_ok_bind, h₁₁, checked_ok_bind, h₁₂, checked_ok_bind, h₁₃, checked_ok_bind, h₁₄,
    checked_ok_bind, hrelative, checked_ok_bind, h₁₅, checked_ok_bind, h₁₆, checked_ok_bind]
  rfl

/-! ### The process -/

/-- What is done to the input of a process. -/
def stdinEvents (script : Script) : Option StringT → List Effect
  | some body => [.stdin (body.content.take (script.accepts 0)),
      .stdin (List.take (script.accepts 1) [0]), .closeStdin]
  | none => [.stdin (List.take (script.accepts 0) [0]), .closeStdin]

/-- A process that is spawned is given the body, and then the answer is made of its output. -/
theorem events_returnCGI (context : Context) {request : HttpT} (h : request.MadeOf P)
    {url : UrlT} (hurl : request.url = some url) (root path : CanonicalPath)
    (body : Option StringT) :
    ∃ environment request', ∀ rounds, (returnCGI context rounds request
        (StringT.fromBuffer path.1) (StringT.fromBuffer root.1) body).events =
      if context.script.spawns = false then []
      else .spawn path.1 environment :: (stdinEvents context.script body ++
        (answerCGI context rounds request').events) := by
  obtain ⟨environment, request', hcreate, hfilled⟩ :=
    createEnvironment_ok context h hurl root path
  refine ⟨environment, request', fun rounds ↦ ?_⟩
  rw [returnCGI, hcreate, attempt_ok]
  dsimp only
  rw [Path.cstr_canonical, attempt_ok]
  split
  · rfl
  · rw [events_emit, hfilled.free, attempt_ok]
    cases body <;> rfl

section Body

variable {σ : Type} {reader : Reader σ} {socket : σ}

/-- The body that a script is run with for this `Content-Length`, null when there is no such
header; nothing when the length is refused or the body cannot be read. -/
def scriptBody (reader : Reader σ) (socket : σ) : Option StringT → Option (Option StringT)
  | none => some none
  | some contentLengthString =>
    match contentLengthString.cstr with
    | .error _ => none
    | .ok digits =>
      if atoi digits > requestMaxBodySize ∨ atoi digits = 0 then none
      else (reader.read socket (atoi digits % 2 ^ 64).toNat).1.map some

variable (context : Context) {request : HttpT} (path rootDirectory resolvedPath : StringT)
  {expects contentLengthString : Option StringT}

private theorem answerScript_of_body (rounds : ℕ) {body : Option StringT}
    (h : scriptBody reader socket contentLengthString = some body) :
    answerScript context reader rounds request path rootDirectory resolvedPath socket expects
        contentLengthString = returnCGI context rounds request resolvedPath rootDirectory body := by
  cases contentLengthString with
  | none =>
    cases h
    rfl
  | some contentLengthString =>
    rw [scriptBody] at h
    split at h
    · cases h
    · next digits hdigits =>
      split at h
      · cases h
      · next hnumber =>
        rw [not_or] at hnumber
        obtain ⟨read, hread, rfl⟩ := Option.map_eq_some_iff.mp h
        rw [answerScript, hdigits, attempt_ok]
        dsimp only
        rw [if_neg hnumber.1, if_neg hnumber.2, hread]

/-- The headers that are looked up first. -/
private theorem serveScript_eq (h : request.MadeOf P) :
    ∃ request', request'.MadeOf P ∧ HttpT.LooksLike request' request ∧ ∀ rounds,
      (serveScript context reader rounds request path rootDirectory resolvedPath socket).events =
        (answerScript context reader rounds request' path rootDirectory resolvedPath socket
          (request.headerValue "Expect") (request.headerValue "Content-Length")).events := by
  obtain ⟨request₁, hexpect, hmade₁, hlooks₁, -⟩ := h.getHeader "Expect"
  obtain ⟨request₂, hlength, hmade₂, hlooks₂, -⟩ := hmade₁.getHeader "Content-Length"
  refine ⟨request₂, hmade₂, hlooks₂.trans hlooks₁, fun rounds ↦ ?_⟩
  rw [hlooks₁.headerValue] at hlength
  rw [serveScript, hexpect, attempt_ok]
  dsimp only
  rw [hlength, attempt_ok, events_andThen_freeRequest]

/-- The script is run with its body. -/
theorem serveScript_of_body (h : request.MadeOf P) {body : Option StringT}
    (hbody : scriptBody reader socket (request.headerValue "Content-Length") = some body) :
    ∃ request', request'.MadeOf P ∧ HttpT.LooksLike request' request ∧ ∀ rounds,
      (serveScript context reader rounds request path rootDirectory resolvedPath socket).events =
        (returnCGI context rounds request' resolvedPath rootDirectory body).events := by
  obtain ⟨request', hmade, hlooks, hevents⟩ :=
    @serveScript_eq P _ σ reader socket context request path rootDirectory resolvedPath h
  refine ⟨request', hmade, hlooks, fun rounds ↦ ?_⟩
  rw [hevents, answerScript_of_body _ _ _ _ _ hbody]

end Body

end Wsic.Worker
