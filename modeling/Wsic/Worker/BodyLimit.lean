import Wsic.String.Decimal
import Wsic.Worker.ScriptBody

/-!
# The limit of a body

`worker_handleConnection` compares the `Content-Length` of a request for a script with
`REQUEST_MAX_BODY_SIZE`, `src/worker/worker.c:305–340`, after `atoi` has made an `int` of it. A
numeral that does not fit is cut to its low 32 bits, and from `2^63 - 1` on it is read as `-1`. The
functions here are those of the model with the reading of the body recorded.
-/

open CMemory Effects Effects.Outcome

namespace Wsic.Worker

/-- What serving a script does: an effect, or a call of `connection_read` for so many bytes. -/
inductive BodyEvent where
  | effect (effect : Effect)
  | read (bytes : ℕ)

/-- The effect of an event. -/
def BodyEvent.toEffect : BodyEvent → Option Effect
  | .effect e => some e
  | .read _ => none

/-- The code of the page that refuses a body, for a request with or without `Expect`. -/
def refusalCode (expects : Bool) : UInt16 := if expects then 417 else 413

/-- From some number of rounds on the page that refuses the body is sent, and nothing else
happens: no byte of the body is asked for and no process is started. -/
def RefusesBody (expects : Bool) (outcome : ℕ → Outcome BodyEvent) : Prop :=
  ∃ n, ∀ rounds ≥ n, ∃ bytes, bytes ≠ [] ∧
    (outcome rounds).events = [.effect (.response (refusalCode expects) bytes)]

/-- What the length leaves of a number: it is still too large, or it is 0 and the request has
`Expect`, which is then refused as well. -/
def StaysLarge (n : ℕ) (expects : Bool) : Prop :=
  n < 2 ^ 63 - 1 ∧
    (1048576 < n % 2 ^ 32 ∧ n % 2 ^ 32 < 2 ^ 31 ∨ n % 2 ^ 32 = 0 ∧ expects = true)

variable [FreshBytes] {σ : Type} (context : Context) (reader : Reader σ)

/-- `answerScript`, `worker.c:305–345`, with the call of `connection_read`. -/
def answerScriptRecorded (rounds : ℕ) (request : HttpT) (path rootDirectory resolvedPath : StringT)
    (socket : σ) (expects : Option StringT) : Option StringT → Outcome BodyEvent
  | none => (returnCGI context rounds request resolvedPath rootDirectory none).map .effect
  | some contentLengthString =>
    attempt contentLengthString.cstr fun digits ↦
    let contentLength := atoi digits
    if contentLength > requestMaxBodySize then
      if expects.isSome then (return417 rounds request (some path)).map .effect
      else (return413 rounds request (some path)).map .effect
    else if contentLength = 0 then
      if expects.isSome then (return417 rounds request (some path)).map .effect
      else (return400 rounds request (some path)
        "Empty body when headers specified content length").map .effect
    else
      emit (.read (contentLength % 2 ^ 64).toNat) <|
      match (reader.read socket (contentLength % 2 ^ 64).toNat).1 with
      | none => (return400 rounds request (some path) "Request timed out").map .effect
      | some body =>
        (returnCGI context rounds request resolvedPath rootDirectory (some body)).map .effect

/-- `serveScript`, `worker.c:293–345`, with the call of `connection_read`. -/
def serveScriptRecorded (rounds : ℕ) (request : HttpT) (path rootDirectory resolvedPath : StringT)
    (socket : σ) : Outcome BodyEvent :=
  attempt (request.getHeader (StringT.fromBuffer (ascii "Expect"))) fun (expects, request) ↦
  attempt (request.getHeader (StringT.fromBuffer (ascii "Content-Length")))
    fun (contentLengthString, request) ↦
  (answerScriptRecorded context reader rounds request path rootDirectory resolvedPath socket
    expects contentLengthString).andThen ((freeRequest request).map .effect)

/-! ### The effects -/

omit [FreshBytes] in
private theorem toEffect_map (outcome : Outcome Effect) :
    (outcome.map BodyEvent.effect).filterMap BodyEvent.toEffect = outcome :=
  filterMap_map (f := BodyEvent.effect) (fun _ ↦ rfl) outcome

/-- Without the reading this is what serving a script does. -/
theorem effects_answerScriptRecorded (rounds : ℕ) (request : HttpT)
    (path rootDirectory resolvedPath : StringT) (socket : σ)
    (expects contentLengthString : Option StringT) :
    (answerScriptRecorded context reader rounds request path rootDirectory resolvedPath socket
        expects contentLengthString).filterMap BodyEvent.toEffect =
      answerScript context reader rounds request path rootDirectory resolvedPath socket expects
        contentLengthString := by
  cases contentLengthString with
  | none => exact toEffect_map _
  | some contentLengthString =>
    rw [answerScriptRecorded, answerScript, filterMap_attempt]
    congr 1
    funext digits
    dsimp only
    by_cases hlarge : atoi digits > requestMaxBodySize
    · rw [if_pos hlarge, if_pos hlarge]
      split <;> exact toEffect_map _
    · rw [if_neg hlarge, if_neg hlarge]
      by_cases hzero : atoi digits = 0
      · rw [if_pos hzero, if_pos hzero]
        split <;> exact toEffect_map _
      · rw [if_neg hzero, if_neg hzero, filterMap_emit_of_none rfl]
        cases (reader.read socket (atoi digits % 2 ^ 64).toNat).1 <;> exact toEffect_map _

theorem effects_serveScriptRecorded (rounds : ℕ) (request : HttpT)
    (path rootDirectory resolvedPath : StringT) (socket : σ) :
    (serveScriptRecorded context reader rounds request path rootDirectory resolvedPath
        socket).filterMap BodyEvent.toEffect =
      serveScript context reader rounds request path rootDirectory resolvedPath socket := by
  rw [serveScriptRecorded, serveScript, filterMap_attempt]
  congr 1
  funext expects
  dsimp only
  rw [filterMap_attempt]
  congr 1
  funext contentLengthString
  rw [filterMap_andThen, effects_answerScriptRecorded, toEffect_map]

/-! ### The length -/

omit [FreshBytes] in
/-- What `atoi` makes of a number. -/
theorem staysLarge_iff {digits : List UInt8} {n : ℕ} (h : StringT.Denotes digits n)
    (expects : Bool) : StaysLarge n expects ↔
      atoi digits > requestMaxBodySize ∨ atoi digits = 0 ∧ expects = true := by
  rw [StringT.atoi_eq_bmod h]
  unfold StaysLarge requestMaxBodySize
  by_cases hlong : n < 2 ^ 63 - 1
  · rw [min_eq_right (by omega), Int.bmod_def]
    cases expects <;> simp only [Bool.false_eq_true, and_false, or_false, and_true] <;> omega
  · have hneg : ((2 : Int) ^ 63 - 1).bmod (2 ^ 32) = -1 := by decide
    rw [min_eq_left (by omega), hneg]
    refine iff_of_false (fun hfits ↦ hlong hfits.1) ?_
    rintro (hlarge | ⟨hzero, -⟩) <;> omega

/-! ### Refusals -/

section Refusals

variable {P : UInt8 → Prop} {request : HttpT} (path rootDirectory resolvedPath : StringT)
  (socket : σ)

/-- Behind the lookups of the two headers. -/
private theorem events_serveScriptRecorded (h : request.MadeOf P) : ∃ request', ∀ rounds,
    (serveScriptRecorded context reader rounds request path rootDirectory resolvedPath
        socket).events =
      (answerScriptRecorded context reader rounds request' path rootDirectory resolvedPath socket
        (request.headerValue "Expect") (request.headerValue "Content-Length")).events := by
  obtain ⟨request₁, hexpect, hmade₁, hlooks₁, -⟩ := h.getHeader "Expect"
  obtain ⟨request₂, hlength, -, -, -⟩ := hmade₁.getHeader "Content-Length"
  refine ⟨request₂, fun rounds ↦ ?_⟩
  rw [hlooks₁.headerValue] at hlength
  rw [serveScriptRecorded, hexpect, attempt_ok]
  dsimp only
  rw [hlength, attempt_ok]
  apply events_andThen_of_nil
  rw [events_map, events_freeRequest, List.map_nil]

omit [FreshBytes] in
private theorem refusesBody_congr {expects : Bool} {outcome outcome' : ℕ → Outcome BodyEvent}
    (h : ∀ rounds, (outcome rounds).events = (outcome' rounds).events) :
    RefusesBody expects outcome ↔ RefusesBody expects outcome' := by
  unfold RefusesBody
  simp only [h]

/-- A page with the code of the refusal is one. -/
private theorem refusesBody_returnPage {expects : Bool} {code : UInt16}
    (hcode : code = refusalCode expects) {create : ℕ → Checked PageT}
    (loggedPath : Checked (Option StringT))
    (h : AnswersOnce (fun rounds ↦ returnPage request code (create rounds) loggedPath)) :
    RefusesBody expects
      (fun rounds ↦ (returnPage request code (create rounds) loggedPath).map .effect) := by
  obtain ⟨n, hn⟩ := h
  refine ⟨n, fun rounds hrounds ↦ ?_⟩
  obtain ⟨bytes, hne, hevents⟩ := events_of_sendsOne
    (all_returnPage (fun bytes ↦ ⟨bytes, rfl⟩) request (create rounds) loggedPath)
    (hn rounds hrounds)
  refine ⟨bytes, hne, ?_⟩
  rw [events_map, hevents, hcode]
  rfl

/-- A page with another code is none. -/
private theorem not_refusesBody_returnPage {expects : Bool} {code : UInt16}
    (hcode : code ≠ refusalCode expects) (create : ℕ → Checked PageT)
    (loggedPath : Checked (Option StringT)) :
    ¬ RefusesBody expects
      (fun rounds ↦ (returnPage request code (create rounds) loggedPath).map .effect) := by
  rintro ⟨n, hn⟩
  obtain ⟨bytes, -, hevents⟩ := hn n (Nat.le_refl n)
  have hall := all_returnPage (P := fun event ↦ ∃ bytes, event = .response code bytes)
    (fun bytes ↦ ⟨bytes, rfl⟩) request (create n) loggedPath
  rw [events_map] at hevents
  obtain ⟨event, hevent, -⟩ := List.map_eq_singleton_iff.mp hevents
  obtain ⟨bytes', rfl⟩ := hall event (by rw [hevent]; exact List.mem_singleton.mpr rfl)
  rw [hevent] at hevents
  cases hevents
  exact hcode rfl

omit [FreshBytes] in
/-- A body that is read is not refused. -/
private theorem not_refusesBody_read {expects : Bool} (bytes : ℕ) (next : ℕ → Outcome BodyEvent) :
    ¬ RefusesBody expects (fun rounds ↦ emit (.read bytes) (next rounds)) := by
  rintro ⟨n, hn⟩
  obtain ⟨_, -, hevents⟩ := hn n (Nat.le_refl n)
  cases hevents

/-- For every request for a script whose `Content-Length` is a numeral, above the limit or not, and
whatever the connection, the file system and the script do: the body is refused exactly when the
number stays large as an `int`. -/
theorem refusesBody_iff (h : request.MadeOf P) {contentLength : StringT} {digits : List UInt8}
    (hlength : request.headerValue "Content-Length" = some contentLength)
    (hdigits : contentLength.cstr = .ok digits) {n : ℕ} (hdenotes : StringT.Denotes digits n) :
    (∀ rounds, (serveScriptRecorded context reader rounds request path rootDirectory resolvedPath
        socket).filterMap BodyEvent.toEffect =
      serveScript context reader rounds request path rootDirectory resolvedPath socket) ∧
    (RefusesBody (request.headerValue "Expect").isSome
      (fun rounds ↦ serveScriptRecorded context reader rounds request path rootDirectory
        resolvedPath socket) ↔
      StaysLarge n (request.headerValue "Expect").isSome) := by
  refine ⟨fun rounds ↦ effects_serveScriptRecorded context reader rounds request path
    rootDirectory resolvedPath socket, ?_⟩
  obtain ⟨request', hevents⟩ := events_serveScriptRecorded context reader path rootDirectory
    resolvedPath socket h
  rw [refusesBody_congr hevents, staysLarge_iff hdenotes, hlength]
  simp only [answerScriptRecorded, hdigits, attempt_ok]
  by_cases hmax : atoi digits > requestMaxBodySize
  · simp only [if_pos hmax]
    refine iff_of_true ?_ (.inl hmax)
    cases (request.headerValue "Expect").isSome with
    | false => exact refusesBody_returnPage rfl _ (answersOnce_return413 request' _)
    | true => exact refusesBody_returnPage rfl _ (answersOnce_return417 request' _)
  · simp only [if_neg hmax]
    by_cases hzero : atoi digits = 0
    · simp only [if_pos hzero]
      cases (request.headerValue "Expect").isSome with
      | false =>
        refine iff_of_false (not_refusesBody_returnPage (by decide) _ _) ?_
        rintro (hgt | ⟨-, hexpects⟩)
        · exact hmax hgt
        · cases hexpects
      | true =>
        refine iff_of_true ?_ (.inr ⟨hzero, rfl⟩)
        exact refusesBody_returnPage rfl _ (answersOnce_return417 request' _)
    · simp only [if_neg hzero]
      refine iff_of_false (not_refusesBody_read _ _) ?_
      rintro (hgt | ⟨hz, -⟩)
      · exact hmax hgt
      · exact hzero hz

end Refusals

/-! ### An upload -/

/-- The request for a script of a client that announces so many bytes, and whether its two lines
are accepted. -/
def upload (length : String) : Checked (Bool × HttpT) := do
  let (line, request) ← HttpT.parseRequestLine HttpT.create
    (StringT.fromBuffer (ascii "POST /e HTTP/1.1"))
  let (header, request) ←
    request.parseHeader (StringT.fromBuffer (ascii ("Content-Length: " ++ length)))
  return (line && header, request)

/-- A request whose lines are accepted is made of their characters. -/
private theorem madeOf_upload {length : String} {request : HttpT}
    (h : upload length = .ok (true, request)) : request.MadeOf AnyCharacter := by
  obtain ⟨⟨line, request₁⟩, hline, h⟩ := exists_of_bind_eq_ok h
  obtain ⟨⟨header, request₂⟩, hheader, h⟩ := exists_of_bind_eq_ok h
  have hboth : ((line && header, request₂) : Bool × HttpT) = (true, request) := Except.ok.inj h
  rw [Prod.mk.injEq, Bool.and_eq_true] at hboth
  obtain ⟨⟨rfl, rfl⟩, rfl⟩ := hboth
  have hmade : request₁.MadeOf AnyCharacter :=
    HttpT.parseRequestLine_madeOf (fun _ _ ↦ trivial) hline
  exact hmade.parseHeader (fun _ _ ↦ trivial) hheader

omit [FreshBytes] in
/-- The request can be made, without `Expect` and with the announced length. -/
private theorem exists_upload {length : String}
    (h : (@upload FreshBytes.zero length).map (fun result ↦ (result.1,
        result.2.headerValue "Expect", result.2.headerValue "Content-Length")) =
      .ok (true, none, some (StringT.fromBuffer (ascii length)))) :
    ∃ request, @upload FreshBytes.zero length = .ok (true, request) ∧
      request.headerValue "Expect" = none ∧
      request.headerValue "Content-Length" = some (StringT.fromBuffer (ascii length)) := by
  cases hupload : @upload FreshBytes.zero length with
  | error fault =>
    rw [hupload] at h
    cases h
  | ok result =>
    rw [hupload, checked_ok_map, Except.ok.injEq, Prod.mk.injEq, Prod.mk.injEq] at h
    obtain ⟨parsed, request⟩ := result
    obtain ⟨rfl, hexpect, hlength⟩ := h
    exact ⟨request, rfl, hexpect, hlength⟩

omit [FreshBytes] in
/-- Five million bytes are refused. -/
theorem refusesBody_five_million : ∃ request,
    @upload FreshBytes.zero "5000000" = .ok (true, request) ∧
    @RefusesBody false (fun rounds ↦ @serveScriptRecorded FreshBytes.zero _
      (formContext formScript) (plainReader formTraffic) rounds request
      (StringT.fromBuffer (ascii "/e")) (StringT.fromBuffer (ascii "/w"))
      (StringT.fromBuffer (ascii "/w/e")) ⟨48, 4⟩) := by
  let _ := FreshBytes.zero
  obtain ⟨request, hupload, hexpect, hlength⟩ :=
    @exists_upload "5000000" (by decide +kernel)
  refine ⟨request, hupload, ?_⟩
  have hiff := (refusesBody_iff (formContext formScript) (plainReader formTraffic)
    (StringT.fromBuffer (ascii "/e")) (StringT.fromBuffer (ascii "/w"))
    (StringT.fromBuffer (ascii "/w/e")) ⟨48, 4⟩ (madeOf_upload hupload) hlength
    (StringT.cstr_fromBuffer _) (n := 5000000) (by decide +kernel)).2
  rw [hexpect] at hiff
  exact hiff.mpr ⟨by decide, .inl ⟨by decide, by decide⟩⟩

omit [FreshBytes] in
/-- The length `2^32 + 1` is read as 1: a byte of the body is read for it. -/
theorem wrapped_length_not_refused : ∃ request,
    @upload FreshBytes.zero "4294967297" = .ok (true, request) ∧
    request.headerValue "Expect" = none ∧
    request.headerValue "Content-Length" = some (StringT.fromBuffer (ascii "4294967297")) ∧
    StringT.Denotes (ascii "4294967297") 4294967297 ∧ 4294967297 > requestMaxBodySize ∧
    ¬ @RefusesBody false (fun rounds ↦ @serveScriptRecorded FreshBytes.zero _
      (formContext formScript) (plainReader formTraffic) rounds request
      (StringT.fromBuffer (ascii "/e")) (StringT.fromBuffer (ascii "/w"))
      (StringT.fromBuffer (ascii "/w/e")) ⟨48, 4⟩) := by
  let _ := FreshBytes.zero
  obtain ⟨request, hupload, hexpect, hlength⟩ :=
    @exists_upload "4294967297" (by decide +kernel)
  refine ⟨request, hupload, hexpect, hlength, by decide +kernel, by decide, ?_⟩
  obtain ⟨request', hevents⟩ := events_serveScriptRecorded (formContext formScript)
    (plainReader formTraffic) (StringT.fromBuffer (ascii "/e")) (StringT.fromBuffer (ascii "/w"))
    (StringT.fromBuffer (ascii "/w/e")) ⟨48, 4⟩ (madeOf_upload hupload)
  have hone : atoi (cString (ascii "4294967297")) = 1 := by decide +kernel
  rw [refusesBody_congr hevents, hlength]
  simp only [answerScriptRecorded, StringT.cstr_fromBuffer, attempt_ok, hone,
    if_neg (show ¬ (1 : Int) > requestMaxBodySize by decide), if_neg one_ne_zero]
  exact not_refusesBody_read _ _

end Wsic.Worker
