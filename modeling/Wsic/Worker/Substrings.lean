import Wsic.Http.HttpT
import Wsic.Lib.Traced
import Wsic.Path.Path
import Wsic.Resources.Resources

/-!
# Ranges of substrings

`string_substring` of `src/string/string.c` checks both indices against the size and then copies
`lastIndex - firstIndex` bytes, unsigned, without comparing the two. The functions here are those
of the model that call it, with the calls recorded; each computes what the function of the model
computes, and no call that passes the check has its indices the wrong way round.
-/

open CMemory Tracing

namespace Wsic

/-- A call of `string_substring`. -/
structure SubstringCall where
  string : StringT
  firstIndex : Nat
  lastIndex : Nat

namespace SubstringCall

/-- The check at the start of `string_substring` lets the call through. -/
def Passes (c : SubstringCall) : Prop :=
  ¬ (c.firstIndex ≥ c.string.size ∨ c.lastIndex > c.string.size)

/-- The length that is copied, a `size_t`. -/
def copiedLength (c : SubstringCall) : Nat :=
  (BitVec.ofNat 64 c.lastIndex - BitVec.ofNat 64 c.firstIndex).toNat

/-- A call that passes the check has its indices in order and copies no more than there is. -/
def Ordered (c : SubstringCall) : Prop :=
  c.Passes → c.firstIndex ≤ c.lastIndex ∧ c.copiedLength ≤ c.string.size

theorem ordered_of_le {string : StringT} {firstIndex lastIndex : Nat}
    (h : firstIndex ≤ lastIndex) : Ordered ⟨string, firstIndex, lastIndex⟩ := by
  intro hpasses
  refine ⟨h, ?_⟩
  have hlast : lastIndex ≤ string.size := Nat.not_lt.mp (fun hlt ↦ hpasses (.inr hlt))
  rw [copiedLength, BitVec.toNat_sub, BitVec.toNat_ofNat, BitVec.toNat_ofNat]
  dsimp only
  omega

/-- A range that reaches to the end of the string. -/
theorem ordered_to_end (string : StringT) (firstIndex : Nat) :
    Ordered ⟨string, firstIndex, string.size⟩ := by
  intro hpasses
  have hfirst : firstIndex < string.size := Nat.not_le.mp (fun hle ↦ hpasses (.inl hle))
  exact ordered_of_le hfirst.le hpasses

end SubstringCall

/-- `string_substring` with its call recorded. -/
def StringT.substringTraced (s : StringT) (firstIndex lastIndex : Nat) :
    Traced SubstringCall (Option StringT) :=
  .call ⟨s, firstIndex, lastIndex⟩ (s.substring firstIndex lastIndex)

/-- The recorded calls are in order, and without them this is the computation of the model. -/
structure RecordsOrdered {α : Type} (x : Traced SubstringCall α) (model : Checked α) : Prop where
  result : x.result = model
  ordered : x.All SubstringCall.Ordered

namespace RecordsOrdered

variable {α β : Type}

theorem pure (a : α) : RecordsOrdered (Pure.pure a) (.ok a) := ⟨rfl, Traced.all_pure a⟩

theorem liftM (x : Checked α) : RecordsOrdered (MonadLiftT.monadLift x) x :=
  ⟨rfl, Traced.all_liftM x⟩

theorem substring {s : StringT} {firstIndex lastIndex : Nat}
    (h : SubstringCall.Ordered ⟨s, firstIndex, lastIndex⟩) :
    RecordsOrdered (s.substringTraced firstIndex lastIndex) (s.substring firstIndex lastIndex) :=
  ⟨rfl, Traced.all_call h _⟩

/-- One step after the other, in the model as in the recording. -/
theorem bind {x : Traced SubstringCall α} {model : Checked α} {f : α → Traced SubstringCall β}
    {g : α → Checked β} (h : RecordsOrdered x model) (hf : ∀ a, RecordsOrdered (f a) (g a)) :
    RecordsOrdered (x >>= f) (model >>= g) := by
  refine ⟨?_, Traced.all_bind h.ordered (fun a _ ↦ (hf a).ordered)⟩
  rw [Traced.result_bind, h.result]
  exact congrArg _ (funext fun a ↦ (hf a).result)

/-- Either branch of a condition. -/
theorem ite {p : Prop} [Decidable p] {x y : Traced SubstringCall α} {model model' : Checked α}
    (h : RecordsOrdered x model) (h' : RecordsOrdered y model') :
    RecordsOrdered (if p then x else y) (if p then model else model') := by
  split
  · exact h
  · exact h'

end RecordsOrdered

/-! ### Messages -/

namespace HttpT

/-- `http_parseHeader`, `http.c:246`. -/
def parseHeaderTraced (http : HttpT) (string : StringT) :
    Traced SubstringCall (Bool × HttpT) := do
  match ((StringCursorT.create string).findNextChar 58).1 with
  | none => return (false, http)
  | some offset =>
    if string.getCharAt (offset + 1) ≠ 32 then return (false, http)
    else
      let key ← string.substringTraced 0 offset
      let value ← string.substringTraced (offset + 2) string.size
      match value with
      | none => return (false, http)
      | some value => return (true, ← http.setHeader key (some value))

theorem parseHeaderTraced_ordered (http : HttpT) (string : StringT) :
    RecordsOrdered (http.parseHeaderTraced string) (http.parseHeader string) := by
  unfold parseHeaderTraced parseHeader
  cases ((StringCursorT.create string).findNextChar 58).1 with
  | none => exact .pure _
  | some offset =>
    apply RecordsOrdered.ite (.pure _)
    apply RecordsOrdered.bind (.substring (SubstringCall.ordered_of_le (Nat.zero_le offset)))
    intro key
    apply RecordsOrdered.bind (.substring (SubstringCall.ordered_to_end string (offset + 2)))
    intro value
    cases value with
    | none => exact .pure _
    | some value => exact .bind (.liftM _) (fun _ ↦ .pure _)

/-- `http_parseHost`, `http.c:334`. -/
def parseHostTraced (http : HttpT) : Traced SubstringCall (Bool × HttpT) := do
  let (host, http) ← http.getHeader (StringT.fromBuffer (ascii "Host"))
  match host with
  | none => return (false, http)
  | some host =>
    let url := http.url.getD UrlT.create
    match ((StringCursorT.create host).findNextChar 58).1 with
    | none =>
      let domainName := StringT.fromBuffer (← deref host.buffer)
      return (true, { http with url := some ((url.setPort 80).setDomainName (some domainName)) })
    | some parameter =>
      let portString ← deref (← host.substringTraced (parameter + 1) host.size)
      let port := atoi (← portString.cstr)
      if port < 0 ∨ port > 65536 then return (false, { http with url := some url })
      else
        let domainName ← host.substringTraced 0 parameter
        return (true, { http with
          url := some ((url.setPort (UInt16.ofNat port.toNat)).setDomainName domainName) })

theorem parseHostTraced_ordered (http : HttpT) :
    RecordsOrdered http.parseHostTraced http.parseHost := by
  unfold parseHostTraced parseHost
  apply RecordsOrdered.bind (.liftM _)
  rintro ⟨host, http⟩
  cases host with
  | none => exact .pure _
  | some host =>
    dsimp only
    cases ((StringCursorT.create host).findNextChar 58).1 with
    | none => exact .bind (.liftM _) (fun _ ↦ .pure _)
    | some parameter =>
      apply RecordsOrdered.bind (.substring (SubstringCall.ordered_to_end host (parameter + 1)))
      intro portString
      apply RecordsOrdered.bind (.liftM _)
      intro portString
      apply RecordsOrdered.bind (.liftM _)
      intro port
      apply RecordsOrdered.ite (.pure _)
      apply RecordsOrdered.bind (.substring (SubstringCall.ordered_of_le (Nat.zero_le parameter)))
      exact fun _ ↦ .pure _

/-- The loop of `http_parseRequestTarget`, `http.c:309–328`. -/
def parametersLoopTraced (requestTarget : StringT) :
    Nat → Nat → StringCursorT → UrlT → Traced SubstringCall (Bool × UrlT)
  | 0, _, _, _ => liftM (m := Checked) (.error .nonTermination)
  | rounds + 1, firstParameter, cursor, url => do
    let secondParameter := firstParameter + 1
    let (found, cursor) := cursor.findNextChar 61
    match found with
    | none => return (false, url)
    | some firstParameter =>
      let key ← requestTarget.substringTraced secondParameter firstParameter
      let secondParameter := firstParameter + 1
      let (found, cursor) := cursor.findNextChar 38
      match found with
      | none =>
        let value ← requestTarget.substringTraced secondParameter requestTarget.size
        let url ← url.setParameter key value
        return (true, url)
      | some firstParameter =>
        let value ← requestTarget.substringTraced secondParameter firstParameter
        let url ← url.setParameter key value
        parametersLoopTraced requestTarget rounds firstParameter cursor url

/-- The cursor stays behind the last parameter, so that every key and every value ends behind
its start. -/
theorem parametersLoopTraced_ordered (requestTarget : StringT) (rounds firstParameter : Nat)
    (cursor : StringCursorT) (hcursor : firstParameter < cursor.offset) (url : UrlT) :
    RecordsOrdered (parametersLoopTraced requestTarget rounds firstParameter cursor url)
      (parametersLoop requestTarget rounds firstParameter cursor url) := by
  induction rounds generalizing firstParameter cursor url with
  | zero => exact .liftM _
  | succ rounds ih =>
    rw [parametersLoopTraced, parametersLoop]
    rcases hkey : cursor.findNextChar 61 with ⟨_ | equals, cursor₁⟩
    · exact .pure _
    · obtain ⟨hle, -, hcursor₁⟩ := StringCursorT.findNextChar_of_some hkey
      dsimp only
      apply RecordsOrdered.bind (.substring (SubstringCall.ordered_of_le (by omega)))
      intro key
      rcases hvalue : cursor₁.findNextChar 38 with ⟨_ | ampersand, cursor₂⟩
      · apply RecordsOrdered.bind (.substring (SubstringCall.ordered_to_end _ _))
        exact fun value ↦ .bind (.liftM _) (fun _ ↦ .pure _)
      · obtain ⟨hle', -, hcursor₂⟩ := StringCursorT.findNextChar_of_some hvalue
        rw [hcursor₁] at hle'
        apply RecordsOrdered.bind (.substring (SubstringCall.ordered_of_le hle'))
        intro value
        apply RecordsOrdered.bind (.liftM _)
        intro url
        apply ih
        rw [hcursor₂]
        exact Nat.lt_succ_self ampersand

/-- `http_parseRequestTarget`, `http.c:286`, with at most this many rounds of its loop. -/
def parseRequestTargetTraced (rounds : Nat) (url : UrlT) (requestTarget : StringT) :
    Traced SubstringCall (Bool × UrlT) := do
  let (firstParameter, cursor) := (StringCursorT.create requestTarget).findNextChar 63
  match firstParameter with
  | none =>
    let path ← requestTarget.substringTraced 0 requestTarget.size
    return (true, url.setPath path)
  | some firstParameter =>
    let path ← requestTarget.substringTraced 0 firstParameter
    let url := url.setPath path
    let (current, cursor) := cursor.getNextChar
    if current = 0 then return (true, url)
    else parametersLoopTraced requestTarget rounds firstParameter cursor url

theorem parseRequestTargetTraced_ordered (url : UrlT) (requestTarget : StringT) :
    RecordsOrdered (parseRequestTargetTraced requestTarget.size url requestTarget)
      (parseRequestTarget url requestTarget) := by
  unfold parseRequestTargetTraced parseRequestTarget
  rcases hfind : (StringCursorT.create requestTarget).findNextChar 63 with ⟨_ | question, cursor⟩
  · exact .bind (.substring (SubstringCall.ordered_to_end _ _)) (fun _ ↦ .pure _)
  · obtain ⟨-, -, hcursor⟩ := StringCursorT.findNextChar_of_some hfind
    dsimp only
    apply RecordsOrdered.bind (.substring (SubstringCall.ordered_of_le (Nat.zero_le question)))
    intro path
    apply RecordsOrdered.ite (.pure _)
    apply parametersLoopTraced_ordered
    rw [hcursor]
    unfold StringCursorT.getNextChar
    dsimp only
    split
    · exact Nat.lt_succ_self question
    · exact (Nat.lt_succ_self question).trans (Nat.lt_succ_self _)

/-- A round takes two characters off what is to be read, so more rounds than characters change
nothing. -/
private theorem parametersLoopTraced_succ (requestTarget : StringT) (rounds firstParameter : Nat)
    (cursor : StringCursorT) (hcursor : cursor.string = requestTarget)
    (hrounds : requestTarget.size - cursor.offset < rounds) (url : UrlT) :
    parametersLoopTraced requestTarget (rounds + 1) firstParameter cursor url =
      parametersLoopTraced requestTarget rounds firstParameter cursor url := by
  induction rounds generalizing firstParameter cursor url with
  | zero => omega
  | succ rounds ih =>
    rw [parametersLoopTraced, parametersLoopTraced]
    rcases hkey : cursor.findNextChar 61 with ⟨_ | equals, cursor₁⟩
    · rfl
    · obtain ⟨hle, hlt, hcursor₁⟩ := StringCursorT.findNextChar_of_some hkey
      dsimp only
      congr 1
      funext key
      rcases hvalue : cursor₁.findNextChar 38 with ⟨_ | ampersand, cursor₂⟩
      · rfl
      · obtain ⟨hle', hlt', hcursor₂⟩ := StringCursorT.findNextChar_of_some hvalue
        rw [hcursor₁] at hle' hlt' hcursor₂
        dsimp only at hle' hlt' ⊢
        congr 1
        funext value
        congr 1
        funext url
        apply ih
        · rw [hcursor₂, hcursor]
        · rw [hcursor] at hlt hlt'
          rw [hcursor₂]
          dsimp only
          omega

/-- The number of rounds that the model allows is enough for every target. -/
theorem parseRequestTargetTraced_rounds (url : UrlT) (requestTarget : StringT) {rounds : Nat}
    (h : requestTarget.size ≤ rounds) : parseRequestTargetTraced rounds url requestTarget =
      parseRequestTargetTraced requestTarget.size url requestTarget := by
  induction rounds, h using Nat.le_induction with
  | base => rfl
  | succ rounds hrounds ih =>
    rw [← ih]
    unfold parseRequestTargetTraced
    rcases hfind : (StringCursorT.create requestTarget).findNextChar 63 with
      ⟨_ | question, cursor⟩
    · rfl
    · obtain ⟨-, hlt, hcursor⟩ := StringCursorT.findNextChar_of_some hfind
      change question < requestTarget.size at hlt
      dsimp only
      congr 1
      funext path
      congr 1
      apply parametersLoopTraced_succ
      · rw [hcursor]
        unfold StringCursorT.getNextChar
        split <;> rfl
      · rw [hcursor]
        unfold StringCursorT.getNextChar
        split <;> dsimp only <;> omega

/-- The end of `http_parseRequestLine`, `http.c:202–243`. -/
def parseVersionTraced (versionString : StringT) : Traced SubstringCall (Option StringT) := do
  match ← versionString.substringTraced 0 5 with
  | none => return none
  | some compareString =>
    if ← compareString.equalsBuffer (ascii "HTTP/") then
      match ← versionString.substringTraced 5 8 with
      | none => return none
      | some version => return if isVersionNumber version then some version else none
    else return none

theorem parseVersionTraced_ordered (versionString : StringT) :
    RecordsOrdered (parseVersionTraced versionString) (parseVersion versionString) := by
  unfold parseVersionTraced parseVersion
  apply RecordsOrdered.bind (.substring (SubstringCall.ordered_of_le (Nat.zero_le 5)))
  intro compareString
  cases compareString with
  | none => exact .pure _
  | some compareString =>
    apply RecordsOrdered.bind (.liftM _)
    intro equal
    apply RecordsOrdered.ite _ (.pure _)
    apply RecordsOrdered.bind (.substring (SubstringCall.ordered_of_le (by decide)))
    intro version
    cases version <;> exact .pure _

/-- `http_parseRequestLine`, `http.c:125`. -/
def parseRequestLineTraced [FreshBytes] (http : HttpT) (string : StringT) :
    Traced SubstringCall (Bool × HttpT) := do
  let (current, tempString, cursor) := (StringCursorT.create string).appendUntil 32
  if current = 0 then return (false, http)
  else
    let http := { http with method := ← parseMethod tempString }
    let url := (http.url.getD UrlT.create).setProtocol (some (StringT.fromBuffer (ascii "http")))
    let (current, requestTarget, cursor) := cursor.appendUntil 32
    if current = 0 then return (false, { http with url := some url })
    else
      let (correctlyParsed, url) ← parseRequestTargetTraced requestTarget.size url requestTarget
      let http := { http with url := some url }
      if correctlyParsed = false then return (false, http)
      else
        let (_, versionString, _) := cursor.appendUntil 0
        match ← parseVersionTraced versionString with
        | none => return (false, http)
        | some version => return (true, http.setVersion (some version))

theorem parseRequestLineTraced_ordered [FreshBytes] (http : HttpT) (string : StringT) :
    RecordsOrdered (http.parseRequestLineTraced string) (http.parseRequestLine string) := by
  unfold parseRequestLineTraced parseRequestLine
  apply RecordsOrdered.ite (.pure _)
  apply RecordsOrdered.bind (.liftM _)
  intro method
  apply RecordsOrdered.ite (.pure _)
  apply RecordsOrdered.bind (parseRequestTargetTraced_ordered _ _)
  rintro ⟨correctlyParsed, url⟩
  apply RecordsOrdered.ite (.pure _)
  apply RecordsOrdered.bind (parseVersionTraced_ordered _)
  intro version
  cases version <;> exact .pure _

end HttpT

/-! ### Paths, files and lines -/

namespace Path

/-- `path_resolve`, `path.c:7`. -/
def resolveTraced [FreshBytes] (fs : FileSystem) (relativePath root : StringT) :
    Traced SubstringCall (Option StringT) := do
  let path := (StringT.fromBufferWithLength root.content).appendChar 47
  let path ← path.append relativePath
  match fs.realpath (← path.cstr) with
  | none => return none
  | some resolvedPathBuffer =>
    let resolvedPath := StringT.fromBuffer resolvedPathBuffer.1
    match ← resolvedPath.substringTraced 0 root.size with
    | none => return none
    | some resolvedRoot =>
      if ← resolvedRoot.equals root then return some resolvedPath else return none

theorem resolveTraced_ordered [FreshBytes] (fs : FileSystem) (relativePath root : StringT) :
    RecordsOrdered (resolveTraced fs relativePath root) (resolve fs relativePath root) := by
  unfold resolveTraced resolve
  apply RecordsOrdered.bind (.liftM _)
  intro path
  apply RecordsOrdered.bind (.liftM _)
  intro text
  cases fs.realpath text with
  | none => exact .pure _
  | some resolvedPathBuffer =>
    apply RecordsOrdered.bind (.substring (SubstringCall.ordered_of_le (Nat.zero_le _)))
    intro resolvedRoot
    cases resolvedRoot with
    | none => exact .pure _
    | some resolvedRoot => exact .bind (.liftM _) (fun _ ↦ .ite (.pure _) (.pure _))

/-- `path_relativeTo`, `path.c:41`. -/
def relativeToTraced (fs : FileSystem) (path root : StringT) :
    Traced SubstringCall (Option StringT) := do
  match fs.realpath (← path.cstr) with
  | none => return none
  | some resolvedPathBuffer =>
    let resolvedPath := StringT.fromBuffer resolvedPathBuffer.1
    match ← resolvedPath.substringTraced 0 root.size with
    | none => return none
    | some resolvedRoot =>
      if ← resolvedRoot.equals root then
        resolvedPath.substringTraced root.size resolvedPath.size
      else return none

theorem relativeToTraced_ordered (fs : FileSystem) (path root : StringT) :
    RecordsOrdered (relativeToTraced fs path root) (relativeTo fs path root) := by
  unfold relativeToTraced relativeTo
  apply RecordsOrdered.bind (.liftM _)
  intro text
  cases fs.realpath text with
  | none => exact .pure _
  | some resolvedPathBuffer =>
    apply RecordsOrdered.bind (.substring (SubstringCall.ordered_of_le (Nat.zero_le _)))
    intro resolvedRoot
    cases resolvedRoot with
    | none => exact .pure _
    | some resolvedRoot =>
      apply RecordsOrdered.bind (.liftM _)
      exact fun _ ↦ .ite (.substring (SubstringCall.ordered_to_end _ _)) (.pure _)

end Path

namespace Resources

/-- `resources_getMIMEType`, `resources.c:57`. -/
def getMIMETypeTraced (filePath : StringT) : Traced SubstringCall (Option StringT) :=
  match ((StringCursorT.create filePath).findNextChar 46).1 with
  | none => return none
  | some dotIndex => do
    match ← filePath.substringTraced dotIndex filePath.size with
    | none => return none
    | some extension => findMIMEType extension mimeTypes

theorem getMIMETypeTraced_ordered (filePath : StringT) :
    RecordsOrdered (getMIMETypeTraced filePath) (getMIMEType filePath) := by
  unfold getMIMETypeTraced getMIMEType
  cases ((StringCursorT.create filePath).findNextChar 46).1 with
  | none => exact .pure _
  | some dotIndex =>
    apply RecordsOrdered.bind (.substring (SubstringCall.ordered_to_end _ _))
    intro extension
    cases extension with
    | none => exact .pure _
    | some extension => exact .liftM _

end Resources

namespace StringCursorT

/-- `string_getNextLine`, `string.c:228`. -/
def getNextLineTraced (cursor : StringCursorT) :
    Traced SubstringCall (Option StringT × StringCursorT) :=
  if cursor.offset ≥ cursor.string.size then return (none, cursor)
  else do
    let start := cursor.offset
    let (found, cursor) := cursor.findNextChar 10
    let lastLineIndex : Int := (found.map Int.ofNat).getD (-1)
    let lastContentIndex : Int :=
      if lastLineIndex > 0 then
        if cursor.string.getCharAt (lastLineIndex - 1).toNat = 13 then lastLineIndex - 1
        else lastLineIndex
      else cursor.string.size
    if lastContentIndex ≥ start then
      let line ← cursor.string.substringTraced start lastContentIndex.toNat
      return (line, cursor)
    else return (some (StringT.fromBuffer []), cursor)

/-- The signed comparison with the start of the line keeps the range in order. -/
theorem getNextLineTraced_ordered (cursor : StringCursorT) :
    RecordsOrdered cursor.getNextLineTraced cursor.getNextLine := by
  unfold getNextLineTraced getNextLine
  apply RecordsOrdered.ite (.pure _)
  rcases cursor.findNextChar 10 with ⟨found, cursor'⟩
  dsimp only
  generalize (if (found.map Int.ofNat).getD (-1) > 0 then _ else _ : Int) = lastContentIndex
  by_cases hstart : lastContentIndex ≥ cursor.offset
  · rw [if_pos hstart, if_pos hstart]
    apply RecordsOrdered.bind (.substring (SubstringCall.ordered_of_le (by omega)))
    exact fun _ ↦ .pure _
  · rw [if_neg hstart, if_neg hstart]
    exact .pure _

end StringCursorT

/-! ### All of them -/

/-- For every input of the functions that call `string_substring`, from any offset of a cursor and
with any number of rounds of the loop over parameters: every call that passes the check has
`firstIndex ≤ lastIndex` and copies at most the size of its string. -/
theorem substrings_ordered [FreshBytes] (fs : FileSystem) (http : HttpT) (url : UrlT)
    (string root : StringT) (cursor : StringCursorT) :
    RecordsOrdered (http.parseRequestLineTraced string) (http.parseRequestLine string) ∧
    RecordsOrdered (HttpT.parseRequestTargetTraced string.size url string)
      (HttpT.parseRequestTarget url string) ∧
    (∀ rounds ≥ string.size, HttpT.parseRequestTargetTraced rounds url string =
      HttpT.parseRequestTargetTraced string.size url string) ∧
    RecordsOrdered (http.parseHeaderTraced string) (http.parseHeader string) ∧
    RecordsOrdered http.parseHostTraced http.parseHost ∧
    RecordsOrdered (Resources.getMIMETypeTraced string) (Resources.getMIMEType string) ∧
    RecordsOrdered (Path.resolveTraced fs string root) (Path.resolve fs string root) ∧
    RecordsOrdered (Path.relativeToTraced fs string root) (Path.relativeTo fs string root) ∧
    RecordsOrdered cursor.getNextLineTraced cursor.getNextLine :=
  ⟨http.parseRequestLineTraced_ordered string,
    HttpT.parseRequestTargetTraced_ordered url string,
    fun _ ↦ HttpT.parseRequestTargetTraced_rounds url string,
    http.parseHeaderTraced_ordered string,
    http.parseHostTraced_ordered,
    Resources.getMIMETypeTraced_ordered string,
    Path.resolveTraced_ordered fs string root,
    Path.relativeToTraced_ordered fs string root,
    cursor.getNextLineTraced_ordered⟩

end Wsic
