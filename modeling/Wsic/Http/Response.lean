import Wsic.Lib.Transition
import Wsic.Http.Headers

/-!
# Response framing

Responses built by any sequence of `http_setVersion`, `http_setResponseCode`, `http_setHeader`
and `http_setBody`, and the bytes that `http_toResponseString` and `connection_write` hand to
the transport. Beside the message of the source runs the response that is meant, with its
headers keyed by name; the bytes are compared with it after every call.
-/

open CMemory Transition

namespace Wsic.HttpT

/-! ### The response that is meant -/

/-- A response: its headers have pairwise different names, in the order in which they were
first set. -/
structure Message where
  version : Option (List UInt8)
  code : UInt16
  codeText : Option (List UInt8)
  headers : KeyedList (Prod.fst : List UInt8 × List UInt8 → List UInt8)
  body : Option (List UInt8)

/-- The name of the header that frames the body. -/
def contentLength : List UInt8 := ascii "Content-Length"

/-- The version at the start of the status line, when one is set. -/
def versionText : Option (List UInt8) → List UInt8
  | none => []
  | some version => ascii "HTTP/" ++ version ++ [32]

/-- The status line. -/
def Message.statusLine (message : Message) : List UInt8 :=
  versionText message.version ++ StringT.decimal message.code.toNat ++ [32] ++
    message.codeText.getD [] ++ [13, 10]

/-- One header line. -/
def headerLine (header : List UInt8 × List UInt8) : List UInt8 :=
  header.1 ++ ascii ": " ++ header.2 ++ [13, 10]

/-- The status line, each header once, an empty line and the body. -/
def Message.bytes (message : Message) : List UInt8 :=
  message.statusLine ++ message.headers.entries.flatMap headerLine ++ [13, 10] ++
    message.body.getD []

/-- The number in `Content-Length` is the number of bytes of the body, and a response with a
body has this header. -/
def Message.LengthFits (message : Message) : Prop :=
  (∀ header, message.headers.get contentLength = some header →
    StringT.Denotes header.2 (message.body.getD []).length) ∧
  (message.body ≠ none → message.headers.get contentLength ≠ none)

/-! ### Building -/

/-- A string, in any state, whose content is free of CR, LF and NUL. -/
abbrev FieldString := { s : StringT // 13 ∉ s.content ∧ 10 ∉ s.content ∧ 0 ∉ s.content }

/-- One call. Versions and bodies are strings in any state, or null. -/
inductive Call where
  | setVersion (version : Option StringT)
  | setResponseCode (code : UInt16)
  | setHeader (key value : FieldString)
  | setBody (body : Option StringT)

/-- The message of the source with the response that is meant. -/
structure Response where
  http : HttpT
  message : Message

/-- Nothing is set yet. -/
def Response.create : Response := ⟨HttpT.create, ⟨none, 0, none, KeyedList.empty, none⟩⟩

/-- One call on both. -/
def Response.step [FreshBytes] (s : Response) : Call → Checked Response
  | .setVersion version => .ok
      { http := s.http.setVersion version
        message := { s.message with version := version.map StringT.content } }
  | .setResponseCode code => .ok
      { http := s.http.setResponseCode code
        message := { s.message with code := code, codeText := some (ascii (codeText code)) } }
  | .setHeader key value => do
    let http ← s.http.setHeader (some key.1) (some value.1)
    return { http := http
             message := { s.message with
               headers := s.message.headers.set (key.1.content, value.1.content) } }
  | .setBody none => do
    let http ← s.http.setBody none
    return { http := http, message := { s.message with body := none } }
  | .setBody (some body) => do
    let http ← s.http.setBody (some body)
    return { http := http
             message := { s.message with
               headers := s.message.headers.set (contentLength, StringT.decimal body.size)
               body := some body.content } }

/-- The bytes that reach the transport are those of the response that is meant, and the number
in its `Content-Length` is the number of bytes of its body. -/
def Response.Framed [FreshBytes] (s : Response) : Prop :=
  (∃ text http buffer, s.http.toResponseString = .ok (text, http) ∧ text.buffer = some buffer ∧
    connectionWrite buffer = s.message.bytes) ∧ s.message.LengthFits

/-- The string has a buffer, and this is its C string. -/
def ReadsAs (s : StringT) (text : List UInt8) : Prop := s.cstr = .ok text

instance (s : StringT) (text : List UInt8) : Decidable (ReadsAs s text) :=
  inferInstanceAs (Decidable (s.cstr = .ok text))

/-- No stored header has the hash of this name under another name. -/
def Message.HashFree (message : Message) (name : List UInt8) : Prop :=
  ∀ header ∈ message.headers.entries, HashTableT.hash header.1 = HashTableT.hash name →
    header.1 = name

/-- The condition on a call: its strings read as their contents, no name hides another one, the
size of the body is an `int`, and `Content-Length` is not set to another number than the
body's. -/
def Call.Frames (s : Response) : Call → Prop
  | .setVersion version => ∀ v, version = some v → ReadsAs v v.content
  | .setResponseCode _ => True
  | .setHeader key value => ReadsAs key.1 key.1.content ∧ ReadsAs value.1 value.1.content ∧
      s.message.HashFree key.1.content ∧
      (key.1.content = contentLength →
        StringT.Denotes value.1.content (s.message.body.getD []).length)
  | .setBody none => ∀ header, s.message.headers.get contentLength = some header →
      StringT.Denotes header.2 0
  | .setBody (some body) => ReadsAs body body.content ∧ body.size < 2 ^ 31 ∧
      s.message.HashFree contentLength

/-! ### Headers by hash and by name -/

/-- An entry of the table and the header that it stores. -/
def Shows (e : HashTableEntryT (Option StringT)) (header : List UInt8 × List UInt8) : Prop :=
  e.keyHash = HashTableT.hash header.1 ∧ ReadsAs e.key header.1 ∧
    ∃ value, e.value = some value ∧ ReadsAs value header.2

private theorem shows_putEntry {e : HashTableEntryT (Option StringT)}
    {header : List UInt8 × List UInt8} (he : Shows e header)
    {es : List (HashTableEntryT (Option StringT))} {headers : List (List UInt8 × List UInt8)}
    (h : List.Forall₂ Shows es headers)
    (hfree : ∀ other ∈ headers, HashTableT.hash other.1 = HashTableT.hash header.1 →
      other.1 = header.1) :
    List.Forall₂ Shows (KeyedList.putEntry HashTableEntryT.keyHash e es)
      (KeyedList.putEntry Prod.fst header headers) := by
  induction h with
  | nil => exact .cons he .nil
  | @cons x other es headers hx hes ih =>
    have hiff : x.keyHash = e.keyHash ↔ other.1 = header.1 := by
      rw [hx.1, he.1]
      exact ⟨hfree other List.mem_cons_self, fun hn ↦ by rw [hn]⟩
    rw [KeyedList.putEntry, KeyedList.putEntry]
    by_cases hn : other.1 = header.1
    · rw [if_pos (hiff.mpr hn), if_pos hn]
      exact .cons he hes
    · rw [if_neg (fun hk ↦ hn (hiff.mp hk)), if_neg hn]
      exact .cons hx (ih (fun o ho ↦ hfree o (List.mem_cons_of_mem _ ho)))

/-- The message of the source holds the parts of a response; its `Content-Length` may be any. -/
structure Carries (http : HttpT) (message : Message) : Prop where
  version : Option.Rel ReadsAs http.version message.version
  code : http.responseCode = message.code
  codeText : Option.Rel ReadsAs http.responseCodeText message.codeText
  headers : ∃ m, http.headers.Represents m ∧
    List.Forall₂ Shows m.entries message.headers.entries
  body : Option.Rel ReadsAs http.body message.body

/-- The message of the source is a representation of the response that is meant. -/
structure Response.Faithful (s : Response) : Prop extends Carries s.http s.message where
  length : s.message.LengthFits

theorem carries_create : Carries HttpT.create ⟨none, 0, none, KeyedList.empty, none⟩ where
  version := .none
  code := rfl
  codeText := .none
  headers := ⟨KeyedList.empty, HashTableT.represents_create, .nil⟩
  body := .none

theorem Response.faithful_create : Response.create.Faithful where
  toCarries := carries_create
  length := ⟨by rintro _ ⟨⟩, fun h ↦ absurd rfl h⟩

/-- Setting a header whose name hides no other one is the set of the response that is meant. -/
private theorem setHeader_shows {http : HttpT} {m : HashTableT.Map (Option StringT)}
    {headers : KeyedList (Prod.fst : List UInt8 × List UInt8 → List UInt8)}
    (hrep : http.headers.Represents m) (hshows : List.Forall₂ Shows m.entries headers.entries)
    {key value : StringT} {name text : List UInt8} (hkey : ReadsAs key name)
    (hvalue : ReadsAs value text)
    (hfree : ∀ other ∈ headers.entries, HashTableT.hash other.1 = HashTableT.hash name →
      other.1 = name) :
    ∃ table m', http.setHeader (some key) (some value) = .ok { http with headers := table } ∧
      table.Represents m' ∧ List.Forall₂ Shows m'.entries (headers.set (name, text)).entries := by
  obtain ⟨buffer, hbuffer, hname⟩ := StringT.exists_buffer_of_cstr hkey
  have hne : key.buffer ≠ none := by
    rw [hbuffer]
    exact Option.some_ne_none buffer
  have hhash : HashTableT.Key.hash ⟨key, hne⟩ = HashTableT.hash name := by
    rw [HashTableT.Key.hash, StringT.bytes, hbuffer, Option.getD_some, ← hname,
      HashTableT.hash_cString]
  obtain ⟨table, hset, hrep'⟩ := setHeader_spec hrep ⟨key, hne⟩ (some value)
  exact ⟨table, _, hset, hrep', shows_putEntry ⟨hhash, hkey, value, rfl, hvalue⟩ hshows hfree⟩

theorem toInt_of_lt {size : Nat} (h : size < 2 ^ 31) : toInt size = size := by
  rw [toInt, BitVec.toInt_ofNat']
  apply Int.bmod_eq_of_le <;> omega

/-! ### Sending -/

private theorem zero_notMem_getD {s : Option StringT} {text : Option (List UInt8)}
    (h : Option.Rel ReadsAs s text) : 0 ∉ text.getD [] := by
  cases h with
  | none => exact List.not_mem_nil
  | some h => exact StringT.zero_notMem_of_cstr h

private theorem zero_notMem_versionText {s : Option StringT} {version : Option (List UInt8)}
    (h : Option.Rel ReadsAs s version) : 0 ∉ versionText version := by
  cases h with
  | none => exact List.not_mem_nil
  | some h =>
    have hprotocol : (0 : UInt8) ∉ ascii "HTTP/" := by decide
    simp [versionText, StringT.zero_notMem_of_cstr h, hprotocol]

private theorem zero_notMem_headerLines {es : List (HashTableEntryT (Option StringT))}
    {headers : List (List UInt8 × List UInt8)} (h : List.Forall₂ Shows es headers) :
    0 ∉ headers.flatMap headerLine := by
  induction h with
  | nil => exact List.not_mem_nil
  | cons he _ ih =>
    obtain ⟨-, hkey, value, -, hvalue⟩ := he
    have hseparator : (0 : UInt8) ∉ ascii ": " := by decide
    rw [List.flatMap_cons, List.mem_append, not_or]
    refine ⟨?_, ih⟩
    simp [headerLine, StringT.zero_notMem_of_cstr hkey, StringT.zero_notMem_of_cstr hvalue,
      hseparator]

/-- A faithful message has no NUL, so nothing is lost on the way to the transport. -/
theorem Carries.zero_notMem_bytes {http : HttpT} {message : Message} (h : Carries http message) :
    0 ∉ message.bytes := by
  obtain ⟨m, -, hshows⟩ := h.headers
  have hversion := zero_notMem_versionText h.version
  have hcode := StringT.zero_notMem_decimal message.code.toNat
  have htext := zero_notMem_getD h.codeText
  have hheaders := zero_notMem_headerLines hshows
  have hbody := zero_notMem_getD h.body
  rw [Message.bytes, Message.statusLine]
  simp only [List.mem_append, not_or]
  exact ⟨⟨⟨⟨⟨⟨⟨hversion, hcode⟩, by decide⟩, htext⟩, by decide⟩, hheaders⟩, by decide⟩, hbody⟩

/-! ### Printing -/

section Printing

variable [FreshBytes]

private theorem appendVersion_prints {r : StringT} {a : List UInt8} (hr : r.Prints a)
    {s : Option StringT} {version : Option (List UInt8)} (h : Option.Rel ReadsAs s version) :
    ∃ r', appendVersion r s = .ok r' ∧ r'.Prints (a ++ versionText version) := by
  cases h with
  | none =>
    rw [versionText, List.append_nil]
    exact ⟨r, rfl, hr⟩
  | some h =>
    obtain ⟨r', hr', hp⟩ := (hr.appendBuffer (ascii "HTTP/")).append h
    refine ⟨r'.appendChar 32, ?_, ?_⟩
    · rw [appendVersion, hr']
      rfl
    · have hprotocol : cString (ascii "HTTP/") = ascii "HTTP/" := by decide
      rw [hprotocol] at hp
      rw [versionText]
      simpa only [List.append_assoc] using hp.appendChar (show (32 : UInt8) ≠ 0 by decide)

private theorem appendUnlessNull_prints {r : StringT} {a : List UInt8} (hr : r.Prints a)
    {s : Option StringT} {text : Option (List UInt8)} (h : Option.Rel ReadsAs s text) :
    ∃ r', UrlT.appendUnlessNull r s = .ok r' ∧ r'.Prints (a ++ text.getD []) := by
  cases h with
  | none =>
    rw [Option.getD_none, List.append_nil]
    exact ⟨r, rfl, hr⟩
  | some h => exact hr.append h

private theorem foldlM_appendHeader {r : StringT} {a : List UInt8} (hr : r.Prints a)
    {es : List (HashTableEntryT (Option StringT))} {headers : List (List UInt8 × List UInt8)}
    (h : List.Forall₂ Shows es headers) :
    ∃ r', (es.map (fun e ↦ (some e.key, some e.value))).foldlM appendHeader r = .ok r' ∧
      r'.Prints (a ++ headers.flatMap headerLine) := by
  induction h generalizing r a with
  | nil =>
    rw [List.flatMap_nil, List.append_nil]
    exact ⟨r, rfl, hr⟩
  | @cons e header es headers he hes ih =>
    obtain ⟨-, hkey, value, hvalue, hreads⟩ := he
    obtain ⟨r₁, h₁, hp₁⟩ := hr.append hkey
    obtain ⟨r₂, h₂, hp₂⟩ := (hp₁.appendBuffer (ascii ": ")).append hreads
    obtain ⟨r', hr', hp⟩ := ih (hp₂.appendBuffer [13, 10])
    refine ⟨r', ?_, ?_⟩
    · rw [List.map_cons, List.foldlM_cons, appendHeader]
      simp only [deref_some, checked_ok_bind, h₁, hvalue, Option.join_some, h₂]
      exact hr'
    · rw [List.flatMap_cons, headerLine]
      simp only [List.append_assoc] at hp ⊢
      exact hp

/-- The text of a message is the response that it holds. -/
theorem Carries.toResponseString {http : HttpT} {message : Message} (h : Carries http message) :
    ∃ text http', http.toResponseString = .ok (text, http') ∧ text.Prints message.bytes ∧
      Carries http' message := by
  obtain ⟨m, hrep, hshows⟩ := h.headers
  obtain ⟨table, hiterate, hrep'⟩ := hrep.iterate
  unfold HttpT.toResponseString
  dsimp only
  generalize 40 + http.headers.getLength * 40 + _ = bufferSize
  obtain ⟨r₁, h₁, hp₁⟩ :=
    appendVersion_prints (StringT.prints_create_setBufferSize bufferSize) h.version
  obtain ⟨r₂, h₂, hp₂⟩ := hp₁.append (StringT.cstr_fromInt_natCast http.responseCode.toNat)
  obtain ⟨r₃, h₃, hp₃⟩ :=
    appendUnlessNull_prints (hp₂.appendChar (show (32 : UInt8) ≠ 0 by decide)) h.codeText
  obtain ⟨r₄, h₄, hp₄⟩ := foldlM_appendHeader (hp₃.appendBuffer [13, 10]) hshows
  obtain ⟨r₅, h₅, hp₅⟩ := appendUnlessNull_prints (hp₄.appendBuffer [13, 10]) h.body
  refine ⟨r₅, { http with headers := table }, ?_, ?_,
    ⟨h.version, h.code, h.codeText, ⟨m, hrep', hshows⟩, h.body⟩⟩
  · simp only [h₁, h₂, h₃, hiterate, h₄, h₅, checked_ok_bind]
    rfl
  · have hnewline : cString [13, 10] = [13, 10] := by decide
    rw [hnewline, h.code] at hp₅
    rw [Message.bytes, Message.statusLine]
    simpa only [List.append_assoc, List.nil_append] using hp₅

/-- The text can be sent, and what is sent is the response. -/
theorem Carries.sent {http : HttpT} {message : Message} (h : Carries http message) :
    ∃ text http' buffer, http.toResponseString = .ok (text, http') ∧ text.buffer = some buffer ∧
      connectionWrite buffer = message.bytes ∧ Carries http' message := by
  obtain ⟨text, http', htext, hprints, hcarries⟩ := h.toResponseString
  have hne : message.bytes ≠ [] := by simp [Message.bytes]
  obtain ⟨buffer, hbuffer, hcstr⟩ :=
    StringT.exists_buffer_of_cstr (hprints.cstr h.zero_notMem_bytes hne)
  refine ⟨text, http', buffer, htext, hbuffer, ?_, hcarries⟩
  rw [connectionWrite, take_strlen, hcstr]

/-- Faithful messages are framed. -/
theorem Response.Faithful.framed {s : Response} (h : s.Faithful) : s.Framed := by
  obtain ⟨text, http, buffer, htext, hbuffer, hsent, -⟩ := h.toCarries.sent
  exact ⟨⟨text, http, buffer, htext, hbuffer, hsent⟩, h.length⟩

/-! ### Calls -/

omit [FreshBytes] in
theorem Carries.setVersion {http : HttpT} {message : Message} (h : Carries http message)
    {version : Option StringT} {text : Option (List UInt8)} (hv : Option.Rel ReadsAs version text) :
    Carries (http.setVersion version) { message with version := text } :=
  ⟨hv, h.code, h.codeText, h.headers, h.body⟩

omit [FreshBytes] in
/-- The texts of the codes are printable. -/
theorem printable_codeText (code : UInt16) : ∀ c ∈ ascii (codeText code), 32 ≤ c := by
  have hall : (ascii (codeText code)).all (32 ≤ ·) = true := by
    unfold codeText
    split <;> decide
  intro c hc
  exact of_decide_eq_true (List.all_eq_true.mp hall c hc)

omit [FreshBytes] in
theorem Carries.setResponseCode {http : HttpT} {message : Message} (h : Carries http message)
    (code : UInt16) : Carries (http.setResponseCode code)
      { message with code := code, codeText := some (ascii (HttpT.codeText code)) } := by
  refine ⟨h.version, rfl, .some ?_, h.headers, h.body⟩
  have htext := cString_eq_self (fun hz ↦ absurd (printable_codeText code 0 hz) (by decide))
  rw [codeToString, StringT.fromBuffer, htext, ReadsAs, StringT.cstr_fromBufferWithLength, htext]

omit [FreshBytes] in
theorem Carries.setHeader {http : HttpT} {message : Message} (h : Carries http message)
    {key value : StringT} {name text : List UInt8} (hkey : ReadsAs key name)
    (hvalue : ReadsAs value text) (hfree : message.HashFree name) :
    ∃ http', http.setHeader (some key) (some value) = .ok http' ∧
      Carries http' { message with headers := message.headers.set (name, text) } := by
  obtain ⟨m, hrep, hshows⟩ := h.headers
  obtain ⟨table, m, hset, hrep, hshows⟩ := setHeader_shows hrep hshows hkey hvalue hfree
  exact ⟨_, hset, h.version, h.code, h.codeText, ⟨m, hrep, hshows⟩, h.body⟩

theorem Carries.setBody {http : HttpT} {message : Message} (h : Carries http message)
    {body : StringT} {text length : List UInt8} (hbody : ReadsAs body text)
    (hlength : ReadsAs (StringT.fromInt (toInt body.size)) length)
    (hfree : message.HashFree contentLength) :
    ∃ http', http.setBody (some body) = .ok http' ∧
      Carries http' { message with
        headers := message.headers.set (contentLength, length)
        body := some text } := by
  have hkey : ReadsAs (StringT.fromBuffer (ascii "Content-Length")) contentLength := by decide
  have hwith : Carries { http with body := some body } { message with body := some text } :=
    ⟨h.version, h.code, h.codeText, h.headers, .some hbody⟩
  exact hwith.setHeader hkey hlength hfree

/-- A body of the size of an `int` has its size as `Content-Length`. -/
theorem readsAs_toInt {size : Nat} (h : size < 2 ^ 31) :
    ReadsAs (StringT.fromInt (toInt size)) (StringT.decimal size) := by
  rw [ReadsAs, toInt_of_lt h, StringT.cstr_fromInt_natCast]

private theorem Response.Faithful.setVersion {s : Response} (h : s.Faithful)
    {version : Option StringT} (hguard : (Call.setVersion version).Frames s) :
    ∃ s', s.step (.setVersion version) = .ok s' ∧ s'.Faithful := by
  have hv : Option.Rel ReadsAs version (version.map StringT.content) := by
    cases version with
    | none => exact .none
    | some v => exact .some (hguard v rfl)
  exact ⟨_, rfl, h.toCarries.setVersion hv, h.length⟩

private theorem Response.Faithful.setHeader {s : Response} (h : s.Faithful)
    {key value : FieldString} (hguard : (Call.setHeader key value).Frames s) :
    ∃ s', s.step (.setHeader key value) = .ok s' ∧ s'.Faithful := by
  obtain ⟨hkey, hvalue, hfree, hlength⟩ := hguard
  obtain ⟨http, hset, hcarries⟩ := h.toCarries.setHeader hkey hvalue hfree
  refine ⟨_, by rw [Response.step, hset]; rfl, hcarries, ?_⟩
  unfold Message.LengthFits
  rw [KeyedList.get_set]
  split
  · next hname =>
    refine ⟨?_, fun _ ↦ Option.some_ne_none _⟩
    rintro _ ⟨⟩
    exact hlength hname
  · exact h.length

private theorem Response.Faithful.setBody {s : Response} (h : s.Faithful) {body : StringT}
    (hguard : (Call.setBody (some body)).Frames s) :
    ∃ s', s.step (.setBody (some body)) = .ok s' ∧ s'.Faithful := by
  obtain ⟨hbody, hsize, hfree⟩ := hguard
  obtain ⟨http, hset, hcarries⟩ := h.toCarries.setBody hbody (readsAs_toInt hsize) hfree
  refine ⟨_, by rw [Response.step, hset]; rfl, hcarries, ?_⟩
  unfold Message.LengthFits
  rw [KeyedList.get_set, if_pos rfl]
  refine ⟨?_, fun _ ↦ Option.some_ne_none _⟩
  rintro _ ⟨⟩
  rw [Option.getD_some, StringT.length_content]
  exact StringT.decimal_denotes body.size

/-- A call that meets its condition keeps the message faithful. -/
theorem Response.Faithful.step {s : Response} (h : s.Faithful) {call : Call}
    (hguard : call.Frames s) : ∃ s', s.step call = .ok s' ∧ s'.Faithful := by
  cases call with
  | setVersion version => exact h.setVersion hguard
  | setResponseCode code =>
    exact ⟨_, rfl, h.toCarries.setResponseCode code, h.length⟩
  | setHeader key value => exact h.setHeader hguard
  | setBody body =>
    cases body with
    | none =>
      exact ⟨_, rfl, ⟨h.version, h.code, h.codeText, h.headers, .none⟩, hguard,
        fun hn ↦ absurd rfl hn⟩
    | some body => exact h.setBody hguard

/-- A response whose calls all meet their condition can be sent at every point of the run, and
is framed there. -/
theorem runs_framed {calls : List Call}
    (h : Guarded Response.step Call.Frames Response.create calls) {done : List Call}
    (hdone : done <+: calls) :
    ∃ s, exec Response.step Response.create done = .ok s ∧ s.Framed := by
  obtain ⟨s, hexec, hs⟩ := exec_of_guarded Response.faithful_create
    (fun _ _ hs hguard ↦ Response.Faithful.step hs hguard) (h.of_prefix hdone)
  exact ⟨s, hexec, hs.framed⟩

end Printing

/-- A version, a code, a header and a body. -/
theorem runs_framed_server : ∃ s, exec (@Response.step FreshBytes.zero) Response.create
    [.setVersion (some (StringT.fromBuffer (ascii "1.1"))), .setResponseCode 200,
      .setHeader ⟨StringT.fromBuffer (ascii "Server"), by decide⟩
        ⟨StringT.fromBuffer (ascii "wsic"), by decide⟩,
      .setBody (some (StringT.fromBuffer (ascii "hi")))] = .ok s ∧
        @Response.Framed FreshBytes.zero s := by
  refine @runs_framed FreshBytes.zero _ ?_ _ (List.prefix_refl _)
  refine guarded_cons.mpr ⟨by rintro _ ⟨⟩; decide, ?_⟩
  rintro _ ⟨⟩
  refine guarded_cons.mpr ⟨trivial, ?_⟩
  rintro _ ⟨⟩
  refine guarded_cons.mpr ⟨⟨by decide, by decide, by rintro _ ⟨⟩, ?_⟩, ?_⟩
  · intro hname
    exact absurd hname (by decide)
  rintro _ ⟨⟩
  refine guarded_cons.mpr ⟨⟨by decide, by decide, ?_⟩, fun _ _ ↦ guarded_nil⟩
  intro header hheader hhash
  cases List.mem_singleton.mp hheader
  exact absurd hhash (by decide)

/-- A body of the three bytes `61 00 62`: `Content-Length` is 3, and one byte of it is sent. -/
theorem nul_body_not_framed : ¬ ∃ s, exec (@Response.step FreshBytes.zero) Response.create
    [.setBody (some (StringT.fromBufferWithLength [97, 0, 98]))] = .ok s ∧
      @Response.Framed FreshBytes.zero s := by
  rintro ⟨s, hexec, ⟨text, http, buffer, htext, hbuffer, hwrite⟩, -⟩
  have hsent : (do
      let s ← exec (@Response.step FreshBytes.zero) Response.create
        [.setBody (some (StringT.fromBufferWithLength [97, 0, 98]))]
      let (text, _) ← @toResponseString FreshBytes.zero s.http
      return (text.buffer.map connectionWrite, s.message.bytes)) =
        .ok (some (ascii "0 \r\nContent-Length: 3\r\n\r\na"),
          ascii "0 \r\nContent-Length: 3\r\n\r\na" ++ [0, 98]) := by
    decide +kernel
  rw [hexec, checked_ok_bind, htext, checked_ok_bind] at hsent
  dsimp only at hsent
  rw [hbuffer, Option.map_some, hwrite] at hsent
  injection hsent with hpair
  injection hpair with hleft hright
  injection hleft with hleft
  rw [hleft] at hright
  exact absurd hright (by decide)

end Wsic.HttpT
