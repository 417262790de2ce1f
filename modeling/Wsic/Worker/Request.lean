import Wsic.Http.RequestLine
import Wsic.Http.Host
import Wsic.Worker.WorkerT

/-!
# The request of a connection

What the loop over the header lines and the parser of the `Host` header leave: every string of
the request is a fresh one, or null where the code allows it, and all its characters come from the
lines. The characters are those that meet a condition, whatever the condition is.
-/

open CMemory

namespace Wsic

section Strings

variable {P : UInt8 → Prop}

/-- A fresh string whose characters all meet the condition. -/
def FreshText (P : UInt8 → Prop) (s : StringT) : Prop :=
  ∃ b, s = StringT.fromBufferWithLength b ∧ ∀ c ∈ b, P c

/-- Such a string, or null. -/
def FreshField (P : UInt8 → Prop) (s : Option StringT) : Prop := ∀ t, s = some t → FreshText P t

theorem freshField_none : FreshField P none := fun _ h ↦ nomatch h

theorem FreshText.field {s : StringT} (h : FreshText P s) : FreshField P (some s) := by
  rintro _ ⟨⟩
  exact h

theorem FreshText.buffer {s : StringT} (h : FreshText P s) : s.buffer ≠ none := by
  obtain ⟨b, rfl, -⟩ := h
  exact Option.some_ne_none _

theorem FreshText.copy_eq {s : StringT} (h : FreshText P s) : s.copy = s := by
  obtain ⟨b, rfl, -⟩ := h
  exact UrlT.copy_fromBufferWithLength b

/-- The C string of such a string. -/
theorem FreshText.cstr {s : StringT} (h : FreshText P s) :
    ∃ text, s.cstr = .ok text ∧ ∀ c ∈ text, P c := by
  obtain ⟨b, rfl, hb⟩ := h
  exact ⟨_, StringT.cstr_fromBufferWithLength b, fun c hc ↦ hb c (List.takeWhile_subset _ hc)⟩

/-- A part of a string is a fresh string of its characters, or null. -/
theorem freshField_substring {s : StringT} (h : ∀ c ∈ s.content, P c) {first last : ℕ}
    {part : Option StringT} (hpart : s.substring first last = .ok part) : FreshField P part := by
  rintro t rfl
  by_cases hout : s.size ≤ first ∨ s.size < last
  · rw [StringT.substring_of_not hout] at hpart
    cases hpart
  · rw [not_or, not_le, not_lt] at hout
    by_cases hle : first ≤ last
    · rw [StringT.substring_of_le hle hout.1 hout.2] at hpart
      cases hpart
      refine ⟨_, rfl, ?_⟩
      intro c hc
      exact h c (List.mem_of_mem_drop (List.mem_of_mem_take hc))
    · unfold StringT.substring at hpart
      rw [if_neg (by omega)] at hpart
      split at hpart
      · cases hpart
      · rw [if_pos (by omega)] at hpart
        cases hpart

end Strings

/-! ### URLs -/

namespace UrlT

variable {P : UInt8 → Prop}

/-- What the client has sent of a URL. -/
structure MadeOf (P : UInt8 → Prop) (url : UrlT) : Prop where
  domainName : FreshField P url.domainName
  path : FreshField P url.path
  parameters : ∃ m, url.parameters.Represents m ∧
    ∀ e ∈ m.entries, FreshText P e.key ∧ FreshField P e.value

theorem madeOf_newUrl : MadeOf P HttpT.newUrl where
  domainName := freshField_none
  path := freshField_none
  parameters := ⟨KeyedList.empty, HashTableT.represents_create, fun _ he ↦ nomatch he⟩

theorem MadeOf.setPath {url : UrlT} (h : url.MadeOf P) {path : Option StringT}
    (hpath : FreshField P path) : (url.setPath path).MadeOf P :=
  ⟨h.domainName, hpath, h.parameters⟩

theorem MadeOf.setParameter {url url' : UrlT} (h : url.MadeOf P) {key value : Option StringT}
    (hkey : FreshField P key) (hvalue : FreshField P value)
    (hset : url.setParameter key value = .ok url') : url'.MadeOf P := by
  obtain ⟨m, hrep, hm⟩ := h.parameters
  cases key with
  | none => cases hset
  | some key =>
    have hk := hkey key rfl
    obtain ⟨table, hset', hrep'⟩ := setParameter_spec hrep ⟨key, hk.buffer⟩ value
    rw [hset'] at hset
    cases hset
    refine ⟨h.domainName, h.path, _, hrep', ?_⟩
    intro e he
    rcases KeyedList.mem_set he with rfl | he
    · exact ⟨hk, hvalue⟩
    · exact hm e he

end UrlT

namespace HttpT

variable {P : UInt8 → Prop}

theorem parametersLoop_madeOf {requestTarget : StringT} (ht : ∀ c ∈ requestTarget.content, P c)
    {rounds firstParameter : ℕ} {cursor : StringCursorT} {url : UrlT} (h : url.MadeOf P)
    {result : Bool × UrlT}
    (hloop : parametersLoop requestTarget rounds firstParameter cursor url = .ok result) :
    result.2.MadeOf P := by
  induction rounds generalizing firstParameter cursor url with
  | zero => cases hloop
  | succ rounds ih =>
    rw [parametersLoop] at hloop
    dsimp only at hloop
    split at hloop
    · cases hloop
      exact h
    · obtain ⟨key, hkey, hloop⟩ := exists_of_bind_eq_ok hloop
      split at hloop
      · obtain ⟨value, hvalue, hloop⟩ := exists_of_bind_eq_ok hloop
        obtain ⟨url', hset, hloop⟩ := exists_of_bind_eq_ok hloop
        cases hloop
        exact h.setParameter (freshField_substring ht hkey) (freshField_substring ht hvalue) hset
      · obtain ⟨value, hvalue, hloop⟩ := exists_of_bind_eq_ok hloop
        obtain ⟨url', hset, hloop⟩ := exists_of_bind_eq_ok hloop
        exact ih (h.setParameter (freshField_substring ht hkey) (freshField_substring ht hvalue)
          hset) hloop

theorem parseRequestTarget_madeOf {requestTarget : StringT}
    (ht : ∀ c ∈ requestTarget.content, P c) {url : UrlT} (h : url.MadeOf P) {result : Bool × UrlT}
    (hparse : parseRequestTarget url requestTarget = .ok result) : result.2.MadeOf P := by
  unfold parseRequestTarget at hparse
  dsimp only at hparse
  split at hparse
  · obtain ⟨path, hpath, hparse⟩ := exists_of_bind_eq_ok hparse
    cases hparse
    exact h.setPath (freshField_substring ht hpath)
  · obtain ⟨path, hpath, hparse⟩ := exists_of_bind_eq_ok hparse
    have hurl := h.setPath (freshField_substring ht hpath)
    split at hparse
    · cases hparse
      exact hurl
    · exact parametersLoop_madeOf ht hurl hparse

/-! ### Messages -/

/-- What the client has sent of a message: no header has a null value. -/
structure MadeOf (P : UInt8 → Prop) (http : HttpT) : Prop where
  headers : ∃ m, http.headers.Represents m ∧
    ∀ e ∈ m.entries, ∃ value, e.value = some value ∧ FreshText P value
  url : ∀ url, http.url = some url → url.MadeOf P

theorem madeOf_create : MadeOf P create where
  headers := ⟨KeyedList.empty, HashTableT.represents_create, fun _ he ↦ nomatch he⟩
  url := fun _ h ↦ nomatch h

/-- The value of a header, or null. -/
def headerValue (http : HttpT) (name : String) : Option StringT :=
  match http.getHeader (StringT.fromBuffer (ascii name)) with
  | .ok (value, _) => value
  | .error _ => none

/-- The message of a request behind a lookup: only the cursor of the table has moved. -/
structure LooksLike (http' http : HttpT) : Prop where
  url : http'.url = http.url
  method : http'.method = http.method
  headerValue : ∀ name, http'.headerValue name = http.headerValue name

theorem LooksLike.trans {http'' http' http : HttpT} (h' : LooksLike http'' http')
    (h : LooksLike http' http) : LooksLike http'' http :=
  ⟨h'.url.trans h.url, h'.method.trans h.method,
    fun name ↦ (h'.headerValue name).trans (h.headerValue name)⟩

private theorem headerValue_of_represents {http : HttpT} {m : HashTableT.Map (Option StringT)}
    (h : http.headers.Represents m) (name : String) : http.headerValue name =
      ((m.get (HashTableT.hash (cString (ascii name)))).map (·.value)).join := by
  obtain ⟨table, hget, -⟩ := getHeader_of_represents h (cString (ascii name))
  rw [headerValue, StringT.fromBuffer, hget]

/-- A header is a fresh string of the client, or null. -/
theorem MadeOf.getHeader {http : HttpT} (h : http.MadeOf P) (name : String) :
    ∃ http', http.getHeader (StringT.fromBuffer (ascii name)) =
        .ok (http.headerValue name, http') ∧
      http'.MadeOf P ∧ LooksLike http' http ∧ FreshField P (http.headerValue name) := by
  obtain ⟨m, hrep, hm⟩ := h.headers
  obtain ⟨table, hget, hrep'⟩ := getHeader_of_represents hrep (cString (ascii name))
  rw [← headerValue_of_represents hrep] at hget
  refine ⟨_, hget, ⟨⟨m, hrep', hm⟩, h.url⟩, ⟨rfl, rfl, fun other ↦ ?_⟩, ?_⟩
  · rw [headerValue_of_represents hrep', headerValue_of_represents hrep]
  rw [headerValue_of_represents hrep]
  intro value hvalue
  cases hentry : m.get (HashTableT.hash (cString (ascii name))) with
  | none =>
    rw [hentry] at hvalue
    cases hvalue
  | some e =>
    obtain ⟨v, hv, htext⟩ := hm e (List.mem_of_find?_eq_some hentry)
    rw [hentry, Option.map_some, Option.join_some, hv] at hvalue
    cases hvalue
    exact htext

theorem parseRequestLine_madeOf [FreshBytes] {line : StringT} (hl : ∀ c ∈ line.content, P c)
    {http : HttpT} (hparse : parseRequestLine create line = .ok (true, http)) :
    http.MadeOf P := by
  obtain ⟨method, target, rest, url, hsplit, -, -, -, -, htz, -, htarget, hurl, hheaders⟩ :=
    accepted_cases hparse
  have ht : ∀ c ∈ (token target).content, P c := by
    intro c hc
    apply hl c
    rw [hsplit]
    apply List.mem_append_right _ (List.mem_cons_of_mem _ (List.mem_append_left _ ?_))
    by_cases hne : target = []
    · rw [hne] at hc
      exact absurd hc List.not_mem_nil
    · rwa [token, StringCursorT.foldl_appendChar htz hne, StringT.content_fromBufferWithLength]
        at hc
  refine ⟨?_, ?_⟩
  · rw [hheaders]
    exact madeOf_create.headers
  · intro url' hurl'
    rw [hurl] at hurl'
    cases hurl'
    exact parseRequestTarget_madeOf ht UrlT.madeOf_newUrl htarget

private theorem mem_of_headerOf {line name value : List UInt8}
    (h : headerOf line = some (name, value)) {c : UInt8} (hc : c ∈ value) : c ∈ line := by
  obtain ⟨rfl, -⟩ := append_of_headerOf h
  simp [hc]

theorem MadeOf.parseHeader {http http' : HttpT} (h : http.MadeOf P) {line : StringT}
    (hl : ∀ c ∈ line.content, P c) {parsed : Bool}
    (hparse : http.parseHeader line = .ok (parsed, http')) : http'.MadeOf P := by
  obtain ⟨m, hrep, hm⟩ := h.headers
  cases hline : headerOf line.content with
  | none =>
    rw [parseHeader_of_none hline] at hparse
    cases hparse
    exact h
  | some header =>
    obtain ⟨name, value⟩ := header
    obtain ⟨table, hset, hrep'⟩ := parseHeader_of_some hrep hline
    rw [hset] at hparse
    cases hparse
    refine ⟨⟨_, hrep', ?_⟩, h.url⟩
    intro e he
    rcases KeyedList.mem_set he with rfl | he
    · exact ⟨_, rfl, _, rfl, fun c hc ↦ hl c (mem_of_headerOf hline hc)⟩
    · exact hm e he

/-- Behind a parsed `Host` header the URL has a domain name. -/
theorem MadeOf.parseHost {http http' : HttpT} (h : http.MadeOf P)
    (hparse : http.parseHost = .ok (true, http')) :
    http'.MadeOf P ∧ ∃ url domainName, http'.url = some url ∧ url.domainName = some domainName := by
  obtain ⟨request, hget, hrequest, -, hhost⟩ := h.getHeader "Host"
  -- The URL of the request line, or a new one.
  have hurl : (request.url.getD UrlT.create).MadeOf P := by
    cases hu : request.url with
    | none => exact ⟨freshField_none, freshField_none, UrlT.madeOf_newUrl.parameters⟩
    | some url => exact hrequest.url url hu
  have hnamed {name : List UInt8} (hd : ∀ c ∈ name, P c) (port : UInt16) :
      MadeOf P (setHost request port name) := by
    refine ⟨hrequest.headers, ?_⟩
    rintro _ ⟨⟩
    exact ⟨FreshText.field ⟨name, rfl, hd⟩, hurl.path, hurl.parameters⟩
  cases hvalue : http.headerValue "Host" with
  | none =>
    rw [hvalue] at hget
    unfold HttpT.parseHost at hparse
    rw [hget] at hparse
    cases hparse
  | some host =>
    obtain ⟨b, rfl, hb⟩ := hhost host hvalue
    rw [hvalue] at hget
    by_cases hcolon : 58 ∈ cString b
    · obtain ⟨name, r, rfl, hname, hz⟩ := StringCursorT.exists_append_of_mem_cString hcolon
      by_cases hr : r = []
      · subst hr
        rw [parseHost_of_concat hget hname hz] at hparse
        cases hparse
      · rw [parseHost_of_append hget hname hz hr] at hparse
        split at hparse
        · cases hparse
        · cases hparse
          exact ⟨hnamed (fun c hc ↦ hb c (List.mem_append_left _ hc)) _, _, _, rfl, rfl⟩
    · rw [parseHost_of_notMem hget hcolon] at hparse
      cases hparse
      exact ⟨hnamed (fun c hc ↦ hb c (List.takeWhile_subset _ hc)) 80, _, _, rfl, rfl⟩

end HttpT

/-! ### Header lines -/

namespace Worker

variable [FreshBytes] {P : UInt8 → Prop} {σ : Type}

/-- All characters of the lines that are read meet the condition. -/
def Reader.LinesOf (P : UInt8 → Prop) (reader : Reader σ) : Prop :=
  ∀ socket maxBytes line, (reader.readLine socket maxBytes).1 = some line →
    ∀ c ∈ line.content, P c

/-- The header leaves a request of the characters of its lines. -/
theorem readHeader_madeOf {reader : Reader σ} (hlines : Reader.LinesOf P reader)
    {rounds line headerSize : ℕ} {request request' : HttpT} {socket socket' : σ}
    (h : request.MadeOf P) (hfirst : line = 0 → request = HttpT.create)
    (hread : readHeader reader rounds line headerSize request socket =
      .ok (true, request', socket')) : request'.MadeOf P := by
  induction rounds generalizing line headerSize request socket with
  | zero => cases hread
  | succ rounds ih =>
    rw [readHeader] at hread
    dsimp only at hread
    split at hread
    · cases hread
      exact h
    · next currentLine after hcall =>
      have hline := hlines socket _ currentLine (congrArg Prod.fst hcall)
      split at hread
      · cases hread
        exact h
      · split at hread
        · next hzero =>
          obtain ⟨⟨parsed, request⟩, hparse, hread⟩ := exists_of_bind_eq_ok hread
          cases parsed with
          | false => cases hread
          | true =>
            rw [hfirst hzero] at hparse
            exact ih (HttpT.parseRequestLine_madeOf hline hparse)
              (fun hzero ↦ absurd hzero (Nat.succ_ne_zero line)) hread
        · obtain ⟨⟨parsed, request⟩, hparse, hread⟩ := exists_of_bind_eq_ok hread
          cases parsed with
          | false => cases hread
          | true =>
            exact ih (h.parseHeader hline hparse)
              (fun hzero ↦ absurd hzero (Nat.succ_ne_zero line)) hread

end Worker
end Wsic
