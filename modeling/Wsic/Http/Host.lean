import Wsic.Http.Headers
import Wsic.Http.Url

/-!
# The Host header

`http_parseHost` of `src/http/http.c` on the value that the header lines have stored. The text
behind the first `:` is cut out with `string_substring`, which gives null when nothing follows,
and is handed to `atoi` unchecked.
-/

open CMemory

namespace Wsic.HttpT

/-- The name of the host: the text before the first `:`, or the NUL-terminated value where there
is none. -/
def hostName (value : List UInt8) : List UInt8 := (cString value).takeWhile (· ≠ 58)

/-- The first `:` of the value, with no NUL before it, is its last character. -/
def EndsAtColon (value : List UInt8) : Prop :=
  ∃ name, value = name ++ [58] ∧ 58 ∉ name ∧ 0 ∉ name

/-- The lines are parsed, then the `Host` header is: the parser returns, and if it accepts the
header, the URL has the name of the host. -/
def HostParsed (http : HttpT) (lines : List StringT) (value : List UInt8) : Prop :=
  ∃ flags http' parsed request, parseHeaders http lines = .ok (flags, http') ∧
    http'.parseHost = .ok (parsed, request) ∧
    (parsed = true → ∃ url domainName, request.url = some url ∧
      url.domainName = some domainName ∧ domainName.buffer ≠ none ∧
      domainName.content = hostName value)

theorem hostName_of_append {name r : List UInt8} (hn : 58 ∉ name) (hz : 0 ∉ name) :
    hostName (name ++ 58 :: r) = name := by
  rw [hostName, cString_append hz, cString_cons_of_ne (by decide),
    List.takeWhile_append_of_pos]
  · simp
  · intro c hc
    simp only [ne_eq, decide_eq_true_eq]
    exact fun he ↦ hn (he ▸ hc)

theorem hostName_of_notMem {value : List UInt8} (h : 58 ∉ cString value) :
    hostName value = cString value := by
  rw [hostName, List.takeWhile_eq_self_iff]
  intro c hc
  simp only [ne_eq, decide_eq_true_eq]
  exact fun he ↦ h (he ▸ hc)

/-- The colon at the end is the only one of such a value. -/
theorem endsAtColon_iff {name r : List UInt8} (hn : 58 ∉ name) (hz : 0 ∉ name) :
    EndsAtColon (name ++ 58 :: r) ↔ r = [] := by
  constructor
  · rintro ⟨other, heq, ho, -⟩
    exact (append_cons_unique hn ho heq).2
  · rintro rfl
    exact ⟨name, rfl, hn, hz⟩

/-! ### The parser -/

section Parser

variable {http : HttpT} {value : List UInt8} {request : HttpT}

/-- The URL that the name and the port of the host are stored in. -/
def setHost (request : HttpT) (port : UInt16) (name : List UInt8) : HttpT :=
  { request with url := some (((request.url.getD UrlT.create).setPort port).setDomainName
    (some (StringT.fromBufferWithLength name))) }

/-- Without a colon the port is 80. -/
theorem parseHost_of_notMem
    (hget : http.getHeader (StringT.fromBuffer (ascii "Host")) =
      .ok (some (StringT.fromBufferWithLength value), request))
    (h : 58 ∉ cString value) : http.parseHost = .ok (true, setHost request 80 (cString value)) := by
  rw [parseHost, hget, checked_ok_bind]
  dsimp only
  rw [StringCursorT.findNextChar_of_notMem (by rwa [StringCursorT.rest_create,
    StringT.content_fromBufferWithLength]), StringT.buffer_fromBufferWithLength]
  dsimp only
  rw [deref_some, checked_ok_bind, StringT.fromBuffer, cString_append_zero]
  rfl

variable {name r : List UInt8}

private theorem findColon (hn : 58 ∉ name) (hz : 0 ∉ name) :
    ((StringCursorT.create (StringT.fromBufferWithLength (name ++ 58 :: r))).findNextChar 58).1 =
      some name.length := by
  rw [StringCursorT.findNextChar_of_append (by decide) hn hz ((StringCursorT.rest_create _).trans
    (StringT.content_fromBufferWithLength (name ++ 58 :: r)))]
  exact congrArg some (Nat.zero_add _)

/-- With a colon the port is the number behind it, and it has to be at most 65536. -/
theorem parseHost_of_append
    (hget : http.getHeader (StringT.fromBuffer (ascii "Host")) =
      .ok (some (StringT.fromBufferWithLength (name ++ 58 :: r)), request))
    (hn : 58 ∉ name) (hz : 0 ∉ name) (hr : r ≠ []) :
    http.parseHost = if atoi (cString r) < 0 ∨ atoi (cString r) > 65536 then
        .ok (false, { request with url := some (request.url.getD UrlT.create) })
      else .ok (true, setHost request (UInt16.ofNat (atoi (cString r)).toNat) name) := by
  have hpos : 0 < r.length := List.length_pos_of_ne_nil hr
  have hport : (StringT.fromBufferWithLength (name ++ 58 :: r)).substring (name.length + 1)
      (StringT.fromBufferWithLength (name ++ 58 :: r)).size =
        .ok (some (StringT.fromBufferWithLength r)) := by
    rw [StringT.size_fromBufferWithLength, StringT.substring_rest (by simpa using hpos),
      ← List.drop_drop, List.drop_left]
    rfl
  have hname : (StringT.fromBufferWithLength (name ++ 58 :: r)).substring 0 name.length =
      .ok (some (StringT.fromBufferWithLength name)) := by
    rw [← Nat.zero_add name.length]
    exact StringT.substring_part (by simp) List.drop_zero
  rw [parseHost, hget, checked_ok_bind]
  dsimp only
  rw [findColon hn hz]
  dsimp only
  rw [hport, checked_ok_bind, deref_some, checked_ok_bind, StringT.cstr_fromBufferWithLength,
    checked_ok_bind]
  split
  · rfl
  · rw [hname, checked_ok_bind]
    rfl

/-- With nothing behind the colon there is no text for the port. -/
theorem parseHost_of_concat
    (hget : http.getHeader (StringT.fromBuffer (ascii "Host")) =
      .ok (some (StringT.fromBufferWithLength (name ++ [58])), request))
    (hn : 58 ∉ name) (hz : 0 ∉ name) : http.parseHost = .error .nullPointer := by
  rw [parseHost, hget, checked_ok_bind]
  dsimp only
  rw [findColon hn hz]
  dsimp only
  rw [StringT.substring_of_not (.inl (by simp)), checked_ok_bind]
  rfl

end Parser

/-! ### When it is total -/

/-- What the lines have stored for the `Host` header is found in the parsed headers. -/
theorem getHost_of_lines {http : HttpT} (hnew : http.headers = HashTableT.create)
    {lines : List StringT} {name value : List UInt8}
    (hvalue : lastHashed (acceptedHeaders lines) (HashTableT.hash (ascii "Host")) =
      some (name, value)) :
    ∃ flags http' stored, parseHeaders http lines = .ok (flags, http') ∧
      http'.getHeader (StringT.fromBuffer (ascii "Host")) =
        .ok (some (StringT.fromBufferWithLength value), stored) := by
  have hempty : HoldsLast (KeyedList.empty : HashTableT.Map (Option StringT)) [] := fun _ ↦ rfl
  obtain ⟨http', m, hparse, hr, hl⟩ :=
    @parseHeaders_spec http _ _ (hnew ▸ HashTableT.represents_create) hempty lines
  rw [List.nil_append] at hl
  obtain ⟨table, hget, -⟩ := getHeader_of_represents hr (ascii "Host")
  rw [hl, hvalue] at hget
  have hhost : StringT.fromBuffer (ascii "Host") = StringT.fromBufferWithLength (ascii "Host") :=
    congrArg StringT.fromBufferWithLength (cString_eq_self (by decide +kernel))
  rw [← hhost] at hget
  exact ⟨_, http', _, hparse, hget⟩

/-- The value that the lines have stored for the `Host` header is parsed as it should exactly
when it does not end at its first colon. -/
theorem hostParsed_iff {http : HttpT} (hnew : http.headers = HashTableT.create)
    {lines : List StringT} {name value : List UInt8}
    (hvalue : lastHashed (acceptedHeaders lines) (HashTableT.hash (ascii "Host")) =
      some (name, value)) : HostParsed http lines value ↔ ¬ EndsAtColon value := by
  obtain ⟨flags, http', stored, hparse, hget⟩ := getHost_of_lines hnew hvalue
  by_cases hcolon : 58 ∈ cString value
  · obtain ⟨host, r, rfl, hn, hz⟩ := StringCursorT.exists_append_of_mem_cString hcolon
    rw [endsAtColon_iff hn hz]
    constructor
    · rintro ⟨flags, other, parsed, request, hparse', hcall, -⟩ rfl
      rw [hparse] at hparse'
      cases hparse'
      rw [parseHost_of_concat hget hn hz] at hcall
      cases hcall
    · intro hne
      have hcall := parseHost_of_append hget hn hz hne
      split at hcall
      · exact ⟨_, _, _, _, hparse, hcall, fun hfalse ↦ absurd hfalse (by decide)⟩
      · refine ⟨_, _, _, _, hparse, hcall, fun _ ↦ ?_⟩
        refine ⟨_, _, rfl, rfl, Option.some_ne_none _, ?_⟩
        rw [hostName_of_append hn hz, StringT.content_fromBufferWithLength]
  · constructor
    · rintro - ⟨host, rfl, -, hz⟩
      apply hcolon
      rw [cString_append hz]
      exact List.mem_append_right _ List.mem_cons_self
    · intro _
      refine ⟨_, _, _, _, hparse, parseHost_of_notMem hget hcolon, fun _ ↦ ?_⟩
      refine ⟨_, _, rfl, rfl, Option.some_ne_none _, ?_⟩
      rw [hostName_of_notMem hcolon, StringT.content_fromBufferWithLength]

/-- A host with a port. -/
theorem hostParsed_localhost :
    HostParsed HttpT.create [StringT.fromBuffer (ascii "Host: localhost:8443")]
      (ascii "localhost:8443") :=
  (@hostParsed_iff HttpT.create rfl _ (ascii "Host") (ascii "localhost:8443")
    (by decide +kernel)).mpr (by
      rintro ⟨name, heq, hn, -⟩
      have hlast := congrArg List.getLast? heq
      rw [List.getLast?_concat] at hlast
      exact absurd hlast (by decide +kernel))

/-- `Host: a:` leaves no text for the port, and `string_getBuffer` follows the null pointer. -/
theorem colon_at_end_not_parsed :
    ¬ HostParsed HttpT.create [StringT.fromBuffer (ascii "Host: a:")] (ascii "a:") := by
  rintro ⟨flags, http, parsed, request, hparse, hcall, -⟩
  have hcode : (parseHeaders HttpT.create [StringT.fromBuffer (ascii "Host: a:")] >>=
      fun result ↦ result.2.parseHost.map Prod.fst) = .error .nullPointer := by
    decide +kernel
  rw [hparse, checked_ok_bind] at hcode
  dsimp only at hcode
  rw [hcall] at hcode
  cases hcode

end Wsic.HttpT
