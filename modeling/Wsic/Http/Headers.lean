import Wsic.Http.HttpT
import Wsic.DataStructures.HashTableMap

/-!
# Header lines

`http_parseHeader` and `http_getHeader` of `src/http/http.c` over any sequence of lines. The
table behind them knows a name only by its hash, so a lookup answers for the last accepted
line whose name has the same hash.
-/

open CMemory

namespace Wsic.HttpT

/-! ### The grammar of a header line -/

/-- The name and the value of a header line: the name ends at the first `:`, with no NUL
before it, one space follows, and the value is not empty. -/
def headerOf (line : List UInt8) : Option (List UInt8 × List UInt8) :=
  let name := line.takeWhile (fun c ↦ c ≠ 58 ∧ c ≠ 0)
  match line.drop name.length with
  | 58 :: 32 :: value => if value = [] then none else some (name, value)
  | _ => none

/-- The accepted lines, in order. -/
def acceptedHeaders (lines : List StringT) : List (List UInt8 × List UInt8) :=
  lines.filterMap (fun line ↦ headerOf line.content)

/-- The last header whose name has this hash. -/
def lastHashed (headers : List (List UInt8 × List UInt8)) (keyHash : BitVec 32) :
    Option (List UInt8 × List UInt8) :=
  (headers.filter (fun header ↦ HashTableT.hash header.1 = keyHash)).getLast?

/-- Parse the lines in order; the flags that were returned and the message. -/
def parseHeaders (http : HttpT) : List StringT → Checked (List Bool × HttpT)
  | [] => .ok ([], http)
  | line :: lines => do
    let (accepted, http) ← http.parseHeader line
    let (flags, http) ← parseHeaders http lines
    return (accepted :: flags, http)

private theorem takeWhile_name {name r : List UInt8} (hn : 58 ∉ name) (hz : 0 ∉ name) :
    (name ++ 58 :: r).takeWhile (fun c ↦ c ≠ 58 ∧ c ≠ 0) = name := by
  rw [List.takeWhile_append_of_pos]
  · simp
  · intro c hc
    simp only [ne_eq, decide_eq_true_eq]
    exact ⟨fun he ↦ hn (he ▸ hc), fun he ↦ hz (he ▸ hc)⟩

/-- A name, a colon, a space and a value. -/
theorem headerOf_append {name value : List UInt8} (hn : 58 ∉ name) (hz : 0 ∉ name) :
    headerOf (name ++ 58 :: 32 :: value) = if value = [] then none else some (name, value) := by
  rw [headerOf, takeWhile_name hn hz, List.drop_left]
  rfl

private theorem headerOf_no_space {name r : List UInt8} (hn : 58 ∉ name) (hz : 0 ∉ name)
    (hr : r.getD 0 0 ≠ 32) : headerOf (name ++ 58 :: r) = none := by
  rw [headerOf, takeWhile_name hn hz, List.drop_left]
  split
  · next heq =>
    cases heq
    exact absurd rfl hr
  · rfl

/-- The name and the value of a line put together are the line. -/
theorem append_of_headerOf {line name value : List UInt8}
    (h : headerOf line = some (name, value)) :
    line = name ++ 58 :: 32 :: value ∧ 58 ∉ name ∧ 0 ∉ name ∧ value ≠ [] := by
  rw [headerOf] at h
  split at h
  · next rest hdrop =>
    split at h
    · cases h
    · next hne =>
      cases h
      refine ⟨?_, ?_, ?_, hne⟩
      · rw [← hdrop]
        exact List.prefix_append_drop (List.takeWhile_prefix _)
      · intro hm
        have := List.mem_takeWhile_imp hm
        simp at this
      · intro hm
        have := List.mem_takeWhile_imp hm
        simp at this
  · cases h

private theorem mem_cString_of_headerOf {line name value : List UInt8}
    (h : headerOf line = some (name, value)) : 58 ∈ cString line := by
  obtain ⟨rfl, -, hz, -⟩ := append_of_headerOf h
  rw [cString_append hz, cString_cons_of_ne (by decide)]
  exact List.mem_append_right _ List.mem_cons_self

/-- Setting a header sets the entry of its key. -/
theorem setHeader_spec {http : HttpT} {m : HashTableT.Map (Option StringT)}
    (h : http.headers.Represents m) (key : HashTableT.Key) (value : Option StringT) :
    ∃ table, http.setHeader (some key.1) value = .ok { http with headers := table } ∧
      table.Represents (m.set (HashTableT.entryOf key value)) := by
  obtain ⟨table, he, hr⟩ := h.setValue key value
  refine ⟨table, ?_, hr⟩
  rw [setHeader, deref_some, checked_ok_bind, he]
  rfl

private theorem parseHeader_of_append (http : HttpT) {line : StringT} {name r : List UInt8}
    (hsplit : line.content = name ++ 58 :: r) (hn : 58 ∉ name) (hz : 0 ∉ name) :
    http.parseHeader line = match headerOf line.content with
      | none => .ok (false, http)
      | some (name, value) => do
        let http ← http.setHeader (some (StringT.fromBufferWithLength name))
          (some (StringT.fromBufferWithLength value))
        return (true, http) := by
  have hfind : ((StringCursorT.create line).findNextChar 58).1 = some name.length := by
    rw [StringCursorT.findNextChar_of_append (by decide) hn hz
      ((StringCursorT.rest_create line).trans hsplit)]
    exact congrArg some (Nat.zero_add _)
  have hsize : line.size = name.length + (r.length + 1) := by
    rw [← line.length_content, hsplit, List.length_append, List.length_cons]
  have hnext : line.getCharAt (name.length + 1) = r.getD 0 0 := by
    rw [StringT.getCharAt_eq, hsplit, List.getD_eq_getElem?_getD, List.getD_eq_getElem?_getD,
      List.getElem?_append_right (by omega), Nat.add_sub_cancel_left]
    rfl
  rw [parseHeader, hfind]
  dsimp only
  rw [hnext]
  by_cases hc : r.getD 0 0 = 32
  · obtain ⟨value, rfl⟩ : ∃ value, r = 32 :: value := by
      cases r with
      | nil => exact absurd hc (by decide)
      | cons c value => exact ⟨value, by rw [show c = 32 from hc]⟩
    have hname : (line.content.drop 0).take (name.length - 0) = name := by
      rw [List.drop_zero, hsplit, Nat.sub_zero, List.take_left]
    have hvalue : line.content.drop (name.length + 2) = value := by
      rw [hsplit, ← List.drop_drop, List.drop_left]
      rfl
    rw [List.length_cons] at hsize
    rw [if_neg (not_not.mpr hc), StringT.substring_of_le (Nat.zero_le _) (by omega) (by omega),
      checked_ok_bind, hname, hsplit, headerOf_append hn hz]
    by_cases hnil : value = []
    · have hempty : value.length = 0 := List.length_eq_zero_iff.mpr hnil
      rw [StringT.substring_of_not (.inl (by omega)), checked_ok_bind, if_pos hnil]
      rfl
    · have hpos := List.length_pos_of_ne_nil hnil
      rw [StringT.substring_of_le (by omega) (by omega) (Nat.le_refl _), checked_ok_bind, hvalue,
        if_neg hnil, List.take_of_length_le (by omega)]
  · rw [if_pos hc, hsplit, headerOf_no_space hn hz hc]
    rfl

/-- A line outside the grammar is refused, and the message stays as it is. -/
theorem parseHeader_of_none {http : HttpT} {line : StringT} (h : headerOf line.content = none) :
    http.parseHeader line = .ok (false, http) := by
  by_cases hm : 58 ∈ cString line.content
  · obtain ⟨name, r, hsplit, hn, hz⟩ := StringCursorT.exists_append_of_mem_cString hm
    rw [parseHeader_of_append http hsplit hn hz, h]
  · have hfind := StringCursorT.findNextChar_of_notMem
      ((StringCursorT.rest_create line).symm ▸ hm)
    rw [parseHeader, hfind]
    rfl

/-- The one call of `http_setHeader` for a line of the grammar. -/
private theorem parseHeader_eq_setHeader (http : HttpT) {line : StringT} {name value : List UInt8}
    (h : headerOf line.content = some (name, value)) :
    http.parseHeader line = (http.setHeader (some (StringT.fromBufferWithLength name))
      (some (StringT.fromBufferWithLength value))).map (true, ·) := by
  obtain ⟨before, r, hsplit, hn, hz⟩ :=
    StringCursorT.exists_append_of_mem_cString (mem_cString_of_headerOf h)
  rw [parseHeader_of_append http hsplit hn hz, h]
  rfl

/-- A line of the grammar is accepted, and its header is set. -/
theorem parseHeader_of_some {http : HttpT} {m : HashTableT.Map (Option StringT)}
    (hr : http.headers.Represents m) {line : StringT} {name value : List UInt8}
    (h : headerOf line.content = some (name, value)) :
    ∃ table, http.parseHeader line = .ok (true, { http with headers := table }) ∧
      table.Represents (m.set (HashTableT.entryOf (HashTableT.freshKey name)
        (some (StringT.fromBufferWithLength value)))) := by
  obtain ⟨table, hset, hrep⟩ := setHeader_spec hr (HashTableT.freshKey name)
    (some (StringT.fromBufferWithLength value))
  refine ⟨table, ?_, hrep⟩
  rw [parseHeader_eq_setHeader http h]
  exact congrArg (Except.map (true, ·)) hset

/-- The table holds, for every hash, the value of the last header with this hash. -/
def HoldsLast (m : HashTableT.Map (Option StringT)) (headers : List (List UInt8 × List UInt8)) :
    Prop :=
  ∀ keyHash, (m.get keyHash).map (·.value) =
    (lastHashed headers keyHash).map (fun header ↦ some (StringT.fromBufferWithLength header.2))

private theorem lastHashed_concat (headers : List (List UInt8 × List UInt8))
    (header : List UInt8 × List UInt8) (keyHash : BitVec 32) :
    lastHashed (headers ++ [header]) keyHash =
      if HashTableT.hash header.1 = keyHash then some header else lastHashed headers keyHash := by
  unfold lastHashed
  rw [List.filter_append]
  by_cases hk : HashTableT.hash header.1 = keyHash
  · rw [if_pos hk, List.filter_cons_of_pos (by simpa using hk), List.filter_nil,
      List.getLast?_append]
    rfl
  · rw [if_neg hk, List.filter_cons_of_neg (by simpa using hk), List.filter_nil, List.append_nil]

/-- One more header. -/
theorem HoldsLast.set {m : HashTableT.Map (Option StringT)}
    {headers : List (List UInt8 × List UInt8)} (h : HoldsLast m headers)
    (name value : List UInt8) :
    HoldsLast (m.set (HashTableT.entryOf (HashTableT.freshKey name)
      (some (StringT.fromBufferWithLength value)))) (headers ++ [(name, value)]) := by
  intro keyHash
  rw [KeyedList.get_set, lastHashed_concat,
    show (HashTableT.entryOf (HashTableT.freshKey name)
      (some (StringT.fromBufferWithLength value))).keyHash = HashTableT.hash name from
      HashTableT.hash_freshKey name]
  split
  · rfl
  · exact h keyHash

/-- The lines are parsed without a fault; the flags follow the grammar. -/
theorem parseHeaders_spec {http : HttpT} {m : HashTableT.Map (Option StringT)}
    {headers : List (List UInt8 × List UInt8)} (hr : http.headers.Represents m)
    (hl : HoldsLast m headers) (lines : List StringT) :
    ∃ http' m', parseHeaders http lines =
        .ok (lines.map (fun line ↦ (headerOf line.content).isSome), http') ∧
      http'.headers.Represents m' ∧ HoldsLast m' (headers ++ acceptedHeaders lines) := by
  induction lines generalizing http m headers with
  | nil => exact ⟨http, m, rfl, hr, by rwa [acceptedHeaders, List.filterMap_nil, List.append_nil]⟩
  | cons line lines ih =>
    rw [parseHeaders]
    cases hline : headerOf line.content with
    | none =>
      obtain ⟨http', m', hparse, hr', hl'⟩ := ih hr hl
      refine ⟨http', m', ?_, hr', ?_⟩
      · rw [parseHeader_of_none hline, checked_ok_bind]
        dsimp only
        rw [hparse, List.map_cons, hline]
        rfl
      · rwa [acceptedHeaders, List.filterMap_cons, hline]
    | some header =>
      obtain ⟨name, value⟩ := header
      obtain ⟨table, hset, hrep⟩ := parseHeader_of_some hr hline
      obtain ⟨http', m', hparse, hr', hl'⟩ := @ih { http with headers := table } _ _ hrep
        (hl.set name value)
      refine ⟨http', m', ?_, hr', ?_⟩
      · rw [hset, checked_ok_bind]
        dsimp only
        rw [hparse, List.map_cons, hline]
        rfl
      · rw [acceptedHeaders, List.filterMap_cons, hline]
        rwa [List.append_assoc] at hl'

/-- The lookup returns what the table has under the hash of the name, and keeps the table. -/
theorem getHeader_of_represents {http : HttpT} {m : HashTableT.Map (Option StringT)}
    (hr : http.headers.Represents m) (name : List UInt8) :
    ∃ table, http.getHeader (StringT.fromBufferWithLength name) =
        .ok (((m.get (HashTableT.hash name)).map (·.value)).join, { http with headers := table }) ∧
      table.Represents m := by
  obtain ⟨table, hget, hr'⟩ := hr.getValue (HashTableT.freshKey name)
  refine ⟨table, ?_, hr'⟩
  rw [HashTableT.hash_freshKey] at hget
  rw [getHeader, show StringT.fromBufferWithLength name = (HashTableT.freshKey name).1 from rfl,
    hget]
  rfl

end Wsic.HttpT
