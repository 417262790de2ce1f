import Mathlib.Data.List.Induction
import Wsic.String.Content

/-!
# String cursors

The cursors of `src/string/string.c` and the character loops that read through them. A
cursor is described by the bytes that are still to be read; reading stops at the end of
the content and at NUL alike.
-/

open CMemory

namespace Wsic

/-- `string_cursor_t`, `string.h:25–28`. -/
structure StringCursorT where
  string : StringT
  offset : Nat

namespace StringCursorT

/-- `string_createCursor`, `string.c:46`. -/
def create (string : StringT) : StringCursorT := ⟨string, 0⟩

/-- `string_getNextChar`, `string.c:221`. -/
def getNextChar (cursor : StringCursorT) : UInt8 × StringCursorT :=
  if cursor.offset ≥ cursor.string.size then (0, cursor)
  else (cursor.string.getCharAt cursor.offset, { cursor with offset := cursor.offset + 1 })

/-- The loop of `string_findNextChar`, `string.c:260–265`; each round reads one byte. -/
def findNextCharLoop (needle : UInt8) : Nat → StringCursorT → Option Nat × StringCursorT
  | 0, cursor => (none, cursor)
  | rounds + 1, cursor =>
    let (current, cursor) := cursor.getNextChar
    if current = 0 then (none, cursor)
    else if current = needle then (some (cursor.offset - 1), cursor)
    else findNextCharLoop needle rounds cursor

/-- `string_findNextChar`, `string.c:257`; `-1` is `none`. -/
def findNextChar (cursor : StringCursorT) (needle : UInt8) : Option Nat × StringCursorT :=
  findNextCharLoop needle (cursor.string.size - cursor.offset) cursor

/-- `string_getNextLine`, `string.c:228`: the line, null at the end, and the cursor behind it. The
indices are signed; a newline at index 0 is treated like none. -/
def getNextLine (cursor : StringCursorT) : Checked (Option StringT × StringCursorT) :=
  if cursor.offset ≥ cursor.string.size then .ok (none, cursor)
  else do
    let start := cursor.offset
    let (found, cursor) := cursor.findNextChar 10
    let lastLineIndex : Int := (found.map Int.ofNat).getD (-1)
    let lastContentIndex : Int :=
      if lastLineIndex > 0 then
        if cursor.string.getCharAt (lastLineIndex - 1).toNat = 13 then lastLineIndex - 1
        else lastLineIndex
      else cursor.string.size
    if lastContentIndex ≥ start then
      let line ← cursor.string.substring start lastContentIndex.toNat
      return (line, cursor)
    else return (some (StringT.fromBuffer []), cursor)

/-- The loop `while ((current = string_getNextChar(cursor)) != delimiter && current != 0)
string_appendChar(string, current)`. -/
def appendUntilLoop [FreshBytes] (delimiter : UInt8) :
    Nat → StringCursorT → StringT → UInt8 × StringT × StringCursorT
  | 0, cursor, string => (0, string, cursor)
  | rounds + 1, cursor, string =>
    let (current, cursor) := cursor.getNextChar
    if current ≠ delimiter ∧ current ≠ 0 then
      appendUntilLoop delimiter rounds cursor (string.appendChar current)
    else (current, string, cursor)

/-- The loop above on a new string, with the character that ended it. -/
def appendUntil [FreshBytes] (cursor : StringCursorT) (delimiter : UInt8) :
    UInt8 × StringT × StringCursorT :=
  appendUntilLoop delimiter (cursor.string.size - cursor.offset) cursor StringT.create

/-! ### What is still to be read -/

/-- The bytes from the cursor to the end of the content. -/
def rest (cursor : StringCursorT) : List UInt8 := cursor.string.content.drop cursor.offset

/-- The cursor after `n` more bytes. -/
def advance (cursor : StringCursorT) (n : Nat) : StringCursorT :=
  { cursor with offset := cursor.offset + n }

@[simp] theorem rest_create (string : StringT) : (create string).rest = string.content :=
  List.drop_zero

@[simp] theorem rest_advance (cursor : StringCursorT) (n : Nat) :
    (cursor.advance n).rest = cursor.rest.drop n := by
  simp only [rest, advance, List.drop_drop]

theorem length_rest (cursor : StringCursorT) :
    cursor.rest.length = cursor.string.size - cursor.offset := by
  rw [rest, List.length_drop, StringT.length_content]

theorem advance_advance (cursor : StringCursorT) (m n : Nat) :
    (cursor.advance m).advance n = cursor.advance (m + n) := by
  simp only [advance, Nat.add_assoc]

/-- At the end the next character is NUL and the cursor stays. -/
theorem getNextChar_nil {cursor : StringCursorT} (h : cursor.rest = []) :
    cursor.getNextChar = (0, cursor) := by
  have hl := cursor.length_rest
  rw [h, List.length_nil] at hl
  rw [getNextChar, if_pos (by omega)]

/-- Before the end the next character is the first one to be read. -/
theorem getNextChar_cons {cursor : StringCursorT} {c : UInt8} {r : List UInt8}
    (h : cursor.rest = c :: r) : cursor.getNextChar = (c, cursor.advance 1) := by
  have hl := cursor.length_rest
  rw [h, List.length_cons] at hl
  have hc : cursor.string.bytes.getD cursor.offset 0 = c := by
    have hget : cursor.rest[0]? = some c := by
      rw [h]
      rfl
    rw [rest, List.getElem?_drop, StringT.content, List.getElem?_take_of_lt (by omega)] at hget
    rw [List.getD_eq_getElem?_getD, ← Nat.add_zero cursor.offset, hget, Option.getD_some]
  rw [getNextChar, if_neg (by omega), StringT.getCharAt, if_neg (by omega), hc]
  rfl

/-! ### Searching -/

private theorem findNextCharLoop_of_append {needle : UInt8} (hn : needle ≠ 0) (a r : List UInt8)
    (ha : needle ∉ a) (hz : 0 ∉ a) (rounds : Nat) (cursor : StringCursorT)
    (hr : a.length < rounds) (h : cursor.rest = a ++ needle :: r) :
    findNextCharLoop needle rounds cursor =
      (some (cursor.offset + a.length), cursor.advance (a.length + 1)) := by
  induction rounds generalizing a cursor with
  | zero => omega
  | succ rounds ih =>
    cases a with
    | nil =>
      rw [findNextCharLoop, getNextChar_cons h]
      simp only [hn, if_false, if_true, List.length_nil, Nat.add_zero, Nat.zero_add]
      rfl
    | cons c a =>
      have hc : c ≠ needle := fun he ↦ ha (he ▸ List.mem_cons_self)
      have hc0 : c ≠ 0 := fun he ↦ hz (he ▸ List.mem_cons_self)
      rw [findNextCharLoop, getNextChar_cons h]
      simp only [hc0, hc, if_false]
      rw [ih a (fun hm ↦ ha (List.mem_cons_of_mem _ hm))
        (fun hm ↦ hz (List.mem_cons_of_mem _ hm)) (cursor.advance 1)
        (by simpa using hr) (by rw [rest_advance, h]; rfl), advance_advance]
      simp only [List.length_cons, advance]
      congr 2
      · omega
      · congr 1
        omega

/-- The search finds the first occurrence when no NUL comes before it. -/
theorem findNextChar_of_append {cursor : StringCursorT} {needle : UInt8} {a r : List UInt8}
    (hn : needle ≠ 0) (ha : needle ∉ a) (hz : 0 ∉ a) (h : cursor.rest = a ++ needle :: r) :
    cursor.findNextChar needle =
      (some (cursor.offset + a.length), cursor.advance (a.length + 1)) := by
  have hl := cursor.length_rest
  rw [h, List.length_append, List.length_cons] at hl
  exact findNextCharLoop_of_append hn a r ha hz _ cursor (by omega) h

private theorem findNextCharLoop_of_notMem {needle : UInt8} (rounds : Nat)
    (cursor : StringCursorT) (hr : rounds = cursor.rest.length)
    (h : needle ∉ cString cursor.rest) : findNextCharLoop needle rounds cursor =
      (none, cursor.advance (min (strlen cursor.rest + 1) cursor.rest.length)) := by
  induction rounds generalizing cursor with
  | zero =>
    rw [← hr, Nat.min_zero]
    rfl
  | succ rounds ih =>
    cases hrest : cursor.rest with
    | nil =>
      rw [hrest] at hr
      cases hr
    | cons c r =>
      rw [findNextCharLoop, getNextChar_cons hrest]
      simp only
      by_cases hc0 : c = 0
      · rw [if_pos hc0, hc0, strlen, cString_cons_zero, List.length_nil, List.length_cons,
          Nat.min_eq_left (by omega)]
      · rw [hrest, cString_cons_of_ne hc0] at h
        have hc : c ≠ needle := fun he ↦ h (he ▸ List.mem_cons_self)
        have hrest1 : (cursor.advance 1).rest = r := by
          rw [rest_advance, hrest]
          rfl
        rw [hrest, List.length_cons] at hr
        rw [if_neg hc0, if_neg hc, ih (cursor.advance 1) (by rw [hrest1]; omega)
          (by rw [hrest1]; exact fun hm ↦ h (List.mem_cons_of_mem _ hm)), hrest1, advance_advance,
          strlen, strlen, cString_cons_of_ne hc0, List.length_cons, List.length_cons]
        congr 2
        omega

/-- The search fails when the needle does not occur before the first NUL: it stops behind the NUL
or at the end. -/
theorem findNextChar_of_notMem {cursor : StringCursorT} {needle : UInt8}
    (h : needle ∉ cString cursor.rest) : cursor.findNextChar needle =
      (none, cursor.advance (min (strlen cursor.rest + 1) cursor.rest.length)) :=
  findNextCharLoop_of_notMem _ cursor cursor.length_rest.symm h

private theorem findNextCharLoop_of_some {needle : UInt8} {rounds i : Nat}
    {cursor cursor' : StringCursorT}
    (h : findNextCharLoop needle rounds cursor = (some i, cursor')) :
    cursor.offset ≤ i ∧ i < cursor.string.size ∧ cursor' = ⟨cursor.string, i + 1⟩ := by
  induction rounds generalizing cursor with
  | zero => cases h
  | succ rounds ih =>
    rw [findNextCharLoop, getNextChar] at h
    by_cases hend : cursor.offset ≥ cursor.string.size
    · rw [if_pos hend] at h
      cases h
    · rw [if_neg hend] at h
      dsimp only at h
      split at h
      · cases h
      · split at h
        · cases h
          exact ⟨Nat.le_refl _, Nat.not_le.mp hend, rfl⟩
        · obtain ⟨hle, hlt, hcursor⟩ := ih h
          exact ⟨(Nat.le_succ _).trans hle, hlt, hcursor⟩

/-- What is found stands at or behind the cursor, and the cursor moves behind it. -/
theorem findNextChar_of_some {needle : UInt8} {i : Nat} {cursor cursor' : StringCursorT}
    (h : cursor.findNextChar needle = (some i, cursor')) :
    cursor.offset ≤ i ∧ i < cursor.string.size ∧ cursor' = ⟨cursor.string, i + 1⟩ :=
  findNextCharLoop_of_some h

/-! ### Fresh strings -/

section Fresh

variable {text : List UInt8} {offset : Nat}

theorem rest_fresh (text : List UInt8) (offset : Nat) :
    (mk (StringT.fromBufferWithLength text) offset).rest = text.drop offset := by
  rw [rest, StringT.content_fromBufferWithLength]

/-- The search in a text without NUL finds the first occurrence from the offset on. -/
theorem findNextChar_fresh {needle : UInt8} (hn : needle ≠ 0) (hz : 0 ∉ text)
    {a r : List UInt8} (h : text.drop offset = a ++ needle :: r) (ha : needle ∉ a) :
    findNextChar ⟨StringT.fromBufferWithLength text, offset⟩ needle =
      (some (offset + a.length),
        ⟨StringT.fromBufferWithLength text, offset + (a.length + 1)⟩) := by
  have ha0 : 0 ∉ a := fun hm ↦ hz (List.mem_of_mem_drop (h ▸ List.mem_append_left _ hm))
  exact findNextChar_of_append hn ha ha0 (by rw [rest_fresh, h])

theorem findNextChar_fresh_absent {needle : UInt8} (h : needle ∉ text.drop offset) :
    (findNextChar ⟨StringT.fromBufferWithLength text, offset⟩ needle).1 = none := by
  rw [findNextChar_of_notMem]
  rw [rest_fresh]
  exact fun hm ↦ h (List.takeWhile_subset _ hm)

/-- What follows an occurrence, and its place inside the text. -/
theorem drop_of_append {a r : List UInt8} {c : UInt8} (h : text.drop offset = a ++ c :: r) :
    text.drop (offset + (a.length + 1)) = r ∧ offset + a.length < text.length := by
  have hl := congrArg List.length h
  rw [List.length_drop, List.length_append, List.length_cons] at hl
  refine ⟨?_, by omega⟩
  rw [← List.drop_drop, h, ← List.drop_drop, List.drop_left]
  rfl

end Fresh

/-! ### Reading into a string -/

/-- Characters other than NUL, appended to a new string one by one. -/
theorem foldl_appendChar [FreshBytes] {a : List UInt8} (hz : 0 ∉ a) (hne : a ≠ []) :
    a.foldl StringT.appendChar StringT.create = StringT.fromBufferWithLength a := by
  induction a using List.reverseRecOn with
  | nil => exact absurd rfl hne
  | append_singleton a c ih =>
    have hc : ([c] : List UInt8).getLast? ≠ some 0 := by
      intro he
      rw [List.getLast?_singleton, Option.some.injEq] at he
      exact hz (he ▸ List.mem_append_right _ List.mem_cons_self)
    rw [List.foldl_append, List.foldl_cons, List.foldl_nil]
    cases a with
    | nil => exact StringT.create_append [c] hc
    | cons x a =>
      rw [ih (fun hm ↦ hz (List.mem_append_left _ hm)) (List.cons_ne_nil _ _)]
      exact StringT.fromBufferWithLength_append _ [c] hc

private theorem appendUntilLoop_of_append [FreshBytes] {delimiter : UInt8} (a r : List UInt8)
    (ha : delimiter ∉ a) (hz : 0 ∉ a) (rounds : Nat) (cursor : StringCursorT) (string : StringT)
    (hr : a.length < rounds) (h : cursor.rest = a ++ delimiter :: r) :
    appendUntilLoop delimiter rounds cursor string =
      (delimiter, a.foldl StringT.appendChar string, cursor.advance (a.length + 1)) := by
  induction rounds generalizing a cursor string with
  | zero => omega
  | succ rounds ih =>
    cases a with
    | nil =>
      rw [appendUntilLoop, getNextChar_cons h]
      simp
    | cons c a =>
      have hc : c ≠ delimiter := fun he ↦ ha (he ▸ List.mem_cons_self)
      have hc0 : c ≠ 0 := fun he ↦ hz (he ▸ List.mem_cons_self)
      rw [appendUntilLoop, getNextChar_cons h]
      simp only [ne_eq, hc, hc0, not_false_eq_true, and_self, if_true]
      rw [ih a (fun hm ↦ ha (List.mem_cons_of_mem _ hm))
        (fun hm ↦ hz (List.mem_cons_of_mem _ hm)) (cursor.advance 1) (string.appendChar c)
        (by simpa using hr) (by rw [rest_advance, h]; rfl), advance_advance, List.foldl_cons,
        List.length_cons, Nat.add_comm 1]

/-- Reading up to a delimiter takes what comes before it. -/
theorem appendUntil_of_append [FreshBytes] (cursor : StringCursorT) {delimiter : UInt8}
    {a r : List UInt8} (ha : delimiter ∉ a) (hz : 0 ∉ a)
    (h : cursor.rest = a ++ delimiter :: r) :
    cursor.appendUntil delimiter =
      (delimiter, a.foldl StringT.appendChar StringT.create, cursor.advance (a.length + 1)) := by
  have hl := cursor.length_rest
  rw [h, List.length_append, List.length_cons] at hl
  exact appendUntilLoop_of_append a r ha hz _ cursor _ (by omega) h

private theorem appendUntilLoop_of_notMem [FreshBytes] {delimiter : UInt8} (rounds : Nat)
    (cursor : StringCursorT) (string : StringT) (hr : rounds = cursor.rest.length)
    (h : delimiter ∉ cString cursor.rest) :
    ∃ cursor', appendUntilLoop delimiter rounds cursor string =
      (0, (cString cursor.rest).foldl StringT.appendChar string, cursor') := by
  induction rounds generalizing cursor string with
  | zero =>
    have hnil : cursor.rest = [] := List.length_eq_zero_iff.mp hr.symm
    rw [hnil]
    exact ⟨cursor, rfl⟩
  | succ rounds ih =>
    cases hrest : cursor.rest with
    | nil =>
      rw [hrest] at hr
      cases hr
    | cons c r =>
      have hrest1 : (cursor.advance 1).rest = r := by rw [rest_advance, hrest]; rfl
      rw [appendUntilLoop, getNextChar_cons hrest]
      dsimp only
      by_cases hc0 : c = 0
      · rw [if_neg (fun hc ↦ hc.2 hc0), hc0, cString_cons_zero]
        exact ⟨_, rfl⟩
      · rw [hrest, cString_cons_of_ne hc0] at h
        have hc : c ≠ delimiter := fun he ↦ h (he ▸ List.mem_cons_self)
        rw [if_pos ⟨hc, hc0⟩, cString_cons_of_ne hc0, List.foldl_cons, ← hrest1]
        apply ih
        · rw [hrest1]
          rw [hrest] at hr
          simpa using hr
        · rw [hrest1]
          exact fun hm ↦ h (List.mem_cons_of_mem _ hm)

/-- Without a delimiter before the first NUL, everything up to NUL is read. -/
theorem appendUntil_of_notMem [FreshBytes] (cursor : StringCursorT) {delimiter : UInt8}
    (h : delimiter ∉ cString cursor.rest) :
    ∃ cursor', cursor.appendUntil delimiter =
      (0, (cString cursor.rest).foldl StringT.appendChar StringT.create, cursor') :=
  appendUntilLoop_of_notMem _ cursor _ cursor.length_rest.symm h

/-- A byte that occurs before the first NUL splits what is to be read at its first
occurrence. -/
theorem exists_append_of_mem_cString {b : List UInt8} {c : UInt8} (h : c ∈ cString b) :
    ∃ a r, b = a ++ c :: r ∧ c ∉ a ∧ 0 ∉ a := by
  obtain ⟨a, r, he, ha⟩ := List.eq_append_cons_of_mem h
  refine ⟨a, r ++ b.drop (strlen b), ?_, ha, ?_⟩
  · rw [← List.cons_append, ← List.append_assoc, ← he, ← take_strlen, List.take_append_drop]
  · intro hm
    apply zero_notMem_cString b
    rw [he]
    exact List.mem_append_left _ hm

end StringCursorT
end Wsic
