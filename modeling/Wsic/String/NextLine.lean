import Wsic.Lib.LineText
import Wsic.String.Cursor

/-!
# Reading a string line by line

The calls of `string_getNextLine`, `src/string/string.c:228–255`, on a cursor until one returns
null, as the callers make them. The lines that they return are those of the text, unless the text
starts with a newline: an index of 0 is taken for a newline that was not found.
-/

open CMemory LineText

namespace Wsic.StringCursorT

/-- The calls until null, with so many calls left. -/
def nextLinesLoop : Nat → StringCursorT → Checked (List StringT)
  | 0, _ => .error .nonTermination
  | rounds + 1, cursor => do
    let (line, cursor) ← cursor.getNextLine
    match line with
    | none => return []
    | some line => return line :: (← nextLinesLoop rounds cursor)

/-- The calls on a new cursor end, and return the lines of the text; with what was taken off them
they are the text. -/
def SplitsIntoLines (string : StringT) : Prop :=
  ∃ rounds lines, nextLinesLoop rounds (create string) = .ok lines ∧
    lines.map StringT.content = linesOf 10 13 string.content ∧
    (List.zipWith (· ++ ·) (lines.map StringT.content)
      (terminatorsOf 10 13 string.content)).flatten = string.content

/-! ### One call -/

variable {cursor : StringCursorT}

/-- At the end there is no line. -/
theorem getNextLine_nil (h : cursor.rest = []) : cursor.getNextLine = .ok (none, cursor) := by
  have hlength := cursor.length_rest
  rw [h, List.length_nil] at hlength
  rw [getNextLine, if_pos (by omega)]

/-- The character in front of a newline is the last one of the line, if that is not empty. -/
private theorem getCharAt_before {piece after : List UInt8} (h : cursor.rest = piece ++ 10 :: after)
    (hne : piece ≠ []) :
    cursor.string.getCharAt (cursor.offset + piece.length - 1) = 13 ↔ piece.getLast? = some 13 := by
  have hpos := List.length_pos_of_ne_nil hne
  have hindex : cursor.offset + piece.length - 1 = cursor.offset + (piece.length - 1) := by omega
  have hlast : cursor.string.content[cursor.offset + (piece.length - 1)]? =
      some (piece.getLast hne) := by
    rw [← List.getElem?_drop, ← StringCursorT.rest, h, List.getElem?_append_left (by omega),
      ← List.getLast?_eq_getElem?, List.getLast?_eq_some_getLast hne]
  rw [StringT.getCharAt_eq, hindex, List.getD_eq_getElem?_getD, hlast,
    List.getLast?_eq_some_getLast hne, Option.getD_some, Option.some.injEq]

/-- A part of what is to be read is copied. -/
private theorem substring_rest {part more : List UInt8} (h : cursor.rest = part ++ more)
    (hne : cursor.rest ≠ []) :
    cursor.string.substring cursor.offset (cursor.offset + part.length) =
      .ok (some (StringT.fromBufferWithLength part)) := by
  have hpos := List.length_pos_of_ne_nil hne
  have hlength := cursor.length_rest
  have hpart := congrArg List.length h
  rw [List.length_append] at hpart
  rw [StringT.substring_of_le (Nat.le_add_right _ _) (by omega) (by omega), ← StringCursorT.rest, h,
    Nat.add_sub_cancel_left, List.take_left]

/-- The end of the call, with the index where the content of the line ends. -/
private theorem line_of_last {cursor' : StringCursorT} {part more : List UInt8} {last : Int}
    (h : cursor.rest = part ++ more) (hne : cursor.rest ≠ [])
    (hlast : last = cursor.offset + part.length) :
    (if last ≥ cursor.offset then do
        let line ← cursor.string.substring cursor.offset last.toNat
        return (line, cursor')
      else return (some (StringT.fromBuffer []), cursor') :
      Checked (Option StringT × StringCursorT)) =
        .ok (some (StringT.fromBufferWithLength part), cursor') := by
  have hend : last.toNat = cursor.offset + part.length := by omega
  rw [if_pos (by omega), hend, substring_rest h hne]
  rfl

/-- Up to a newline behind index 0 there is the line in front of it. -/
theorem getNextLine_append {piece rest : List UInt8} (hpiece : 10 ∉ piece) (hz : 0 ∉ piece)
    (h : cursor.rest = piece ++ 10 :: rest) (hpos : 0 < cursor.offset + piece.length) :
    ∃ line, cursor.getNextLine = .ok (some line, cursor.advance (piece.length + 1)) ∧
      line.content = withoutReturn 13 piece := by
  have hlength := cursor.length_rest
  rw [h, List.length_append, List.length_cons] at hlength
  have hne : cursor.rest ≠ [] := by simp [h]
  rw [getNextLine, if_neg (by omega), findNextChar_of_append (by decide) hpiece hz h]
  have hindex : (Int.ofNat (cursor.offset + piece.length) - 1).toNat =
      cursor.offset + piece.length - 1 := by
    rw [Int.ofNat_eq_natCast]
    omega
  have hfound : Int.ofNat (cursor.offset + piece.length) > 0 := by
    rw [Int.ofNat_eq_natCast]
    omega
  have hlast : Int.ofNat (cursor.offset + piece.length) = cursor.offset + piece.length := by
    rw [Int.ofNat_eq_natCast, Int.natCast_add]
  simp only [Option.map_some, Option.getD_some, advance, if_pos hfound, hindex]
  by_cases hnil : piece = []
  · -- The character in front of the newline is not one of this line, which is empty either way.
    subst hnil
    split
    · refine ⟨StringT.fromBuffer [], ?_, by decide⟩
      rw [hlast, if_neg (by rw [List.length_nil]; omega)]
      rfl
    · have hempty : cursor.rest = [] ++ cursor.rest := rfl
      exact ⟨_, line_of_last hempty hne hlast, by decide⟩
  · have hcharacter := getCharAt_before h hnil
    by_cases hreturn : piece.getLast? = some 13
    · obtain ⟨front, rfl⟩ := List.getLast?_eq_some_iff.mp hreturn
      rw [List.append_assoc] at h
      simp only [if_pos (hcharacter.mpr hreturn)]
      refine ⟨_, line_of_last h hne ?_, ?_⟩
      · rw [hlast, List.length_append, List.length_singleton]
        omega
      · rw [StringT.content_fromBufferWithLength, withoutReturn, if_pos hreturn,
          List.dropLast_concat]
    · simp only [if_neg (mt hcharacter.mp hreturn)]
      refine ⟨_, line_of_last h hne hlast, ?_⟩
      rw [StringT.content_fromBufferWithLength, withoutReturn, if_neg hreturn]

/-- Behind the last newline there is what remains. -/
theorem getNextLine_last (hnewline : 10 ∉ cursor.rest) (hz : 0 ∉ cursor.rest)
    (hne : cursor.rest ≠ []) :
    ∃ line cursor', cursor.getNextLine = .ok (some line, cursor') ∧ line.content = cursor.rest ∧
      cursor'.rest = [] := by
  have hlength := cursor.length_rest
  have hpos := List.length_pos_of_ne_nil hne
  have hsearch : 10 ∉ cString cursor.rest := fun hm ↦ hnewline (List.takeWhile_subset _ hm)
  have hfind := findNextChar_of_notMem hsearch
  have hnone : ¬ (-1 : Int) > 0 := by decide
  rw [getNextLine, if_neg (by omega), hfind]
  simp only [Option.map_none, Option.getD_none, if_neg hnone]
  refine ⟨_, _, line_of_last (List.append_nil _).symm hne ?_,
    StringT.content_fromBufferWithLength _, ?_⟩
  · change (cursor.string.size : Int) = _
    omega
  · have hend : cString cursor.rest = cursor.rest := cString_eq_self hz
    rw [rest_advance, strlen, hend, Nat.min_eq_right (Nat.le_succ _), List.drop_length]

/-! ### All calls -/

/-- At the end there are no more lines. -/
theorem nextLinesLoop_nil (rounds : Nat) (h : cursor.rest = []) :
    nextLinesLoop (rounds + 1) cursor = .ok [] := by
  rw [nextLinesLoop, getNextLine_nil h]
  rfl

/-- A call that returns a line, and the calls behind it. -/
theorem nextLinesLoop_cons {rounds : Nat} {cursor' : StringCursorT} {line : StringT}
    {lines : List StringT} (hget : cursor.getNextLine = .ok (some line, cursor'))
    (hloop : nextLinesLoop rounds cursor' = .ok lines) :
    nextLinesLoop (rounds + 1) cursor = .ok (line :: lines) := by
  rw [nextLinesLoop, hget, checked_ok_bind]
  dsimp only
  rw [hloop]
  rfl

/-- From a cursor that does not stand on a newline at index 0 the calls return the lines of what is
to be read. The induction is over these lines. -/
theorem nextLinesLoop_lines {rounds : Nat} (hrounds : cursor.rest.length < rounds)
    (hz : 0 ∉ cursor.rest) (hstart : cursor.offset = 0 → cursor.rest.head? ≠ some 10) :
    ∃ lines, nextLinesLoop rounds cursor = .ok lines ∧
      lines.map StringT.content = linesOf 10 13 cursor.rest := by
  induction hrest : cursor.rest using induction_on_lines (10 : UInt8)
    generalizing cursor rounds with
  | nil =>
    obtain ⟨rounds, rfl⟩ : ∃ n, rounds = n + 1 := ⟨rounds - 1, by omega⟩
    exact ⟨[], nextLinesLoop_nil rounds hrest, linesOf_nil.symm⟩
  | last text hnewline hne =>
    obtain ⟨rounds, rfl⟩ : ∃ n, rounds = n + 2 := by
      have := List.length_pos_of_ne_nil hne
      rw [hrest] at hrounds
      exact ⟨rounds - 2, by omega⟩
    subst hrest
    obtain ⟨line, cursor', hget, hline, hend⟩ := getNextLine_last hnewline hz hne
    refine ⟨[line], nextLinesLoop_cons hget (nextLinesLoop_nil rounds hend), ?_⟩
    rw [linesOf_of_notMem hnewline hne, List.map_singleton, hline]
  | line piece text hnewline ih =>
    obtain ⟨rounds, rfl⟩ : ∃ n, rounds = n + 1 := ⟨rounds - 1, by omega⟩
    rw [hrest] at hrounds hz hstart
    have hpos : 0 < cursor.offset + piece.length := by
      by_contra hzero
      obtain rfl : piece = [] := List.eq_nil_of_length_eq_zero (by omega)
      exact hstart (by omega) rfl
    have hpiece : 0 ∉ piece := fun hm ↦ hz (List.mem_append_left _ hm)
    obtain ⟨line, hget, hline⟩ := getNextLine_append hnewline hpiece hrest hpos
    have hnext : (cursor.advance (piece.length + 1)).rest = text := by
      rw [rest_advance, hrest, ← List.drop_drop, List.drop_left]
      rfl
    have hshort : (cursor.advance (piece.length + 1)).rest.length < rounds := by
      rw [List.length_append, List.length_cons] at hrounds
      rw [hnext]
      omega
    have hztext : 0 ∉ (cursor.advance (piece.length + 1)).rest := by
      rw [hnext]
      exact fun hm ↦ hz (List.mem_append_right _ (List.mem_cons_of_mem _ hm))
    obtain ⟨lines, hloop, hlines⟩ :=
      ih hshort hztext (fun h0 ↦ absurd h0 (Nat.succ_ne_zero _)) hnext
    refine ⟨line :: lines, nextLinesLoop_cons hget hloop, ?_⟩
    rw [linesOf_append hnewline, List.map_cons, hline, hlines]

/-- A newline at index 0 is not found, and the whole string is returned as its first line. -/
theorem getNextLine_leading {string : StringT} {text : List UInt8}
    (h : string.content = 10 :: text) :
    ∃ line cursor, (create string).getNextLine = .ok (some line, cursor) ∧
      line.content = string.content := by
  have hrest : (create string).rest = string.content := rest_create string
  have hlength := (create string).length_rest
  have hne : (create string).rest ≠ [] := by simp [hrest, h]
  have hpos := List.length_pos_of_ne_nil hne
  have hoffset : (create string).offset = 0 := rfl
  have hleading : (create string).rest = [] ++ 10 :: text := hrest.trans h
  have hfind := findNextChar_of_append (by decide) List.not_mem_nil List.not_mem_nil hleading
  have hnone : ¬ Int.ofNat ((create string).offset + ([] : List UInt8).length) > 0 :=
    Int.lt_irrefl 0
  rw [getNextLine, if_neg (by omega), hfind]
  simp only [Option.map_some, Option.getD_some, if_neg hnone]
  refine ⟨_, _, line_of_last (List.append_nil _).symm hne ?_, ?_⟩
  · change ((create string).string.size : Int) = _
    omega
  · rw [StringT.content_fromBufferWithLength, hrest]

theorem not_splitsIntoLines {string : StringT} {text : List UInt8}
    (h : string.content = 10 :: text) : ¬ SplitsIntoLines string := by
  rintro ⟨rounds, lines, hloop, hlines, -⟩
  obtain ⟨line, cursor, hget, hline⟩ := getNextLine_leading h
  cases rounds with
  | zero => cases hloop
  | succ rounds =>
    rw [nextLinesLoop, hget, checked_ok_bind] at hloop
    dsimp only at hloop
    obtain ⟨others, -, hothers⟩ := exists_of_bind_eq_ok hloop
    cases hothers
    rw [h, ← List.nil_append (10 :: text), linesOf_append List.not_mem_nil, List.map_cons,
      hline, h] at hlines
    cases hlines

/-- A string without NUL is split into its lines if and only if it does not start with a
newline. -/
theorem splitsIntoLines_iff {string : StringT} (hz : 0 ∉ string.content) :
    SplitsIntoLines string ↔ string.content.head? ≠ some 10 := by
  constructor
  · intro hsplits hhead
    obtain ⟨text, htext⟩ := List.head?_eq_some_iff.mp hhead
    exact not_splitsIntoLines htext hsplits
  · intro hhead
    have hrest : (create string).rest = string.content := rest_create string
    obtain ⟨lines, hloop, hlines⟩ := nextLinesLoop_lines (Nat.lt_succ_self _)
      (hrest.symm ▸ hz) (fun _ ↦ hrest.symm ▸ hhead)
    rw [hrest] at hlines
    refine ⟨_, lines, hloop, hlines, ?_⟩
    rw [hlines, join_linesOf]

/-- Empty lines, a carriage return and no newline at the end. -/
theorem splitsIntoLines_five :
    SplitsIntoLines (StringT.fromBufferWithLength [97, 10, 10, 98, 13, 10, 13, 10, 99]) :=
  (splitsIntoLines_iff (by decide)).mpr (by decide)

/-- A newline and `a` are returned as one line. -/
theorem leading_newline_not_splitsIntoLines :
    ¬ SplitsIntoLines (StringT.fromBufferWithLength [10, 97]) :=
  not_splitsIntoLines (StringT.content_fromBufferWithLength [10, 97])

end Wsic.StringCursorT
