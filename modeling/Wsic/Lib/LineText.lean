import Mathlib.Data.List.Basic

/-!
# Lines of a text

General support: the lines of a text are its pieces between newlines, each without a carriage
return directly in front of its newline. What stands behind the last newline is a line when it is
not empty. The lines and what was taken off them are the text.
-/

namespace LineText

variable {α : Type} [DecidableEq α] {newline carriageReturn : α}

/-- A piece in front of a newline, without a carriage return at its end. -/
def withoutReturn (carriageReturn : α) (piece : List α) : List α :=
  if piece.getLast? = some carriageReturn then piece.dropLast else piece

/-- What is taken off a piece with its newline. -/
def terminator (newline carriageReturn : α) (piece : List α) : List α :=
  if piece.getLast? = some carriageReturn then [carriageReturn, newline] else [newline]

/-- The line behind the last newline. -/
def lastLine (pieces : List (List α)) : List (List α) :=
  pieces.getLast?.toList.filter (· ≠ [])

/-- The lines of a text. -/
def linesOf (newline carriageReturn : α) (text : List α) : List (List α) :=
  (text.splitOn newline).dropLast.map (withoutReturn carriageReturn) ++
    lastLine (text.splitOn newline)

/-- What was taken off the lines, nothing off the one behind the last newline. -/
def terminatorsOf (newline carriageReturn : α) (text : List α) : List (List α) :=
  (text.splitOn newline).dropLast.map (terminator newline carriageReturn) ++
    (lastLine (text.splitOn newline)).map (fun _ ↦ [])

theorem withoutReturn_append_terminator (newline carriageReturn : α) (piece : List α) :
    withoutReturn carriageReturn piece ++ terminator newline carriageReturn piece =
      piece ++ [newline] := by
  unfold withoutReturn terminator
  split
  · next h =>
    obtain ⟨front, rfl⟩ := List.getLast?_eq_some_iff.mp h
    simp
  · rfl

/-! ### From the first newline on -/

theorem linesOf_nil : linesOf newline carriageReturn [] = [] := by
  simp [linesOf, lastLine]

theorem linesOf_of_notMem {text : List α} (h : newline ∉ text) (hne : text ≠ []) :
    linesOf newline carriageReturn text = [text] := by
  simp [linesOf, lastLine, List.splitOn_eq_singleton h, hne]

theorem linesOf_append {piece : List α} (h : newline ∉ piece) (rest : List α) :
    linesOf newline carriageReturn (piece ++ newline :: rest) =
      withoutReturn carriageReturn piece :: linesOf newline carriageReturn rest := by
  have hne : rest.splitOn newline ≠ [] := List.splitOn_ne_nil _ _
  rw [linesOf, List.splitOn_append_cons_self_of_not_mem h, List.dropLast_cons_of_ne_nil hne,
    linesOf, lastLine, lastLine, List.getLast?_cons_of_ne_nil hne]
  rfl

theorem terminatorsOf_of_notMem {text : List α} (h : newline ∉ text) (hne : text ≠ []) :
    terminatorsOf newline carriageReturn text = [[]] := by
  simp [terminatorsOf, lastLine, List.splitOn_eq_singleton h, hne]

theorem terminatorsOf_append {piece : List α} (h : newline ∉ piece) (rest : List α) :
    terminatorsOf newline carriageReturn (piece ++ newline :: rest) =
      terminator newline carriageReturn piece :: terminatorsOf newline carriageReturn rest := by
  have hne : rest.splitOn newline ≠ [] := List.splitOn_ne_nil _ _
  rw [terminatorsOf, List.splitOn_append_cons_self_of_not_mem h, List.dropLast_cons_of_ne_nil hne,
    terminatorsOf, lastLine, lastLine, List.getLast?_cons_of_ne_nil hne]
  rfl

/-- Induction over a text, line by line. -/
theorem induction_on_lines {P : List α → Prop} (newline : α) (nil : P [])
    (last : ∀ text, newline ∉ text → text ≠ [] → P text)
    (line : ∀ piece rest, newline ∉ piece → P rest → P (piece ++ newline :: rest))
    (text : List α) : P text := by
  induction hn : text.length using Nat.strongRecOn generalizing text with
  | ind n ih =>
    by_cases hmem : newline ∈ text
    · obtain ⟨piece, rest, rfl, hpiece⟩ := List.eq_append_cons_of_mem hmem
      apply line piece rest hpiece
      apply ih rest.length _ rest rfl
      rw [List.length_append, List.length_cons] at hn
      omega
    · by_cases hne : text = []
      · rw [hne]
        exact nil
      · exact last text hmem hne

/-- The lines with what was taken off them are the text. -/
theorem join_linesOf (newline carriageReturn : α) (text : List α) :
    (List.zipWith (· ++ ·) (linesOf newline carriageReturn text)
      (terminatorsOf newline carriageReturn text)).flatten = text := by
  induction text using induction_on_lines newline with
  | nil => rw [linesOf_nil, List.zipWith_nil_left, List.flatten_nil]
  | last text h hne =>
    rw [linesOf_of_notMem h hne, terminatorsOf_of_notMem h hne]
    simp
  | line piece rest h ih =>
    rw [linesOf_append h, terminatorsOf_append h, List.zipWith_cons_cons, List.flatten_cons, ih,
      withoutReturn_append_terminator, List.append_assoc, List.singleton_append]

end LineText
