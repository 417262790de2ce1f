import Mathlib.Data.List.Basic

/-!
# Programs that read and write

General support: a terminating program by the bytes that it reads, writes and writes as errors,
whatever it does in between, and what it makes of a given input. Its partner gives it all the
input before it takes any output and takes no errors at all, and between them are pipes of a
bounded capacity: `fate` says what becomes of the two.
-/

namespace Interaction

variable {β : Type}

/-- What a program does next. A read gets nothing at the end of the input. -/
inductive Program (β : Type) where
  | exit
  | write (b : β) (next : Program β)
  | error (b : β) (next : Program β)
  | read (next : Option β → Program β)

/-- What becomes of a program and its partner. -/
inductive Fate where
  /-- The program exits, and all its output can be taken. -/
  | finishes
  /-- The program waits for room for its errors, and the partner for output. -/
  | starves
  /-- The program waits for room for its output or errors, and the partner for room for input. -/
  | jams
deriving DecidableEq

namespace Program

/-- The output on an input. -/
def output : Program β → List β → List β
  | .exit, _ => []
  | .write b next, input => b :: next.output input
  | .error _ next, input => next.output input
  | .read next, [] => (next none).output []
  | .read next, b :: input => (next (some b)).output input

/-- What becomes of a program that has written so many bytes and errors, on the input that it
has not read. Its partner has to put in all of it, and can when the last of it fits in a pipe. -/
def fate (capacity : ℕ) : ℕ → ℕ → Program β → List β → Fate
  | _, _, .exit, _ => .finishes
  | written, errors, .write _ next, input =>
    if capacity ≤ written ∧ capacity < input.length then .jams
    else next.fate capacity (written + 1) errors input
  | written, errors, .error _ next, input =>
    if capacity ≤ errors then
      if capacity < input.length then .jams else .starves
    else next.fate capacity written (errors + 1) input
  | written, errors, .read next, [] => (next none).fate capacity written errors []
  | written, errors, .read next, b :: input =>
    (next (some b)).fate capacity written errors input

/-- When the input fits in a pipe, it does not matter what was written. -/
theorem fate_congr {capacity : ℕ} {input : List β} (h : input.length ≤ capacity)
    (program : Program β) (written written' errors : ℕ) :
    program.fate capacity written errors input = program.fate capacity written' errors input := by
  induction program generalizing written written' errors input with
  | exit => rfl
  | write b next ih =>
    simp only [fate, Nat.not_lt.mpr h, and_false, if_false]
    exact ih h _ _ errors
  | error b next ih =>
    simp only [fate, Nat.not_lt.mpr h, if_false]
    rw [ih h written written']
  | read next ih =>
    cases input with
    | nil => exact ih none h written written' errors
    | cons b input => exact ih (some b) (Nat.le_of_succ_le h) written written' errors

/-- When the input fits in a pipe, the partner can put it in. -/
theorem fate_ne_jams {capacity : ℕ} {input : List β} (h : input.length ≤ capacity)
    (program : Program β) (written errors : ℕ) :
    program.fate capacity written errors input ≠ .jams := by
  induction program generalizing written errors input with
  | exit => exact nofun
  | write b next ih =>
    simp only [fate, Nat.not_lt.mpr h, and_false, if_false]
    exact ih h _ errors
  | error b next ih =>
    simp only [fate, Nat.not_lt.mpr h, if_false]
    split
    · exact nofun
    · exact ih h written _
  | read next ih =>
    cases input with
    | nil => exact ih none h written errors
    | cons b input => exact ih (some b) (Nat.le_of_succ_le h) written errors

end Program

end Interaction
