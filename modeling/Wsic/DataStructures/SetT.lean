import Mathlib.Data.List.Induction
import Wsic.DataStructures.RingOps

/-!
# The set

Model of `src/datastructures/set/set.c`: a list to which a value is added only when a search from
the cursor of the list does not find it. Reading the set index by index, as the callers do, gives
the values in the order in which they were added first.
-/

open CMemory

namespace Wsic

/-- `set_t`, `set.h:8`. -/
abbrev SetT (α : Type) := ListT α

namespace SetT

variable {α : Type}

/-- `set_create`, `set.c:3`. -/
def create : SetT α := ListT.create

/-- `set_addValue`, `set.c:7`. -/
def addValue [DecidableEq α] (set : SetT α) (value : α) : Checked (SetT α) := do
  let (index, set) ← ListT.findIndex set value
  match index with
  -- Ignore duplicate values
  | some _ => return set
  | none => ListT.addValue set value

/-- `set_getValue`, `set.c:20`. -/
def getValue (set : SetT α) (index : ℕ) : Checked (Option α × SetT α) := ListT.getValue set index

/-- `set_getLength`, `set.c:24`. -/
def getLength (set : SetT α) : ℕ := ListT.length set

/-- Add the values one after another. -/
def addValues [DecidableEq α] (set : SetT α) (values : List α) : Checked (SetT α) :=
  values.foldlM addValue set

/-- The loop of the callers over the indices from `i` on, with `rounds` rounds left. -/
def readLoop : ℕ → ℕ → SetT α → Checked (List (Option α) × SetT α)
  | 0, _, set => .ok ([], set)
  | rounds + 1, i, set => do
    let (value, set) ← set.getValue i
    let (values, set) ← readLoop rounds (i + 1) set
    return (value :: values, set)

/-- Read all indices in order. -/
def readAll (set : SetT α) : Checked (List (Option α) × SetT α) := readLoop set.getLength 0 set

/-! ### Reading -/

/-- Reading in order returns the values from the index on. -/
theorem readLoop_holds {set : SetT α} {vs : List α} (h : ListT.Holds set vs) {rounds i : ℕ}
    (hi : i + rounds = vs.length) (hc : i = 0 ∨ i = set.currentIndex + 1) :
    ∃ set', readLoop rounds i set = .ok ((vs.drop i).map some, set') ∧ ListT.Holds set' vs := by
  induction rounds generalizing set i with
  | zero =>
    refine ⟨set, ?_, h⟩
    rw [List.drop_of_length_le (by omega)]
    rfl
  | succ rounds ih =>
    have hlt : i < vs.length := by omega
    obtain ⟨set₁, hget, hholds, hcursor⟩ := h.getValue_inOrder hlt hc
    obtain ⟨set₂, hloop, hholds'⟩ := ih hholds (by omega) hcursor
    refine ⟨set₂, ?_, hholds'⟩
    rw [readLoop, getValue, hget, checked_ok_bind]
    dsimp only
    rw [hloop, List.drop_eq_getElem_cons hlt]
    rfl

theorem readAll_holds {set : SetT α} {vs : List α} (h : ListT.Holds set vs) :
    ∃ set', readAll set = .ok (vs.map some, set') ∧ ListT.Holds set' vs := by
  have hlength : 0 + set.getLength = vs.length := by rw [getLength, h.length_eq, Nat.zero_add]
  exact readLoop_holds h hlength (.inl rfl)

/-! ### Adding -/

variable [DecidableEq α]

/-- Wherever the cursor is, a value is added behind the others unless it is one of them. -/
theorem addValue_holds {set : SetT α} {vs : List α} (h : ListT.Holds set vs) (value : α) :
    ∃ set', addValue set value = .ok set' ∧
      ListT.Holds set' (if value ∈ vs then vs else vs ++ [value]) := by
  obtain ⟨index, searched, hfind, hholds, hindex⟩ := h.findIndex value
  rw [addValue, hfind, checked_ok_bind]
  cases index with
  | some k =>
    rw [if_pos (List.mem_of_getElem? hindex)]
    exact ⟨searched, rfl, hholds⟩
  | none =>
    obtain ⟨set', hadd, hholds', -⟩ := hholds.addValue value
    rw [if_neg hindex]
    exact ⟨set', hadd, hholds'⟩

theorem eraseDups_concat (vs : List α) (value : α) :
    (vs ++ [value]).eraseDups =
      if value ∈ vs.eraseDups then vs.eraseDups else vs.eraseDups ++ [value] := by
  rw [List.eraseDups_append]
  by_cases hmem : value ∈ vs
  · rw [if_pos (List.mem_eraseDups.mpr hmem)]
    simp [List.removeAll, hmem]
  · rw [if_neg (mt List.mem_eraseDups.mp hmem)]
    simp [List.removeAll, hmem, List.eraseDups_cons]

/-- The set holds each value once, in the order of their first additions. -/
theorem addValues_holds (values : List α) :
    ∃ set, addValues create values = .ok set ∧ ListT.Holds set values.eraseDups := by
  induction values using List.reverseRecOn with
  | nil => exact ⟨create, rfl, ListT.holds_create⟩
  | append_singleton values value ih =>
    obtain ⟨set, hadd, hholds⟩ := ih
    obtain ⟨set', hadd', hholds'⟩ := addValue_holds hholds value
    refine ⟨set', ?_, ?_⟩
    · rw [addValues, List.foldlM_append, ← addValues, hadd]
      simpa using hadd'
    · rwa [eraseDups_concat]

/-- Values that are added to a new set are in its list without duplicates, in the order of their
first additions, and reading all indices in order returns them, from the set as the last search
left it and from the same list with its cursor anywhere else. -/
theorem addValues_readAll (values : List α) :
    ∃ set, addValues create values = .ok set ∧ ListT.Holds set values.eraseDups ∧
      getLength set = values.eraseDups.length ∧
      (∃ set', readAll set = .ok (values.eraseDups.map some, set')) ∧
      ∀ moved, ListT.Holds moved values.eraseDups →
        ∃ set', readAll moved = .ok (values.eraseDups.map some, set') := by
  obtain ⟨set, hadd, hholds⟩ := addValues_holds values
  have hread (moved : SetT α) (h : ListT.Holds moved values.eraseDups) :
      ∃ set', readAll moved = .ok (values.eraseDups.map some, set') := by
    obtain ⟨set', hread, -⟩ := readAll_holds h
    exact ⟨set', hread⟩
  exact ⟨set, hadd, hholds, hholds.length_eq, hread set hholds, hread⟩

end SetT
end Wsic
