import Mathlib.Data.Set.Finite.Basic
import Mathlib.Logic.Relation
import Mathlib.Order.WellFounded

/-!
# Iterating a partial function

A function that gives the next state or stops, the relation between a state and the next one,
and loops with a bounded number of rounds. The iteration from a state stops exactly when the
state is accessible.
-/

namespace Rewriting

variable {α : Type} {next : α → Option α}

/-- A state and the one before it. -/
def Next (next : α → Option α) (b a : α) : Prop := next a = some b

/-- The iteration stops within a number of rounds. -/
def stopsWithin (next : α → Option α) : Nat → α → Bool
  | 0, _ => false
  | rounds + 1, a =>
    match next a with
    | none => true
    | some b => stopsWithin next rounds b

theorem acc_of_stop {a : α} (h : next a = none) : Acc (Next next) a := by
  constructor
  intro b hb
  rw [Next, h] at hb
  cases hb

theorem acc_of_next {a b : α} (h : next a = some b) (hb : Acc (Next next) b) :
    Acc (Next next) a := by
  constructor
  intro b' hb'
  rw [Next, h] at hb'
  cases hb'
  exact hb

/-- States with the same next one are both accessible or both not. -/
theorem acc_of_next_eq {a a' : α} (h : next a = next a') (ha : Acc (Next next) a') :
    Acc (Next next) a := by
  cases hn : next a' with
  | none => exact acc_of_stop (h.trans hn)
  | some b => exact acc_of_next (h.trans hn) (ha.inv hn)

/-- States with the same next one reach the same states. -/
theorem transGen_of_next_eq {a a' b : α} (h : next a = next a')
    (hb : Relation.TransGen (Next next) b a') : Relation.TransGen (Next next) b a := by
  cases hb with
  | single hn => exact .single (h.trans hn)
  | tail hb hn => exact .tail hb (h.trans hn)

/-- A state from which the iteration comes back to `P` again and again is not accessible. -/
theorem not_acc_of_progress {P : α → Prop}
    (h : ∀ a, P a → ∃ b, Relation.TransGen (Next next) b a ∧ P b) {a : α} (ha : P a) :
    ¬ Acc (Next next) a := by
  intro hacc
  have htrans := hacc.transGen
  clear hacc
  induction htrans with
  | intro a _ ih =>
    obtain ⟨b, hb, hP⟩ := h a ha
    exact ih b hb hP

/-- The iteration stops within some number of rounds exactly from accessible states. -/
theorem exists_stopsWithin_iff (a : α) :
    (∃ rounds, stopsWithin next rounds a = true) ↔ Acc (Next next) a := by
  constructor
  · rintro ⟨rounds, h⟩
    induction rounds generalizing a with
    | zero => cases h
    | succ rounds ih =>
      rw [stopsWithin] at h
      cases hn : next a with
      | none => exact acc_of_stop hn
      | some b =>
        rw [hn] at h
        exact acc_of_next hn (ih b h)
  · intro h
    induction h with
    | intro a _ ih =>
      cases hn : next a with
      | none => exact ⟨1, by rw [stopsWithin, hn]⟩
      | some b =>
        obtain ⟨rounds, hb⟩ := ih b hn
        exact ⟨rounds + 1, by rw [stopsWithin, hn]; exact hb⟩

/-- More rounds do no harm. -/
theorem stopsWithin_mono {m n : Nat} {a : α} (h : stopsWithin next m a = true) (hle : m ≤ n) :
    stopsWithin next n a = true := by
  induction m generalizing n a with
  | zero => cases h
  | succ m ih =>
    obtain ⟨n, rfl⟩ := Nat.exists_eq_succ_of_ne_zero (show n ≠ 0 by omega)
    rw [stopsWithin] at h ⊢
    cases hn : next a with
    | none => rfl
    | some b =>
      rw [hn] at h
      exact ih h (Nat.le_of_succ_le_succ hle)

/-! ### Acyclic relations -/

end Rewriting
