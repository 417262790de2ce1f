import Mathlib.Data.List.Infix
import Mathlib.Data.List.Pairwise

/-!
# Greedy selection

General support: elements are taken from a list one after the other, each one that does not
clash with an element taken before it. This is `List.pwFilter` from the other end.
-/

namespace Greedy

variable {α : Type} (clash : α → α → Prop) [DecidableRel clash]

/-- The elements that are taken. -/
def select (l : List α) : List α := (l.reverse.pwFilter (fun a b ↦ ¬ clash b a)).reverse

@[simp] theorem select_nil : select clash [] = [] := rfl

/-- One more element is taken when it clashes with none of those taken before. -/
theorem select_concat (l : List α) (a : α) :
    select clash (l ++ [a]) =
      if ∃ b ∈ select clash l, clash b a then select clash l else select clash l ++ [a] := by
  unfold select
  rw [List.reverse_append, List.reverse_singleton, List.singleton_append]
  split
  · next h =>
    obtain ⟨b, hb, hclash⟩ := h
    rw [List.pwFilter_cons_of_neg]
    intro hall
    exact hall b (List.mem_reverse.mp hb) hclash
  · next h =>
    rw [List.pwFilter_cons_of_pos, List.reverse_cons]
    intro b hb hclash
    exact h ⟨b, List.mem_reverse.mpr hb, hclash⟩

theorem select_sublist (l : List α) : (select clash l).Sublist l := by
  have h := List.pwFilter_sublist (R := fun a b ↦ ¬ clash b a) l.reverse
  rwa [← List.reverse_sublist, List.reverse_reverse] at h

/-- No two of the elements that are taken clash. -/
theorem pairwise_select (l : List α) : (select clash l).Pairwise (fun a b ↦ ¬ clash a b) := by
  rw [select, List.pairwise_reverse]
  exact List.pairwise_pwFilter l.reverse

/-- What was taken stays. -/
theorem select_starts (l r : List α) : select clash l <+: select clash (l ++ r) := by
  induction r using List.reverseRecOn with
  | nil => rw [List.append_nil]
  | append_singleton r a ih =>
    rw [← List.append_assoc, select_concat]
    split
    · exact ih
    · exact ih.trans (List.prefix_append _ _)

/-- An element that is not taken clashes with one that was taken before it. -/
theorem mem_select_or (l r : List α) (a : α) :
    a ∈ select clash (l ++ a :: r) ∨
      ∃ b ∈ l, b ∈ select clash (l ++ a :: r) ∧ clash b a := by
  have hstarts := select_starts clash (l ++ [a]) r
  rw [List.append_assoc, List.singleton_append] at hstarts
  by_cases h : ∃ b ∈ select clash l, clash b a
  · obtain ⟨b, hb, hclash⟩ := h
    refine .inr ⟨b, (select_sublist clash l).subset hb, ?_, hclash⟩
    exact (select_starts clash l (a :: r)).subset hb
  · rw [select_concat, if_neg h] at hstarts
    exact .inl (hstarts.subset (List.mem_append_right _ List.mem_cons_self))

end Greedy
