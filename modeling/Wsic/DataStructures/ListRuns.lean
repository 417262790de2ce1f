import Wsic.Lib.Transition
import Wsic.DataStructures.RingOps

/-!
# Runs of list operations

Any mix of the calls of `src/datastructures/list/list.c` on a list from `list_create`,
compared with the same calls on a plain sequence. The two agree as long as no cursor
move is judged shorter to the left past index 0 in a ring whose length does not divide
`2^64`: there the wrapped index of `list.c:70` is no longer the index of the node.
-/

open CMemory Transition

namespace Wsic.ListT

variable {α : Type} [DecidableEq α]

/-- One call. -/
inductive Op (α : Type) where
  | addValue (value : α)
  | getValue (index : Nat)
  | setValue (index : Nat) (value : α)
  | removeValue (index : Nat)
  | findIndex (value : α)
  | clear
deriving DecidableEq

/-- What a call returns; null and `-1` are `none`. -/
inductive Result (α : Type) where
  | done
  | value (value : Option α)
  | index (index : Option Nat)
deriving DecidableEq

/-- One call on a list. -/
def step (list : ListT α) : Op α → Checked (Result α × ListT α)
  | .addValue v => return (.done, ← list.addValue v)
  | .getValue i => return (← list.getValue i).map .value id
  | .setValue i v => return (← list.setValue i v).map .value id
  | .removeValue i => return (← list.removeValue i).map .value id
  | .findIndex v => return (← list.findIndex v).map .index id
  | .clear => return (.done, ← list.clear)

/-- The sequence after a call that may return this result on it. A search may return any
index that holds the value. -/
def onSequence (vs : List α) : Op α × Result α → Option (List α)
  | (.addValue v, .done) => some (vs ++ [v])
  | (.getValue i, .value r) => if r = vs[i]? then some vs else none
  | (.setValue i v, .value r) => if r = vs[i]? then some (vs.set i v) else none
  | (.removeValue i, .value r) => if r = vs[i]? then some (vs.eraseIdx i) else none
  | (.findIndex v, .index (some k)) => if vs[k]? = some v then some vs else none
  | (.findIndex v, .index none) => if v ∈ vs then none else some vs
  | (.clear, .done) => some []
  | _ => none

/-- The condition on a call: the cursor move that it makes is safe. -/
def Op.MovesSafely (list : ListT α) : Op α → Prop
  | .getValue i | .setValue i _ | .removeValue i =>
    i < list.length → MoveSafe list.currentIndex list.length i
  | _ => True

/-- After every call of the run, all calls so far have returned what they return on a
sequence, and the list is a ring that holds this sequence. -/
def RefinesSequence (calls : List (Op α)) : Prop :=
  ∀ done, done <+: calls → ∃ s, exec (observe step) ([], ListT.create) done = .ok s ∧
    s.1.map Prod.fst = done ∧ ∃ vs, s.1.foldlM onSequence [] = some vs ∧ Holds s.2 vs

/-- One call with a safe move returns what it returns on the sequence. -/
theorem step_onSequence {list : ListT α} {vs : List α} (h : Holds list vs) (op : Op α)
    (hm : op.MovesSafely list) : ∃ r list' vs', step list op = .ok (r, list') ∧
      onSequence vs (op, r) = some vs' ∧ Holds list' vs' := by
  cases op with
  | addValue v =>
    obtain ⟨list', he, hh, -⟩ := h.addValue v
    exact ⟨.done, list', _, by rw [step, he]; rfl, rfl, hh⟩
  | getValue i =>
    simp only [Op.MovesSafely, h.length_eq] at hm
    obtain ⟨list', he, hh, -⟩ := h.getValue i hm
    exact ⟨.value vs[i]?, list', _, by rw [step, he]; rfl, if_pos rfl, hh⟩
  | setValue i v =>
    simp only [Op.MovesSafely, h.length_eq] at hm
    obtain ⟨list', he, hh⟩ := h.setValue i v hm
    exact ⟨.value vs[i]?, list', _, by rw [step, he]; rfl, if_pos rfl, hh⟩
  | removeValue i =>
    simp only [Op.MovesSafely, h.length_eq] at hm
    obtain ⟨list', he, hh⟩ := h.removeValue i hm
    exact ⟨.value vs[i]?, list', _, by rw [step, he]; rfl, if_pos rfl, hh⟩
  | findIndex v =>
    obtain ⟨r, list', he, hh, hr⟩ := h.findIndex v
    refine ⟨.index r, list', vs, by rw [step, he]; rfl, ?_, hh⟩
    cases r with
    | some k => exact if_pos hr
    | none => exact if_neg hr
  | clear =>
    obtain ⟨list', he, hh⟩ := h.clear
    exact ⟨.done, list', _, by rw [step, he]; rfl, rfl, hh⟩

/-- In every run whose moves are safe the list refines a sequence. -/
theorem runs_refinesSequence (calls : List (Op α))
    (h : Guarded (observe step) (fun s op ↦ op.MovesSafely s.2) ([], ListT.create) calls) :
    RefinesSequence calls := by
  intro done hd
  have hstep (list : ListT α) (vs : List α) (op : Op α) (hh : Holds list vs)
      (hm : op.MovesSafely list) := step_onSequence hh op hm
  obtain ⟨s, he, hs⟩ := simulation holds_create hstep (h.of_prefix hd)
  exact ⟨s, he, observe_labels he, hs⟩

/-- A run with reads behind and in front of the cursor and a removal. -/
theorem runs_refinesSequence_three :
    RefinesSequence [.addValue 5, .addValue 6, .addValue 7, .getValue 1, .removeValue 0] := by
  apply runs_refinesSequence (α := Nat)
  refine guarded_cons.mpr ⟨trivial, ?_⟩
  rintro _ ⟨⟩
  refine guarded_cons.mpr ⟨trivial, ?_⟩
  rintro _ ⟨⟩
  refine guarded_cons.mpr ⟨trivial, ?_⟩
  rintro _ ⟨⟩
  refine guarded_cons.mpr ⟨fun _ ↦ by decide, ?_⟩
  rintro _ ⟨⟩
  exact guarded_cons.mpr ⟨fun _ ↦ by decide, fun _ _ ↦ guarded_nil⟩

/-- Nine values `0` to `8` in order and a read at index 6, with the cursor still at 0: the walk
goes left past the front and the value at index 8 is returned. -/
theorem nine_values_not_refinesSequence :
    ¬ RefinesSequence ((List.range 9).map .addValue ++ [.getValue 6]) := by
  intro h
  obtain ⟨s, he, -, vs, hs, -⟩ := h _ (List.prefix_refl _)
  have hr : (exec (observe (step (α := Nat))) ([], ListT.create)
      ((List.range 9).map .addValue ++ [.getValue 6])).map Prod.fst =
      .ok ((List.range 9).map (fun v ↦ (.addValue v, .done)) ++ [(.getValue 6, .value (some 8))]) :=
    rfl
  rw [he] at hr
  have hnone : ((List.range 9).map (fun v ↦ (Op.addValue v, Result.done)) ++
      [(Op.getValue 6, Result.value (some 8))]).foldlM onSequence [] = none := by decide
  rw [Except.ok.inj hr, hnone] at hs
  cases hs

end Wsic.ListT
