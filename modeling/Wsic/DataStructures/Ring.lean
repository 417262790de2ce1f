import Mathlib.Data.List.Basic
import Wsic.DataStructures.ListT

/-!
# The ring invariant of the circular list

`Ring list addr vs` says that the nodes of `list` lie at the addresses `addr 0`,
`addr 1`, …, are linked both ways in one cycle and hold the values `vs`, that `tail` is
the last of them and that the cursor's node is the one its index names. Each operation
of `src/datastructures/list/list.c` is described by what it does to `vs`.
-/

open CMemory

namespace Wsic.ListT

variable {α : Type}

/-! ### Cyclic indices -/

/-- The index after `i` in a ring of `n`. -/
def succIdx (n i : Nat) : Nat := if i + 1 = n then 0 else i + 1

/-- The index before `i` in a ring of `n`. -/
def predIdx (n i : Nat) : Nat := if i = 0 then n - 1 else i - 1

theorem succIdx_lt {n i : Nat} (h : i < n) : succIdx n i < n := by
  unfold succIdx
  split <;> omega

theorem predIdx_lt {n i : Nat} (h : i < n) : predIdx n i < n := by
  unfold predIdx
  split <;> omega

theorem succ_mod_eq_succIdx {n i : Nat} (h : i < n) : (i + 1) % n = succIdx n i := by
  unfold succIdx
  split
  · next he => rw [he, Nat.mod_self]
  · exact Nat.mod_eq_of_lt (by omega)

/-! ### The invariant -/

/-- The nodes of the list form one ring that holds `vs`, with an exact cursor. -/
structure Ring (list : ListT α) (addr : Nat → Nat) (vs : List α) : Prop where
  length_eq : list.length = vs.length
  addr_lt : ∀ i < vs.length, addr i < list.brk
  addr_inj : ∀ i < vs.length, ∀ j < vs.length, addr i = addr j → i = j
  cell : ∀ i v, vs[i]? = some v → list.heap (addr i) =
    some ⟨addr (succIdx vs.length i), addr (predIdx vs.length i), v⟩
  tail_eq : list.tail = if vs.length = 0 then none else some (addr (vs.length - 1))
  current_eq : list.current = if vs.length = 0 then none else some (addr list.currentIndex)
  cursor : list.currentIndex < vs.length ∨ (vs.length = 0 ∧ list.currentIndex = 0)

/-- The list with its cursor put on a node. -/
def putCursor (list : ListT α) (index node : Nat) : ListT α :=
  { list with currentIndex := index, current := some node }

/-- The list holds the sequence `vs`. -/
def Holds (list : ListT α) (vs : List α) : Prop := ∃ addr, Ring list addr vs

/-- An empty list is a ring. -/
theorem holds_create : Holds (create : ListT α) [] :=
  ⟨fun _ ↦ 0, rfl, by simp, by simp, by simp, rfl, rfl, .inr ⟨rfl, rfl⟩⟩

namespace Ring

variable {list : ListT α} {addr : Nat → Nat} {vs : List α}

theorem currentIndex_lt (h : Ring list addr vs) (hn : vs ≠ []) :
    list.currentIndex < vs.length := by
  rcases h.cursor with hc | hc
  · exact hc
  · exact absurd (List.length_eq_zero_iff.mp hc.1) hn

theorem current_eq_some (h : Ring list addr vs) (hn : vs ≠ []) :
    list.current = some (addr list.currentIndex) := by
  rw [h.current_eq, if_neg (fun hz ↦ hn (List.length_eq_zero_iff.mp hz))]

theorem tail_eq_some (h : Ring list addr vs) (hn : vs ≠ []) :
    list.tail = some (addr (vs.length - 1)) := by
  rw [h.tail_eq, if_neg (fun hz ↦ hn (List.length_eq_zero_iff.mp hz))]

/-- The node at an index of the ring. -/
theorem load_addr (h : Ring list addr vs) {i : Nat} (hi : i < vs.length) :
    load list.heap (addr i) =
      .ok ⟨addr (succIdx vs.length i), addr (predIdx vs.length i), vs.get ⟨i, hi⟩⟩ := by
  rw [load, h.cell i _ (List.getElem?_eq_getElem hi)]
  rfl

/-- The cursor's node. -/
theorem currentNode_eq (h : Ring list addr vs) (hn : vs ≠ []) :
    list.currentNode = .ok ⟨addr (succIdx vs.length list.currentIndex),
      addr (predIdx vs.length list.currentIndex),
      vs.get ⟨list.currentIndex, h.currentIndex_lt hn⟩⟩ := by
  rw [currentNode, h.current_eq_some hn, deref_some, checked_ok_bind,
    h.load_addr (h.currentIndex_lt hn)]

/-- Putting the cursor on any node of the ring keeps the ring. -/
theorem putCursor (h : Ring list addr vs) {i : Nat} (hi : i < vs.length) :
    Ring (list.putCursor i (addr i)) addr vs where
  length_eq := h.length_eq
  addr_lt := h.addr_lt
  addr_inj := h.addr_inj
  cell := h.cell
  tail_eq := h.tail_eq
  current_eq := by
    rw [if_neg (by omega)]
    rfl
  cursor := .inl hi

/-- The list with its cursor already at its index is unchanged by putting it there. -/
theorem putCursor_self (h : Ring list addr vs) (hn : vs ≠ []) :
    list.putCursor list.currentIndex (addr list.currentIndex) = list := by
  rw [ListT.putCursor, ← h.current_eq_some hn]

end Ring

/-! ### Moving the cursor -/

/-- The move to `index` does not walk left past index 0 in a ring whose length does not
divide `2^64`: the walk to the left over the first node is not the one judged shorter,
or the wrapped index is the last one. -/
def MoveSafe (currentIndex length index : Nat) : Prop :=
  ¬ (1 + currentIndex + length - index < index - currentIndex ∧ index + 1 ≠ length ∧
    ¬ length ∣ 2 ^ 64)

instance (c n i : Nat) : Decidable (MoveSafe c n i) :=
  inferInstanceAs (Decidable (¬ (1 + c + n - i < i - c ∧ i + 1 ≠ n ∧ ¬ n ∣ 2 ^ 64)))

private theorem wrapped_mod {n : Nat} (h : n ∣ 2 ^ 64) : (2 ^ 64 - 1) % n = n - 1 := by
  obtain ⟨k, hk⟩ := h
  have hn : 0 < n := by
    rcases Nat.eq_zero_or_pos n with h0 | h0
    · subst h0
      simp at hk
    · exact h0
  have hk0 : 0 < k := by
    rcases Nat.eq_zero_or_pos k with h0 | h0
    · subst h0
      simp at hk
    · exact h0
  have he : 2 ^ 64 - 1 = n * (k - 1) + (n - 1) := by
    rw [hk]
    obtain ⟨m, rfl⟩ : ∃ m, k = m + 1 := ⟨k - 1, by omega⟩
    rw [Nat.add_sub_cancel, Nat.mul_add, Nat.mul_one]
    omega
  rw [he, Nat.mul_add_mod, Nat.mod_eq_of_lt (by omega)]

private theorem stepIndex_right {n c : Nat} (hc : c < n) : stepIndex 1 c n = succIdx n c := by
  rw [stepIndex, if_pos rfl, succ_mod_eq_succIdx hc]

private theorem stepIndex_left {n c : Nat} (hc : c < n) (hw : 0 < c ∨ n ∣ 2 ^ 64) :
    stepIndex (-1) c n = predIdx n c := by
  rw [stepIndex, if_neg (by decide), predIdx]
  split
  · next h0 =>
    rcases hw with hw | hw
    · omega
    · exact wrapped_mod hw
  · exact Nat.mod_eq_of_lt (by omega)

private theorem moveLoop_right {list : ListT α} {addr : Nat → Nat} {vs : List α} {index : Nat}
    (hi : index < vs.length) (rounds : Nat) (h : Ring list addr vs)
    (hr : (if list.currentIndex ≤ index then index - list.currentIndex
      else vs.length - list.currentIndex + index) ≤ rounds) :
    moveLoop 1 index rounds list =
      .ok (list.putCursor index (addr index)) := by
  have hn : vs ≠ [] := List.ne_nil_of_length_pos (by omega)
  induction rounds generalizing list with
  | zero =>
    have hc := h.currentIndex_lt hn
    have he : list.currentIndex = index := by split at hr <;> omega
    rw [moveLoop, if_pos he, ← he, h.putCursor_self hn]
  | succ rounds ih =>
    rw [moveLoop]
    split
    · next he => rw [← he, h.putCursor_self hn]
    · next he =>
      have hc := h.currentIndex_lt hn
      have hs := succIdx_lt hc
      have hstep : stepIndex 1 list.currentIndex list.length =
          succIdx vs.length list.currentIndex := by
        rw [h.length_eq, stepIndex_right hc]
      rw [h.currentNode_eq hn, checked_ok_bind, hstep]
      refine ih (h.putCursor hs) ?_
      simp only
      unfold succIdx at hs ⊢
      split at hr <;> split <;> split <;> omega

private theorem moveLoop_left {list : ListT α} {addr : Nat → Nat} {vs : List α} {index : Nat}
    (hi : index < vs.length) (rounds : Nat) (h : Ring list addr vs)
    (hw : index ≤ list.currentIndex ∨ vs.length ∣ 2 ^ 64)
    (hr : (if index ≤ list.currentIndex then list.currentIndex - index
      else list.currentIndex + vs.length - index) ≤ rounds) :
    moveLoop (-1) index rounds list =
      .ok (list.putCursor index (addr index)) := by
  have hn : vs ≠ [] := List.ne_nil_of_length_pos (by omega)
  induction rounds generalizing list with
  | zero =>
    have hc := h.currentIndex_lt hn
    have he : list.currentIndex = index := by split at hr <;> omega
    rw [moveLoop, if_pos he, ← he, h.putCursor_self hn]
  | succ rounds ih =>
    rw [moveLoop]
    split
    · next he => rw [← he, h.putCursor_self hn]
    · next he =>
      have hc := h.currentIndex_lt hn
      have hp := predIdx_lt hc
      have hw' : 0 < list.currentIndex ∨ vs.length ∣ 2 ^ 64 := hw.imp_left (by omega)
      have hstep : stepIndex (-1) list.currentIndex list.length =
          predIdx vs.length list.currentIndex := by
        rw [h.length_eq, stepIndex_left hc hw']
      rw [h.currentNode_eq hn, checked_ok_bind, hstep]
      refine ih (h.putCursor hp) ?_ ?_
      · simp only
        unfold predIdx at hp ⊢
        split
        · exact .inl (by omega)
        · rcases hw with hw | hw
          · exact .inl (by omega)
          · exact .inr hw
      · simp only
        unfold predIdx at hp ⊢
        split at hr <;> split <;> split <;> omega

/-- The walk in the direction judged shorter reaches an inner index of the ring. -/
private theorem moveLoop_direction {list : ListT α} {addr : Nat → Nat} {vs : List α}
    (h : Ring list addr vs) {index : Nat} (hi : index < vs.length)
    (hne : list.currentIndex ≠ index) (hlast : index + 1 ≠ vs.length)
    (hm : MoveSafe list.currentIndex vs.length index) :
    moveLoop (direction list.currentIndex vs.length index) index vs.length list =
      .ok (list.putCursor index (addr index)) := by
  have hc := h.currentIndex_lt (List.ne_nil_of_length_pos (by omega))
  unfold direction
  split
  · next hlt =>
    simp only
    split
    · next hdir =>
      have hd : vs.length ∣ 2 ^ 64 := by
        by_contra hd
        exact hm ⟨hdir, hlast, hd⟩
      apply moveLoop_left hi _ h (.inr hd)
      rw [if_neg (by omega)]
      omega
    · apply moveLoop_right hi _ h
      rw [if_pos (by omega)]
      omega
  · next hlt =>
    have hgt : list.currentIndex > index := by omega
    simp only [hgt, if_true]
    split
    · apply moveLoop_left hi _ h (.inl (by omega))
      rw [if_pos (by omega)]
      omega
    · apply moveLoop_right hi _ h
      rw [if_neg (by omega)]
      omega

/-- A safe move puts the cursor on the node that the index names and changes nothing else. -/
theorem Ring.moveToIndex {list : ListT α} {addr : Nat → Nat} {vs : List α}
    (h : Ring list addr vs) {index : Nat} (hi : index < vs.length)
    (hm : MoveSafe list.currentIndex vs.length index) :
    list.moveToIndex index =
      .ok (list.putCursor index (addr index)) := by
  have hn : vs ≠ [] := List.ne_nil_of_length_pos (by omega)
  have hc := h.currentIndex_lt hn
  unfold ListT.moveToIndex
  split
  · next he => rw [← he, h.putCursor_self hn]
  · next hne =>
    split
    · next h0 =>
      subst h0
      rw [ListT.putCursor, h.tail_eq_some hn, deref_some, checked_ok_bind,
        h.load_addr (by omega), checked_ok_bind]
      have hs : succIdx vs.length (vs.length - 1) = 0 := by
        rw [succIdx, if_pos (by omega)]
      rw [hs]
      rfl
    · next h0 =>
      split
      · next hlast =>
        have he : vs.length - 1 = index := by
          rw [h.length_eq] at hlast
          omega
        rw [ListT.putCursor, h.tail_eq_some hn, he]
      · next hlast =>
        rw [h.length_eq] at hlast ⊢
        exact moveLoop_direction h hi hne hlast hm

/-- A step to the next node, wrapping at the end, is always safe. -/
theorem moveSafe_succ {n c : Nat} (hc : c < n) : MoveSafe c n (succIdx n c) := by
  rintro ⟨h, -, -⟩
  unfold succIdx at h
  split at h <;> omega

/-- A move to the front is always safe. -/
theorem moveSafe_zero (c n : Nat) : MoveSafe c n 0 := by
  rintro ⟨h, -, -⟩
  omega

/-- Staying is always safe. -/
theorem moveSafe_self (c n : Nat) : MoveSafe c n c := by
  rintro ⟨h, -, -⟩
  omega

/-- Reading in order is safe: from anywhere to the front, and then one step on at a time. -/
theorem moveSafe_inOrder {c i n : Nat} (h : i = 0 ∨ i = c + 1) (hi : i < n) : MoveSafe c n i := by
  rcases h with rfl | rfl
  · exact moveSafe_zero c n
  · rintro ⟨hm, -, -⟩
    omega

end Wsic.ListT
