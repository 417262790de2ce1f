import Wsic.DataStructures.Ring

/-!
# Operations on the ring

What the operations of `src/datastructures/list/list.c` do to a list that holds a
sequence: each one returns the result of the operation on the sequence and leaves a
list that holds the new sequence, as long as the cursor moves it makes are safe.
-/

open CMemory

namespace Wsic.ListT

variable {α : Type}

/-! ### Adding and removing -/

/-- The nodes at `addr 0`, `addr 1`, … hold the values `vs` and link to the nodes at `next i`
and `previous i`. -/
def Cells (heap : Nat → Option (ListNodeT α)) (addr next previous : Nat → Nat) (vs : List α) :
    Prop :=
  ∀ i v, vs[i]? = some v → heap (addr i) = some ⟨next i, previous i, v⟩

namespace Cells

variable {heap : Nat → Option (ListNodeT α)} {addr next previous : Nat → Nat} {vs : List α}

/-- A write to an address that no node has keeps the cells. -/
theorem update (hc : Cells heap addr next previous vs) {p : Nat}
    (hp : ∀ i < vs.length, addr i ≠ p) (cell : Option (ListNodeT α)) :
    Cells (Function.update heap p cell) addr next previous vs := by
  intro i v hv
  have hi := (List.getElem?_eq_some_iff.mp hv).1
  rw [Function.update_of_ne (hp i hi), hc i v hv]

/-- Replacing the cell of one node changes its links and no others. -/
private theorem update_node (hc : Cells heap addr next previous vs)
    (hinj : ∀ i < vs.length, ∀ j < vs.length, addr i = addr j → i = j) {k : Nat}
    (hk : k < vs.length) (n p : Nat) :
    Cells (Function.update heap (addr k) (some ⟨n, p, vs.get ⟨k, hk⟩⟩)) addr
      (Function.update next k n) (Function.update previous k p) vs := by
  intro i v hv
  have hi := (List.getElem?_eq_some_iff.mp hv).1
  by_cases he : i = k
  · subst he
    rw [List.getElem?_eq_getElem hk] at hv
    simp only [Function.update_self]
    rw [← Option.some.inj hv]
    rfl
  · have ha : addr i ≠ addr k := fun ha ↦ he (hinj i hi k hk ha)
    rw [Function.update_of_ne ha, Function.update_of_ne he, Function.update_of_ne he, hc i v hv]

/-- A write to the forward link of one node. -/
theorem setNext (hc : Cells heap addr next previous vs)
    (hinj : ∀ i < vs.length, ∀ j < vs.length, addr i = addr j → i = j) {k : Nat}
    (hk : k < vs.length) (n : Nat) :
    ∃ heap', ListT.setNext heap (addr k) n = .ok heap' ∧
      Cells heap' addr (Function.update next k n) previous vs ∧
      ∀ x, x ≠ addr k → heap' x = heap x := by
  rw [ListT.setNext, load, hc k _ (List.getElem?_eq_getElem hk), deref_some, checked_ok_bind]
  refine ⟨_, rfl, ?_, fun x hx ↦ Function.update_of_ne hx _ _⟩
  have hu := hc.update_node hinj hk n (previous k)
  rwa [Function.update_eq_self] at hu

/-- A write to the backward link of one node. -/
theorem setPrevious (hc : Cells heap addr next previous vs)
    (hinj : ∀ i < vs.length, ∀ j < vs.length, addr i = addr j → i = j) {k : Nat}
    (hk : k < vs.length) (p : Nat) :
    ∃ heap', ListT.setPrevious heap (addr k) p = .ok heap' ∧
      Cells heap' addr next (Function.update previous k p) vs ∧
      ∀ x, x ≠ addr k → heap' x = heap x := by
  rw [ListT.setPrevious, load, hc k _ (List.getElem?_eq_getElem hk), deref_some, checked_ok_bind]
  refine ⟨_, rfl, ?_, fun x hx ↦ Function.update_of_ne hx _ _⟩
  have hu := hc.update_node hinj hk (next k) p
  rwa [Function.update_eq_self] at hu

end Cells

/-- The cells of a ring. -/
theorem Ring.cells {list : ListT α} {addr : Nat → Nat} {vs : List α} (h : Ring list addr vs) :
    Cells list.heap addr (fun i ↦ addr (succIdx vs.length i))
      (fun i ↦ addr (predIdx vs.length i)) vs := h.cell

section Add

variable {list : ListT α} {addr : Nat → Nat} {vs : List α} {n b : Nat}

private theorem update_addr_succIdx {i : Nat} (hi : i < n) :
    Function.update addr n b (succIdx (n + 1) i) =
      Function.update (fun i ↦ addr (succIdx n i)) (n - 1) b i := by
  by_cases hl : i = n - 1
  · rw [succIdx, if_neg (by omega), hl, Function.update_self, Nat.sub_add_cancel (by omega),
      Function.update_self]
  · rw [Function.update_of_ne hl, succIdx, succIdx, if_neg (by omega), if_neg (by omega),
      Function.update_of_ne (by omega)]

private theorem update_addr_predIdx {i : Nat} (hi : i < n) :
    Function.update addr n b (predIdx (n + 1) i) =
      Function.update (fun i ↦ addr (predIdx n i)) 0 b i := by
  by_cases h0 : i = 0
  · rw [predIdx, if_pos h0, h0, Function.update_self, Nat.add_sub_cancel, Function.update_self]
  · rw [Function.update_of_ne h0, predIdx, predIdx, if_neg h0, if_neg h0,
      Function.update_of_ne (by omega)]

private theorem Ring.update_addr_lt (h : Ring list addr vs) {i : Nat} (hi : i < vs.length + 1) :
    Function.update addr vs.length list.brk i < list.brk + 1 := by
  by_cases he : i = vs.length
  · rw [he, Function.update_self]
    exact Nat.lt_succ_self _
  · rw [Function.update_of_ne he]
    exact (h.addr_lt i (by omega)).trans (Nat.lt_succ_self _)

private theorem Ring.update_addr_inj (h : Ring list addr vs) {i j : Nat}
    (hi : i < vs.length + 1) (hj : j < vs.length + 1)
    (he : Function.update addr vs.length list.brk i =
      Function.update addr vs.length list.brk j) : i = j := by
  by_cases hi' : i = vs.length <;> by_cases hj' : j = vs.length
  · rw [hi', hj']
  · rw [hi', Function.update_self, Function.update_of_ne hj'] at he
    exact absurd he.symm (h.addr_lt j (by omega)).ne
  · rw [hj', Function.update_self, Function.update_of_ne hi'] at he
    exact absurd he (h.addr_lt i (by omega)).ne
  · rw [Function.update_of_ne hi', Function.update_of_ne hj'] at he
    exact h.addr_inj i (by omega) j (by omega) he

/-- The three writes that link a new node in between the last node and the first. -/
private theorem Ring.link (h : Ring list addr vs) (hn : vs ≠ []) (v : α) :
    ∃ heap₂ heap₃,
      setPrevious (Function.update list.heap list.brk (some ⟨addr 0, addr (vs.length - 1), v⟩))
        (addr 0) list.brk = .ok heap₂ ∧
      setNext heap₂ (addr (vs.length - 1)) list.brk = .ok heap₃ ∧
      Cells heap₃ addr
        (Function.update (fun i ↦ addr (succIdx vs.length i)) (vs.length - 1) list.brk)
        (Function.update (fun i ↦ addr (predIdx vs.length i)) 0 list.brk) vs ∧
      heap₃ list.brk = some ⟨addr 0, addr (vs.length - 1), v⟩ := by
  have hpos : 0 < vs.length := List.length_pos_of_ne_nil hn
  have hlast : vs.length - 1 < vs.length := by omega
  have hfresh (i : Nat) (hi : i < vs.length) : addr i ≠ list.brk := (h.addr_lt i hi).ne
  have h₁ := h.cells.update hfresh (some ⟨addr 0, addr (vs.length - 1), v⟩)
  obtain ⟨heap₂, he₂, h₂, hframe₂⟩ := h₁.setPrevious h.addr_inj hpos list.brk
  obtain ⟨heap₃, he₃, h₃, hframe₃⟩ := h₂.setNext h.addr_inj hlast list.brk
  refine ⟨heap₂, heap₃, he₂, he₃, h₃, ?_⟩
  rw [hframe₃ _ (hfresh _ hlast).symm, hframe₂ _ (hfresh 0 hpos).symm, Function.update_self]

/-- A node linked in between the last node and the first makes a longer ring. -/
private theorem Ring.cell_append (hn : vs ≠ []) {heap : Nat → Option (ListNodeT α)} {v : α}
    (hc : Cells heap addr (Function.update (fun i ↦ addr (succIdx vs.length i)) (vs.length - 1) b)
      (Function.update (fun i ↦ addr (predIdx vs.length i)) 0 b) vs)
    (hb : heap b = some ⟨addr 0, addr (vs.length - 1), v⟩) :
    Cells heap (Function.update addr vs.length b)
      (fun i ↦ Function.update addr vs.length b (succIdx (vs.length + 1) i))
      (fun i ↦ Function.update addr vs.length b (predIdx (vs.length + 1) i)) (vs ++ [v]) := by
  have hpos : 0 < vs.length := List.length_pos_of_ne_nil hn
  intro i w hw
  have hi := (List.getElem?_eq_some_iff.mp hw).1
  rw [List.length_append, List.length_singleton] at hi
  by_cases he : i = vs.length
  · subst he
    obtain rfl : v = w := by simpa using hw
    simp only
    rw [Function.update_self, succIdx, if_pos rfl, predIdx, if_neg (by omega),
      Function.update_of_ne (by omega), Function.update_of_ne (by omega), hb]
  · have hi' : i < vs.length := by omega
    rw [List.getElem?_append_left hi'] at hw
    simp only
    rw [update_addr_succIdx hi', update_addr_predIdx hi', Function.update_of_ne he, hc i w hw]

/-- Adding to an empty list makes a ring of one node. -/
private theorem Ring.addValue_nil (h : Ring list addr ([] : List α)) (v : α) :
    ∃ list', list.addValue v = .ok list' ∧
      Ring list' (Function.update addr 0 list.brk) [v] ∧
      list'.currentIndex = list.currentIndex := by
  have hlen : list.length = 0 := h.length_eq
  have hcur : list.currentIndex = 0 := by
    rcases h.cursor with hc | hc
    · simp at hc
    · exact hc.2
  rw [ListT.addValue, if_pos hlen]
  refine ⟨_, rfl, ?_, rfl⟩
  refine ⟨by simp [hlen], by simp, by simp, ?_, by simp, by simp [hcur], .inl (by simp [hcur])⟩
  intro i w hw
  obtain rfl : i = 0 := by simpa using (List.getElem?_eq_some_iff.mp hw).1
  obtain rfl : v = w := by simpa using hw
  simp [succIdx, predIdx]

/-- Adding puts the value behind the last one and leaves the cursor's index alone. -/
theorem Ring.addValue (h : Ring list addr vs) (v : α) :
    ∃ list', list.addValue v = .ok list' ∧
      Ring list' (Function.update addr vs.length list.brk) (vs ++ [v]) ∧
      list'.currentIndex = list.currentIndex := by
  rcases eq_or_ne vs [] with rfl | hn
  · exact h.addValue_nil v
  have hpos : 0 < vs.length := List.length_pos_of_ne_nil hn
  have hc := h.currentIndex_lt hn
  have hs : succIdx vs.length (vs.length - 1) = 0 := by rw [succIdx, if_pos (by omega)]
  obtain ⟨heap₂, heap₃, he₂, he₃, hcells, hb⟩ := h.link hn v
  rw [ListT.addValue, if_neg (by rw [h.length_eq]; omega), h.tail_eq_some hn, deref_some,
    checked_ok_bind, h.load_addr (by omega), checked_ok_bind]
  simp only [hs]
  rw [he₂, checked_ok_bind, he₃, checked_ok_bind]
  refine ⟨_, rfl, ?_, rfl⟩
  have hlen : (vs ++ [v]).length = vs.length + 1 := by simp
  refine ⟨?_, ?_, ?_, ?_, ?_, ?_, .inl ?_⟩
  · rw [hlen, h.length_eq]
  · rw [hlen]
    exact fun i hi ↦ h.update_addr_lt hi
  · rw [hlen]
    exact fun i hi j hj he ↦ h.update_addr_inj hi hj he
  · rw [hlen]
    exact Ring.cell_append hn hcells hb
  · rw [hlen, if_neg (Nat.succ_ne_zero _), Nat.add_sub_cancel, Function.update_self]
  · rw [hlen, if_neg (Nat.succ_ne_zero _), Function.update_of_ne hc.ne]
    exact h.current_eq_some hn
  · rw [hlen]
    exact hc.trans (Nat.lt_succ_self _)

end Add

section Remove

variable {list : ListT α} {addr : Nat → Nat} {vs : List α}

/-- The old index of the node at index `j` once the node at `k` is gone. -/
def skipIdx (k j : Nat) : Nat := if j < k then j else j + 1

private theorem skipIdx_lt {n k j : Nat} (hj : j < n - 1) : skipIdx k j < n := by
  unfold skipIdx
  split <;> omega

private theorem skipIdx_ne (k j : Nat) : skipIdx k j ≠ k := by
  unfold skipIdx
  split <;> omega

private theorem skipIdx_inj {k i j : Nat} (h : skipIdx k i = skipIdx k j) : i = j := by
  unfold skipIdx at h
  split at h <;> split at h <;> omega

private theorem skipIdx_succIdx {n k j : Nat} (hk : k < n) (hj : j < n - 1) :
    skipIdx k (succIdx (n - 1) j) =
      if skipIdx k j = predIdx n k then succIdx n k else succIdx n (skipIdx k j) := by
  unfold skipIdx succIdx predIdx
  grind

private theorem skipIdx_predIdx {n k j : Nat} (hk : k < n) (hj : j < n - 1) :
    skipIdx k (predIdx (n - 1) j) =
      if skipIdx k j = succIdx n k then predIdx n k else predIdx n (skipIdx k j) := by
  unfold skipIdx succIdx predIdx
  grind

private theorem skipIdx_mod {n k : Nat} (hk : k < n) (hn : 2 ≤ n) :
    skipIdx k (k % (n - 1)) = succIdx n k := by
  by_cases hl : k + 1 = n
  · have hm : k % (n - 1) = 0 := by rw [show k = n - 1 by omega, Nat.mod_self]
    rw [hm, skipIdx, if_pos (by omega), succIdx, if_pos hl]
  · rw [Nat.mod_eq_of_lt (by omega), skipIdx, if_neg (Nat.lt_irrefl _), succIdx, if_neg hl]

/-- The last node of the shorter ring. -/
private theorem skipIdx_last {n k : Nat} (hk : k < n) (hn : 2 ≤ n) :
    skipIdx k (n - 1 - 1) = if k + 1 = n then predIdx n k else n - 1 := by
  unfold skipIdx predIdx
  grind

private theorem getElem?_eraseIdx_skipIdx (vs : List α) (k j : Nat) :
    (vs.eraseIdx k)[j]? = vs[skipIdx k j]? := by
  rw [List.getElem?_eraseIdx, skipIdx]
  split <;> rfl

/-- Removing the last value leaves an empty list. -/
private theorem Ring.removeValue_single (h : Ring list addr vs) (h1 : vs.length = 1) :
    ∃ list', list.removeValue 0 = .ok (vs[0]?, list') ∧
      Ring list' (addr ∘ skipIdx 0) (vs.eraseIdx 0) ∧
      list'.currentIndex = 0 % (vs.length - 1) := by
  have hlen := h.length_eq
  obtain ⟨v, rfl⟩ := List.length_eq_one_iff.mp h1
  have hc := h.currentIndex_lt (List.cons_ne_nil v [])
  have hc0 : list.currentIndex = 0 := by simpa using hc
  rw [ListT.removeValue, if_neg (by omega), if_pos (by omega),
    h.current_eq_some (List.cons_ne_nil v []), deref_some, checked_ok_bind, h.load_addr hc,
    checked_ok_bind]
  refine ⟨_, by simp only [hc0]; rfl, ?_, by simp⟩
  exact ⟨rfl, by simp, by simp, by simp, rfl, rfl, .inr ⟨rfl, rfl⟩⟩

/-- The two writes that close the ring around the node at `k`. -/
private theorem Ring.unlink (h : Ring list addr vs) {k : Nat} (hk : k < vs.length) :
    ∃ heap₁ heap₂,
      setPrevious list.heap (addr (succIdx vs.length k)) (addr (predIdx vs.length k)) =
        .ok heap₁ ∧
      setNext heap₁ (addr (predIdx vs.length k)) (addr (succIdx vs.length k)) = .ok heap₂ ∧
      Cells heap₂ addr
        (Function.update (fun i ↦ addr (succIdx vs.length i)) (predIdx vs.length k)
          (addr (succIdx vs.length k)))
        (Function.update (fun i ↦ addr (predIdx vs.length i)) (succIdx vs.length k)
          (addr (predIdx vs.length k))) vs := by
  obtain ⟨heap₁, he₁, h₁, -⟩ :=
    h.cells.setPrevious h.addr_inj (succIdx_lt hk) (addr (predIdx vs.length k))
  obtain ⟨heap₂, he₂, h₂, -⟩ :=
    h₁.setNext h.addr_inj (predIdx_lt hk) (addr (succIdx vs.length k))
  exact ⟨heap₁, heap₂, he₁, he₂, h₂⟩

/-- Freeing the node that the ring was closed around leaves the cells of a shorter ring. -/
private theorem Ring.cell_eraseIdx (h : Ring list addr vs) {k : Nat} (hk : k < vs.length)
    {heap : Nat → Option (ListNodeT α)}
    (hc : Cells heap addr
      (Function.update (fun i ↦ addr (succIdx vs.length i)) (predIdx vs.length k)
        (addr (succIdx vs.length k)))
      (Function.update (fun i ↦ addr (predIdx vs.length i)) (succIdx vs.length k)
        (addr (predIdx vs.length k))) vs) :
    Cells (Function.update heap (addr k) none) (addr ∘ skipIdx k)
      (fun j ↦ addr (skipIdx k (succIdx (vs.length - 1) j)))
      (fun j ↦ addr (skipIdx k (predIdx (vs.length - 1) j))) (vs.eraseIdx k) := by
  intro j w hw
  have hj : j < vs.length - 1 := by
    rw [← List.length_eraseIdx_of_lt hk]
    exact (List.getElem?_eq_some_iff.mp hw).1
  rw [getElem?_eraseIdx_skipIdx] at hw
  have hne : addr (skipIdx k j) ≠ addr k := fun ha ↦
    skipIdx_ne k j (h.addr_inj _ (skipIdx_lt hj) _ hk ha)
  simp only [Function.comp_apply]
  rw [Function.update_of_ne hne, hc _ w hw, skipIdx_succIdx hk hj, skipIdx_predIdx hk hj,
    Function.update_apply, Function.update_apply, apply_ite addr, apply_ite addr]

/-- Removing takes the value at the index out and closes the ring behind it; the cursor
goes to the node that followed. -/
theorem Ring.removeValue (h : Ring list addr vs) {index : Nat} (hi : index < vs.length)
    (hm : MoveSafe list.currentIndex vs.length index) :
    ∃ list', list.removeValue index = .ok (vs[index]?, list') ∧
      Ring list' (addr ∘ skipIdx index) (vs.eraseIdx index) ∧
      list'.currentIndex = index % (vs.length - 1) := by
  rcases eq_or_ne vs.length 1 with h1 | h1
  · obtain rfl : index = 0 := by omega
    exact h.removeValue_single h1
  have hlen := h.length_eq
  have hn : vs ≠ [] := List.ne_nil_of_length_pos (by omega)
  have hlen' := List.length_eraseIdx_of_lt hi
  have hr := h.putCursor hi
  obtain ⟨heap₁, heap₂, he₁, he₂, hcells⟩ := hr.unlink hi
  rw [ListT.removeValue, if_neg (by omega), if_neg (by omega), h.moveToIndex hi hm,
    checked_ok_bind, show (list.putCursor index (addr index)).current = some (addr index) from rfl,
    deref_some, checked_ok_bind, hr.load_addr hi, checked_ok_bind]
  simp only
  rw [he₁, checked_ok_bind, he₂, checked_ok_bind]
  have hidx : (list.putCursor index (addr index)).currentIndex = index := rfl
  simp only [hidx, hr.length_eq]
  rw [if_pos (show vs.length - 1 > 0 by omega)]
  refine ⟨_, by rw [List.getElem?_eq_getElem hi]; rfl, ?_, rfl⟩
  refine ⟨hlen'.symm, ?_, ?_, ?_, ?_, ?_, .inl ?_⟩
  · rw [hlen']
    exact fun j hj ↦ h.addr_lt _ (skipIdx_lt hj)
  · rw [hlen']
    exact fun i hi' j hj he ↦
      skipIdx_inj (h.addr_inj _ (skipIdx_lt hi') _ (skipIdx_lt hj) he)
  · rw [hlen']
    exact h.cell_eraseIdx hi hcells
  · rw [hlen', if_neg (show ¬ vs.length - 1 = 0 by omega), Function.comp_apply,
      skipIdx_last hi (by omega), apply_ite addr, apply_ite some, ← hr.tail_eq_some hn]
  · rw [hlen', if_neg (show ¬ vs.length - 1 = 0 by omega)]
    simp only [Function.comp_apply]
    rw [skipIdx_mod hi (by omega)]
  · rw [hlen']
    exact Nat.mod_lt _ (by omega)

end Remove

/-! ### Operations on the sequence -/

/-- Writing to the cursor's node replaces the value at its index. -/
theorem Ring.setCurrentValue {list : ListT α} {addr : Nat → Nat} {vs : List α}
    (h : Ring list addr vs) (hn : vs ≠ []) (v : α) :
    ∃ list', list.setCurrentValue v = .ok list' ∧
      Ring list' addr (vs.set list.currentIndex v) ∧ list'.currentIndex = list.currentIndex := by
  have hc := h.currentIndex_lt hn
  rw [ListT.setCurrentValue, h.current_eq_some hn, deref_some, checked_ok_bind, h.load_addr hc,
    checked_ok_bind]
  refine ⟨_, rfl, ?_, rfl⟩
  constructor
  · simpa using h.length_eq
  · simpa using h.addr_lt
  · simpa using h.addr_inj
  · intro i w hw
    have hi := (List.getElem?_eq_some_iff.mp hw).1
    rw [List.length_set] at hi ⊢
    by_cases he : i = list.currentIndex
    · subst he
      rw [List.getElem?_set_self hc] at hw
      rw [Option.some.inj hw]
      exact Function.update_self _ _ _
    · rw [List.getElem?_set_ne (Ne.symm he)] at hw
      rw [← h.cell i w hw]
      exact Function.update_of_ne (fun ha ↦ he (h.addr_inj i hi _ hc ha)) _ _
  · simpa using h.tail_eq
  · simpa using hn
  · exact .inl (by simpa using hc)

/-- Adding appends. -/
theorem Holds.addValue {list : ListT α} {vs : List α} (h : Holds list vs) (v : α) :
    ∃ list', list.addValue v = .ok list' ∧ Holds list' (vs ++ [v]) ∧
      list'.currentIndex = list.currentIndex := by
  obtain ⟨addr, h⟩ := h
  obtain ⟨list', he, hr, hc⟩ := h.addValue v
  exact ⟨list', he, ⟨_, hr⟩, hc⟩

theorem Holds.exists_append {list : ListT α} {vs : List α} (h : Holds list vs) (ws : List α) :
    ∃ list' : ListT α, Holds list' (vs ++ ws) := by
  induction ws generalizing list vs with
  | nil => exact ⟨list, by rwa [List.append_nil]⟩
  | cons w ws ih =>
    obtain ⟨list', -, hlist', -⟩ := h.addValue w
    simpa using ih hlist'

/-- Some list holds these values. -/
theorem exists_holds (vs : List α) : ∃ list : ListT α, Holds list vs :=
  holds_create.exists_append vs

/-- Moving to an index of the list keeps what the list holds. -/
theorem Holds.moveToIndex {list : ListT α} {vs : List α} (h : Holds list vs) {index : Nat}
    (hi : index < vs.length) (hm : MoveSafe list.currentIndex vs.length index) :
    ∃ list', list.moveToIndex index = .ok list' ∧ Holds list' vs ∧
      list'.currentIndex = index := by
  obtain ⟨addr, h⟩ := h
  exact ⟨_, h.moveToIndex hi hm, ⟨addr, h.putCursor hi⟩, rfl⟩

/-- The cursor's node holds the value at the cursor's index. -/
theorem Holds.currentNode {list : ListT α} {vs : List α} (h : Holds list vs)
    (hc : list.currentIndex < vs.length) :
    ∃ node, list.currentNode = .ok node ∧ vs[list.currentIndex]? = some node.value := by
  obtain ⟨addr, h⟩ := h
  have hn : vs ≠ [] := List.ne_nil_of_length_pos (by omega)
  exact ⟨_, h.currentNode_eq hn, List.getElem?_eq_getElem hc⟩

/-- The cursor is on a node of a list that is not empty. -/
theorem Holds.currentIndex_lt {list : ListT α} {vs : List α} (h : Holds list vs) (hn : vs ≠ []) :
    list.currentIndex < vs.length := by
  obtain ⟨addr, h⟩ := h
  exact h.currentIndex_lt hn

theorem Holds.length_eq {list : ListT α} {vs : List α} (h : Holds list vs) :
    list.length = vs.length := by
  obtain ⟨addr, h⟩ := h
  exact h.length_eq

/-- Writing to the cursor's node replaces the value at its index. -/
theorem Holds.setCurrentValue {list : ListT α} {vs : List α} (h : Holds list vs) (hn : vs ≠ [])
    (v : α) : ∃ list', list.setCurrentValue v = .ok list' ∧
      Holds list' (vs.set list.currentIndex v) ∧ list'.currentIndex = list.currentIndex := by
  obtain ⟨addr, h⟩ := h
  obtain ⟨list', he, hr, hc⟩ := h.setCurrentValue hn v
  exact ⟨list', he, ⟨_, hr⟩, hc⟩

/-- Reading returns the value at the index, or null. -/
theorem Holds.getValue {list : ListT α} {vs : List α} (h : Holds list vs) (index : Nat)
    (hm : index < vs.length → MoveSafe list.currentIndex vs.length index) :
    ∃ list', list.getValue index = .ok (vs[index]?, list') ∧ Holds list' vs ∧
      (index < vs.length → list'.currentIndex = index) := by
  unfold ListT.getValue
  rw [h.length_eq]
  split
  · next hi =>
    refine ⟨list, ?_, h, fun hlt ↦ absurd hlt (Nat.not_lt.mpr hi)⟩
    rw [List.getElem?_eq_none hi]
  · next hi =>
    have hi' : index < vs.length := by omega
    obtain ⟨moved, he, hh, hc⟩ := h.moveToIndex hi' (hm hi')
    obtain ⟨node, hnode, hv⟩ := hh.currentNode (by omega)
    rw [he, checked_ok_bind, hnode, checked_ok_bind]
    rw [hc] at hv
    exact ⟨moved, by rw [hv]; rfl, hh, fun _ ↦ hc⟩

/-- Reading the next value in order: the cursor is then behind it for the one that follows. -/
theorem Holds.getValue_inOrder {list : ListT α} {vs : List α} (h : Holds list vs) {i : Nat}
    (hi : i < vs.length) (hc : i = 0 ∨ i = list.currentIndex + 1) :
    ∃ list', list.getValue i = .ok (some vs[i], list') ∧ Holds list' vs ∧
      (i + 1 = 0 ∨ i + 1 = list'.currentIndex + 1) := by
  obtain ⟨list', hget, hholds, hcursor⟩ := h.getValue i (moveSafe_inOrder hc)
  rw [List.getElem?_eq_getElem hi] at hget
  exact ⟨list', hget, hholds, .inr (by rw [hcursor hi])⟩

/-- Two sequences that a list holds can be read in order with the same list. -/
private theorem Holds.read_both {list : ListT α} {vs ws : List α} (hv : Holds list vs)
    (hw : Holds list ws) (i : Nat) (hi : i ≤ vs.length) :
    ∃ list', Holds list' vs ∧ Holds list' ws ∧ (i = 0 ∨ i = list'.currentIndex + 1) := by
  induction i with
  | zero => exact ⟨list, hv, hw, .inl rfl⟩
  | succ i ih =>
    obtain ⟨list', hv', hw', hc⟩ := ih (by omega)
    have hlen : vs.length = ws.length := hv'.length_eq.symm.trans hw'.length_eq
    obtain ⟨l₁, hget, hh, hcursor⟩ := hv'.getValue i (moveSafe_inOrder hc)
    obtain ⟨l₂, hget', hh', -⟩ := hw'.getValue i (moveSafe_inOrder hc)
    rw [hget] at hget'
    obtain ⟨-, rfl⟩ := Prod.mk.inj (Except.ok.inj hget')
    exact ⟨l₁, hh, hh', .inr (by rw [hcursor (by omega)])⟩

/-- What a list holds is one sequence. -/
theorem Holds.unique {list : ListT α} {vs ws : List α} (hv : Holds list vs)
    (hw : Holds list ws) : vs = ws := by
  apply List.ext_getElem?
  intro i
  have hlen : vs.length = ws.length := hv.length_eq.symm.trans hw.length_eq
  by_cases hi : i < vs.length
  · obtain ⟨list', hv', hw', hc⟩ := hv.read_both hw i (by omega)
    obtain ⟨l₁, hget, -, -⟩ := hv'.getValue i (moveSafe_inOrder hc)
    obtain ⟨l₂, hget', -, -⟩ := hw'.getValue i (moveSafe_inOrder hc)
    rw [hget] at hget'
    exact (Prod.mk.inj (Except.ok.inj hget')).1
  · rw [List.getElem?_eq_none (by omega), List.getElem?_eq_none (by omega)]

/-- Replacing returns the old value at the index, or null. -/
theorem Holds.setValue {list : ListT α} {vs : List α} (h : Holds list vs) (index : Nat) (v : α)
    (hm : index < vs.length → MoveSafe list.currentIndex vs.length index) :
    ∃ list', list.setValue index v = .ok (vs[index]?, list') ∧ Holds list' (vs.set index v) := by
  unfold ListT.setValue
  rw [h.length_eq]
  split
  · next hi =>
    refine ⟨list, ?_, ?_⟩
    · rw [List.getElem?_eq_none hi]
    · rwa [List.set_eq_of_length_le hi]
  · next hi =>
    have hi' : index < vs.length := by omega
    have hn : vs ≠ [] := List.ne_nil_of_length_pos (by omega)
    obtain ⟨moved, he, hh, hc⟩ := h.moveToIndex hi' (hm hi')
    obtain ⟨node, hnode, hv⟩ := hh.currentNode (by omega)
    obtain ⟨list', hs, hh', -⟩ := hh.setCurrentValue hn v
    rw [he, checked_ok_bind, hnode, checked_ok_bind, hs, checked_ok_bind]
    rw [hc] at hv hh'
    exact ⟨list', by rw [hv]; rfl, hh'⟩

/-- Removing returns the value at the index, or null, and erases it. -/
theorem Holds.removeValue {list : ListT α} {vs : List α} (h : Holds list vs) (index : Nat)
    (hm : index < vs.length → MoveSafe list.currentIndex vs.length index) :
    ∃ list', list.removeValue index = .ok (vs[index]?, list') ∧
      Holds list' (vs.eraseIdx index) := by
  by_cases hi : index < vs.length
  · obtain ⟨addr, h⟩ := h
    obtain ⟨list', he, hr, -⟩ := h.removeValue hi (hm hi)
    exact ⟨list', he, _, hr⟩
  · refine ⟨list, ?_, ?_⟩
    · rw [ListT.removeValue, h.length_eq, if_pos (.inl (Nat.not_lt.mp hi)),
        List.getElem?_eq_none (Nat.not_lt.mp hi)]
    · rwa [List.eraseIdx_of_length_le (Nat.not_lt.mp hi)]

/-- Removing the front needs no condition. -/
theorem Holds.removeFront {list : ListT α} {vs : List α} (h : Holds list vs) :
    ∃ list', list.removeValue 0 = .ok (vs.head?, list') ∧ Holds list' vs.tail := by
  obtain ⟨list', he, hh⟩ := h.removeValue 0 (fun _ ↦ moveSafe_zero _ _)
  rw [List.eraseIdx_zero] at hh
  exact ⟨list', by rw [he, List.head?_eq_getElem?], hh⟩

private theorem Holds.clearLoop {list : ListT α} {vs : List α} (h : Holds list vs) (rounds : Nat)
    (hr : vs.length ≤ rounds) : ∃ list', clearLoop rounds list = .ok list' ∧ Holds list' [] := by
  induction rounds generalizing list vs with
  | zero =>
    obtain rfl : vs = [] := List.length_eq_zero_iff.mp (by omega)
    exact ⟨list, if_pos h.length_eq, h⟩
  | succ rounds ih =>
    rw [ListT.clearLoop]
    split
    · next h0 =>
      obtain rfl : vs = [] := List.length_eq_zero_iff.mp (by rw [← h.length_eq, h0])
      exact ⟨list, rfl, h⟩
    · obtain ⟨list', he, hh⟩ := h.removeFront
      rw [he, checked_ok_bind]
      exact ih hh (by rw [List.length_tail]; omega)

/-- Clearing empties the list. -/
theorem Holds.clear {list : ListT α} {vs : List α} (h : Holds list vs) :
    ∃ list', list.clear = .ok list' ∧ Holds list' [] := by
  rw [ListT.clear, h.length_eq]
  exact h.clearLoop _ (Nat.le_refl _)

/-! ### Searching from the cursor -/

theorem succ_mod_mod {n : Nat} (hn : 0 < n) (a : Nat) : (a + 1) % n = succIdx n (a % n) := by
  rw [← succ_mod_eq_succIdx (Nat.mod_lt a hn), Nat.mod_add_mod]

/-- Every index of a ring is visited when it is walked once around from any start. -/
theorem exists_rotation {n start k : Nat} (hs : start < n) (hk : k < n) :
    ∃ j < n, (start + j) % n = k := by
  refine ⟨(k + n - start) % n, Nat.mod_lt _ (by omega), ?_⟩
  rw [Nat.add_mod_mod, show start + (k + n - start) = k + n by omega, Nat.add_mod_right,
    Nat.mod_eq_of_lt hk]

private theorem Holds.findIndexLoop [DecidableEq α] {list : ListT α} {vs : List α}
    (h : Holds list vs) (value : α) (start rounds i : Nat) (hi : i + rounds = vs.length)
    (hc : vs ≠ [] → list.currentIndex = (start + i) % vs.length)
    (hno : ∀ j < i, vs[(start + j) % vs.length]? ≠ some value) :
    ∃ r list', findIndexLoop value start rounds i list = .ok (r, list') ∧ Holds list' vs ∧
      match r with
      | some k => vs[k]? = some value
      | none => ∀ j < vs.length, vs[(start + j) % vs.length]? ≠ some value := by
  induction rounds generalizing list i with
  | zero =>
    refine ⟨none, list, rfl, h, ?_⟩
    intro j hj
    exact hno j (by omega)
  | succ rounds ih =>
    have hn : vs ≠ [] := List.ne_nil_of_length_pos (by omega)
    have hlt := h.currentIndex_lt hn
    obtain ⟨node, hnode, hv⟩ := h.currentNode hlt
    rw [ListT.findIndexLoop, hnode, checked_ok_bind, h.length_eq]
    rw [hc hn] at hv
    split
    · next he => exact ⟨_, list, rfl, h, hv.trans (congrArg some he)⟩
    · next he =>
      have hpos : 0 < vs.length := by omega
      have hs : (start + i + 1) % vs.length = succIdx vs.length list.currentIndex := by
        rw [succ_mod_mod hpos, hc hn]
      obtain ⟨moved, hm, hh, hmc⟩ := h.moveToIndex (Nat.mod_lt (start + i + 1) hpos)
        (by rw [hs]; exact moveSafe_succ hlt)
      rw [hm, checked_ok_bind]
      refine ih hh (i + 1) (by omega) (fun _ ↦ hmc) ?_
      intro j hj
      rcases Nat.lt_succ_iff_lt_or_eq.mp hj with hj | rfl
      · exact hno j hj
      · rw [hv]
        exact fun hw ↦ he (Option.some.inj hw)

/-- Searching finds an index that holds the value, or tells that there is none. -/
theorem Holds.findIndex [DecidableEq α] {list : ListT α} {vs : List α} (h : Holds list vs)
    (value : α) : ∃ r list', list.findIndex value = .ok (r, list') ∧ Holds list' vs ∧
      match r with
      | some k => vs[k]? = some value
      | none => value ∉ vs := by
  have hc : vs ≠ [] → list.currentIndex = (list.currentIndex + 0) % vs.length := fun hn ↦
    (Nat.mod_eq_of_lt (h.currentIndex_lt hn)).symm
  obtain ⟨r, list', he, hh, hr⟩ := h.findIndexLoop value list.currentIndex vs.length 0
    (by omega) hc (fun j hj ↦ absurd hj (Nat.not_lt_zero j))
  refine ⟨r, list', by rw [ListT.findIndex, h.length_eq, he], hh, ?_⟩
  cases r with
  | some k => exact hr
  | none =>
    intro hm
    obtain ⟨k, hk, rfl⟩ := List.getElem_of_mem hm
    have hlt := h.currentIndex_lt (List.ne_nil_of_mem hm)
    obtain ⟨j, hj, rfl⟩ := exists_rotation hlt hk
    exact hr j hj (List.getElem?_eq_getElem hk)

end Wsic.ListT
