import Mathlib.Data.List.Basic
import Mathlib.Data.List.Nodup

/-!
# Insertion-ordered maps

General support: a list of entries in which no two have the same key, in the order in
which the keys were first set. Setting a present key replaces its entry in place,
setting a new key appends, removing keeps the order of the rest.
-/

/-- Entries with pairwise different keys, in insertion order. -/
structure KeyedList {ε κ : Type} (key : ε → κ) where
  entries : List ε
  nodup : (entries.map key).Nodup

namespace KeyedList

variable {ε κ : Type} [DecidableEq κ] {key : ε → κ}

/-- The map without entries. -/
def empty : KeyedList key := ⟨[], List.nodup_nil⟩

/-- The entry of a key. -/
def get (m : KeyedList key) (k : κ) : Option ε := m.entries.find? (fun e ↦ key e = k)

/-- Replace the first entry with the key of `e`, or append `e`. -/
def putEntry (key : ε → κ) (e : ε) : List ε → List ε
  | [] => [e]
  | x :: xs => if key x = key e then e :: xs else x :: putEntry key e xs

private theorem mem_putEntry {e x : ε} {l : List ε} (h : x ∈ putEntry key e l) :
    x = e ∨ x ∈ l := by
  induction l with
  | nil => exact .inl (List.mem_singleton.mp h)
  | cons y ys ih =>
    rw [putEntry] at h
    split at h
    · rcases List.mem_cons.mp h with h | h
      · exact .inl h
      · exact .inr (List.mem_cons_of_mem _ h)
    · rcases List.mem_cons.mp h with h | h
      · exact .inr (h ▸ List.mem_cons_self)
      · exact (ih h).imp_right (List.mem_cons_of_mem _)

private theorem nodup_putEntry (e : ε) {l : List ε} (h : (l.map key).Nodup) :
    ((putEntry key e l).map key).Nodup := by
  induction l with
  | nil => exact List.nodup_singleton _
  | cons y ys ih =>
    obtain ⟨hy, hys⟩ := List.nodup_cons.mp h
    rw [putEntry]
    split
    · next hk =>
      rw [List.map_cons, ← hk]
      exact List.nodup_cons.mpr ⟨hy, hys⟩
    · next hk =>
      refine List.nodup_cons.mpr ⟨?_, ih hys⟩
      intro hm
      obtain ⟨x, hx, hxy⟩ := List.mem_map.mp hm
      rcases mem_putEntry hx with rfl | hx
      · exact hk hxy.symm
      · exact hy (List.mem_map.mpr ⟨x, hx, hxy⟩)

/-- Set the entry of its key. -/
def set (m : KeyedList key) (e : ε) : KeyedList key :=
  ⟨putEntry key e m.entries, nodup_putEntry e m.nodup⟩

/-- Remove the entry of a key. -/
def remove (m : KeyedList key) (k : κ) : KeyedList key :=
  ⟨m.entries.eraseP (fun e ↦ key e = k),
    (List.eraseP_sublist.map key).nodup m.nodup⟩

/-- An entry of the map after a set is the new one or an old one. -/
theorem mem_set {m : KeyedList key} {e x : ε} (h : x ∈ (m.set e).entries) :
    x = e ∨ x ∈ m.entries := mem_putEntry h

/-- The entry that was set is in the map. -/
theorem mem_set_self (m : KeyedList key) (e : ε) : e ∈ (m.set e).entries := by
  obtain ⟨l, hl⟩ := m
  change e ∈ putEntry key e l
  induction l with
  | nil => exact List.mem_singleton.mpr rfl
  | cons y ys ih =>
    rw [putEntry]
    split
    · exact List.mem_cons_self
    · exact List.mem_cons_of_mem _ (ih (List.nodup_cons.mp hl).2)

/-- Setting changes what is found under the key of the entry, and nothing else. -/
theorem get_set (m : KeyedList key) (e : ε) (k : κ) :
    (m.set e).get k = if key e = k then some e else m.get k := by
  obtain ⟨l, hl⟩ := m
  change (putEntry key e l).find? (fun x ↦ key x = k) =
    if key e = k then some e else l.find? (fun x ↦ key x = k)
  induction l with
  | nil => by_cases he : key e = k <;> simp [putEntry, he]
  | cons y ys ih =>
    rw [putEntry]
    split
    · next hk => by_cases he : key e = k <;> simp [hk, he]
    · next hk =>
      by_cases hy : key y = k
      · have he : key e ≠ k := fun he ↦ hk (hy.trans he.symm)
        simp [hy, he]
      · rw [List.find?_cons_of_neg (by simpa using hy), List.find?_cons_of_neg (by simpa using hy),
          ih (List.nodup_cons.mp hl).2]

/-! ### Positions -/

/-- The entry at a position is the entry of its key. -/
theorem get_of_getElem? {m : KeyedList key} {i : Nat} {e : ε} (h : m.entries[i]? = some e) :
    m.get (key e) = some e := by
  obtain ⟨x, hx⟩ : ∃ x, m.get (key e) = some x := by
    rw [← Option.isSome_iff_exists, get, List.find?_isSome]
    exact ⟨e, List.mem_of_getElem? h, by simp⟩
  have hk : key x = key e := by simpa using List.find?_some hx
  rw [hx, List.inj_on_of_nodup_map m.nodup (List.mem_of_find?_eq_some hx)
    (List.mem_of_getElem? h) hk]

/-- A key that no entry has is not found. -/
theorem get_eq_none {m : KeyedList key} {k : κ} (h : ∀ e ∈ m.entries, key e ≠ k) :
    m.get k = none := by
  rw [get, List.find?_eq_none]
  simpa using h

private theorem putEntry_eq_set {e x : ε} {i : Nat} {l : List ε} (hl : (l.map key).Nodup)
    (h : l[i]? = some x) (hk : key x = key e) : putEntry key e l = l.set i e := by
  induction l generalizing i with
  | nil => cases h
  | cons y ys ih =>
    obtain ⟨hy, hys⟩ := List.nodup_cons.mp hl
    cases i with
    | zero =>
      cases h
      rw [putEntry, if_pos hk]
      rfl
    | succ i =>
      have hm : x ∈ ys := List.mem_of_getElem? h
      have hne : key y ≠ key e := fun he ↦
        hy (List.mem_map.mpr ⟨x, hm, hk.trans he.symm⟩)
      rw [putEntry, if_neg hne, ih hys h]
      rfl

/-- Setting a present key replaces its entry in place. -/
theorem set_of_getElem? {m : KeyedList key} {e x : ε} {i : Nat} (h : m.entries[i]? = some x)
    (hk : key x = key e) : (m.set e).entries = m.entries.set i e :=
  putEntry_eq_set m.nodup h hk

/-- Setting a new key appends its entry. -/
theorem set_of_forall_ne {m : KeyedList key} {e : ε} (h : ∀ x ∈ m.entries, key x ≠ key e) :
    (m.set e).entries = m.entries ++ [e] := by
  obtain ⟨l, hl⟩ := m
  change putEntry key e l = l ++ [e]
  induction l with
  | nil => rfl
  | cons y ys ih =>
    rw [putEntry, if_neg (h y List.mem_cons_self), List.cons_append,
      ih (List.nodup_cons.mp hl).2 (fun x hx ↦ h x (List.mem_cons_of_mem _ hx))]

private theorem eraseP_eq_eraseIdx {x : ε} {i : Nat} {l : List ε} (hl : (l.map key).Nodup)
    (h : l[i]? = some x) : l.eraseP (fun e ↦ key e = key x) = l.eraseIdx i := by
  induction l generalizing i with
  | nil => cases h
  | cons y ys ih =>
    obtain ⟨hy, hys⟩ := List.nodup_cons.mp hl
    cases i with
    | zero =>
      cases h
      simp
    | succ i =>
      have hm : x ∈ ys := List.mem_of_getElem? h
      have hne : key y ≠ key x := fun he ↦ hy (List.mem_map.mpr ⟨x, hm, he.symm⟩)
      rw [List.eraseP_cons_of_neg (by simpa using hne), ih hys h, List.eraseIdx_cons_succ]

/-- Removing a present key erases its entry. -/
theorem remove_of_getElem? {m : KeyedList key} {x : ε} {i : Nat} (h : m.entries[i]? = some x) :
    (m.remove (key x)).entries = m.entries.eraseIdx i :=
  eraseP_eq_eraseIdx m.nodup h

/-- Removing a key that no entry has changes nothing. -/
theorem remove_of_forall_ne {m : KeyedList key} {k : κ} (h : ∀ e ∈ m.entries, key e ≠ k) :
    m.remove k = m := by
  obtain ⟨l, hl⟩ := m
  simp only [remove]
  congr 1
  exact List.eraseP_of_forall_not (by simpa using h)

/-- Removing leaves what is found under the other keys. -/
theorem get_remove_of_ne (m : KeyedList key) {k k' : κ} (h : k ≠ k') :
    (m.remove k).get k' = m.get k' := by
  obtain ⟨l, hl⟩ := m
  change (l.eraseP (fun e ↦ key e = k)).find? (fun e ↦ key e = k') =
    l.find? (fun e ↦ key e = k')
  induction l with
  | nil => rfl
  | cons y ys ih =>
    by_cases hy : key y = k
    · rw [List.eraseP_cons_of_pos (by simpa using hy),
        List.find?_cons_of_neg (by simpa [hy] using h)]
    · rw [List.eraseP_cons_of_neg (by simpa using hy), List.find?_cons, List.find?_cons,
        ih (List.nodup_cons.mp hl).2]

end KeyedList
