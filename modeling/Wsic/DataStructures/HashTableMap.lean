import Wsic.Lib.KeyedList
import Wsic.DataStructures.HashTableT
import Wsic.DataStructures.RingOps

/-!
# The hash table as an insertion-ordered map

`Represents table m` says that the list of the table holds the entries of the
insertion-ordered map `m`, which is keyed by the hash, and that every entry carries the
hash of its key. Each function of `src/datastructures/hash-table/hash-table.c` is
described by what it does to `m`, wherever the cursor of the list is.
-/

open CMemory

namespace Wsic.HashTableT

variable {β : Type}

/-- The map from hashes to entries that a table stands for. -/
abbrev Map (β : Type) := KeyedList (HashTableEntryT.keyHash (β := β))

/-- A key that the header lets through: `hash_table_hash` asks for a non-null buffer,
`hash-table.h:26`. -/
abbrev Key := { key : StringT // key.buffer ≠ none }

/-- The hash of a key. -/
def Key.hash (key : Key) : BitVec 32 := HashTableT.hash key.1.bytes

theorem Key.keyHash_eq (key : Key) : keyHash key.1 = .ok key.hash := by
  obtain ⟨key, hk⟩ := key
  obtain ⟨b, hb⟩ := Option.ne_none_iff_exists'.mp hk
  simp only [keyHash, Key.hash, StringT.bytes, hb]
  rfl

/-- A fresh string as a key. -/
def freshKey (b : List UInt8) : Key := ⟨StringT.fromBufferWithLength b, Option.some_ne_none _⟩

/-- The terminator of a fresh string is not hashed. -/
theorem hash_freshKey (b : List UInt8) : (freshKey b).hash = HashTableT.hash b := by
  change HashTableT.hash (b ++ [0]) = HashTableT.hash b
  unfold HashTableT.hash hashWith
  rw [cString_append_zero]

/-- The table holds the entries of the map, each with the hash of its key. -/
def Represents (table : HashTableT β) (m : Map β) : Prop :=
  table.entries.Holds m.entries ∧ ∀ e ∈ m.entries, keyHash e.key = .ok e.keyHash

/-- The entry a key is set to. -/
def entryOf (key : Key) (value : β) : HashTableEntryT β := ⟨key.hash, key.1, value⟩

theorem represents_create : Represents (create : HashTableT β) KeyedList.empty :=
  ⟨ListT.holds_create, fun _ he ↦ absurd he List.not_mem_nil⟩

theorem Represents.getLength {table : HashTableT β} {m : Map β} (h : Represents table m) :
    table.getLength = m.entries.length := h.1.length_eq

/-! ### Searching -/

private theorem findIndexLoop_spec {table : HashTableT β} {es : List (HashTableEntryT β)}
    (h : table.entries.Holds es) (k : BitVec 32) (start rounds i : Nat)
    (hi : i + rounds = es.length)
    (hc : es ≠ [] → table.entries.currentIndex = (start + i) % es.length)
    (hno : ∀ j < i, ∀ e, es[(start + j) % es.length]? = some e → e.keyHash ≠ k) :
    ∃ r table', findIndexLoop k rounds table = .ok (r, table') ∧ table'.entries.Holds es ∧
      match r with
      | some n => table'.entries.currentIndex = n ∧ ∃ e, es[n]? = some e ∧ e.keyHash = k
      | none => ∀ j < es.length, ∀ e, es[(start + j) % es.length]? = some e → e.keyHash ≠ k := by
  induction rounds generalizing table i with
  | zero =>
    refine ⟨none, table, rfl, h, ?_⟩
    intro j hj
    exact hno j (by omega)
  | succ rounds ih =>
    have hn : es ≠ [] := List.ne_nil_of_length_pos (by omega)
    have hlt := h.currentIndex_lt hn
    obtain ⟨node, hnode, hv⟩ := h.currentNode hlt
    rw [findIndexLoop, hnode, checked_ok_bind]
    dsimp only
    split
    · next he => exact ⟨_, table, rfl, h, rfl, _, hv, he⟩
    · next he =>
      obtain ⟨moved, hm, hh, hmc⟩ := h.moveToIndex (ListT.succIdx_lt hlt) (ListT.moveSafe_succ hlt)
      have hs : (table.entries.currentIndex + 1) % table.entries.length =
          ListT.succIdx es.length table.entries.currentIndex := by
        rw [h.length_eq, ListT.succ_mod_eq_succIdx hlt]
      rw [hs, hm, checked_ok_bind]
      refine @ih ⟨moved⟩ hh (i + 1) (by omega) ?_ ?_
      · intro _
        rw [hmc, hc hn, ← ListT.succ_mod_mod (by omega)]
        rfl
      · intro j hj
        rcases Nat.lt_succ_iff_lt_or_eq.mp hj with hj | rfl
        · exact hno j hj
        · intro e hx
          rw [← hc hn, hv] at hx
          cases hx
          exact he

/-- The search finds the entry with the hash, and puts the cursor on it, or tells that
there is none. -/
theorem findIndex_spec {table : HashTableT β} {es : List (HashTableEntryT β)}
    (h : table.entries.Holds es) (k : BitVec 32) :
    ∃ r table', table.findIndex k = .ok (r, table') ∧ table'.entries.Holds es ∧
      match r with
      | some n => table'.entries.currentIndex = n ∧ ∃ e, es[n]? = some e ∧ e.keyHash = k
      | none => ∀ e ∈ es, e.keyHash ≠ k := by
  have hc : es ≠ [] → table.entries.currentIndex =
      (table.entries.currentIndex + 0) % es.length := fun hn ↦
    (Nat.mod_eq_of_lt (h.currentIndex_lt hn)).symm
  obtain ⟨r, table', he, hh, hr⟩ := findIndexLoop_spec h k table.entries.currentIndex es.length 0
    (by omega) hc (fun j hj ↦ absurd hj (Nat.not_lt_zero j))
  refine ⟨r, table', by rw [findIndex, h.length_eq, he], hh, ?_⟩
  cases r with
  | some n => exact hr
  | none =>
    intro e hm
    obtain ⟨n, hn, rfl⟩ := List.getElem_of_mem hm
    obtain ⟨j, hj, rfl⟩ := ListT.exists_rotation (h.currentIndex_lt (List.ne_nil_of_mem hm)) hn
    exact hr j hj _ (List.getElem?_eq_getElem hn)

/-- The search, for a hash of the map. -/
private theorem Represents.findIndex {table : HashTableT β} {m : Map β} (h : Represents table m)
    (k : BitVec 32) : ∃ r table', table.findIndex k = .ok (r, table') ∧ Represents table' m ∧
      match r with
      | some n => table'.entries.currentIndex = n ∧ ∃ e, m.entries[n]? = some e ∧ e.keyHash = k
      | none => ∀ e ∈ m.entries, e.keyHash ≠ k := by
  obtain ⟨r, table', he, hh, hr⟩ := findIndex_spec h.1 k
  exact ⟨r, table', he, ⟨hh, h.2⟩, hr⟩

/-- Reading at the index where the cursor is. -/
private theorem Represents.getAtCursor {table : HashTableT β} {m : Map β} (h : Represents table m)
    {e : HashTableEntryT β} (he : m.entries[table.entries.currentIndex]? = some e) :
    ∃ entries, table.entries.getValue table.entries.currentIndex = .ok (some e, entries) ∧
      Represents ⟨entries⟩ m ∧ entries.currentIndex = table.entries.currentIndex := by
  obtain ⟨hlt, -⟩ := List.getElem?_eq_some_iff.mp he
  obtain ⟨entries, hg, hh, hc⟩ := h.1.getValue table.entries.currentIndex
    (fun _ ↦ ListT.moveSafe_self _ _)
  exact ⟨entries, by rw [hg, he], ⟨hh, h.2⟩, hc hlt⟩

/-! ### The operations -/

/-- A lookup returns the value of the hash, or null. -/
theorem Represents.getHashed {table : HashTableT β} {m : Map β} (h : Represents table m)
    (k : BitVec 32) : ∃ table', table.getHashed k =
      .ok ((m.get k).map (·.value), table') ∧ Represents table' m := by
  obtain ⟨r, found, hf, hr, hm⟩ := h.findIndex k
  rw [HashTableT.getHashed, hf, checked_ok_bind]
  cases r with
  | none =>
    rw [KeyedList.get_eq_none hm]
    exact ⟨found, rfl, hr⟩
  | some n =>
    obtain ⟨rfl, e, he, hk⟩ := hm
    obtain ⟨entries, hg, hr', -⟩ := hr.getAtCursor he
    dsimp only
    rw [hg, checked_ok_bind, ← hk, KeyedList.get_of_getElem? he]
    exact ⟨⟨entries⟩, rfl, hr'⟩

theorem Represents.getValue {table : HashTableT β} {m : Map β} (h : Represents table m)
    (key : Key) : ∃ table', table.getValue key.1 =
      .ok ((m.get key.hash).map (·.value), table') ∧ Represents table' m := by
  rw [HashTableT.getValue, key.keyHash_eq, checked_ok_bind]
  exact h.getHashed key.hash

/-- Setting returns the old value of the key's hash, or null, and sets the entry. -/
theorem Represents.setHashed {table : HashTableT β} {m : Map β} (h : Represents table m)
    (key : Key) (value : β) : ∃ table', table.setHashed key.hash key.1 value =
      .ok ((m.get key.hash).map (·.value), table') ∧
      Represents table' (m.set (entryOf key value)) := by
  have hkeys (x : HashTableEntryT β) (hx : x = entryOf key value) :
      keyHash x.key = .ok x.keyHash := by
    rw [hx]
    exact key.keyHash_eq
  obtain ⟨r, found, hf, hr, hm⟩ := h.findIndex key.hash
  rw [HashTableT.setHashed, hf, checked_ok_bind]
  cases r with
  | none =>
    obtain ⟨entries, ha, hh, -⟩ := hr.1.addValue (entryOf key value)
    dsimp only
    rw [show (⟨key.hash, key.1, value⟩ : HashTableEntryT β) = entryOf key value from rfl, ha,
      KeyedList.get_eq_none hm]
    refine ⟨⟨entries⟩, rfl, ?_⟩
    unfold Represents
    rw [KeyedList.set_of_forall_ne hm]
    refine ⟨hh, ?_⟩
    intro x hx
    rcases List.mem_append.mp hx with hx | hx
    · exact h.2 x hx
    · exact hkeys x (List.mem_singleton.mp hx)
  | some n =>
    obtain ⟨rfl, e, he, hk⟩ := hm
    obtain ⟨entries, hg, hr', hc⟩ := hr.getAtCursor he
    have hn : m.entries ≠ [] := List.ne_nil_of_mem (List.mem_of_getElem? he)
    obtain ⟨entries', hs, hh, -⟩ := hr'.1.setCurrentValue hn (entryOf key value)
    have hentry : { e with value := value, key := key.1 } = entryOf key value := by
      rw [entryOf, ← hk]
    dsimp only
    rw [hg, checked_ok_bind]
    dsimp only
    rw [deref_some, checked_ok_bind, hentry, hs, ← hk, KeyedList.get_of_getElem? he]
    refine ⟨⟨entries'⟩, rfl, ?_⟩
    unfold Represents
    rw [KeyedList.set_of_getElem? he (by rw [hk]; rfl)]
    simp only [hc] at hh
    refine ⟨hh, ?_⟩
    intro x hx
    rcases List.mem_or_eq_of_mem_set hx with hx | hx
    · exact h.2 x hx
    · exact hkeys x hx

theorem Represents.setValue {table : HashTableT β} {m : Map β} (h : Represents table m)
    (key : Key) (value : β) : ∃ table', table.setValue key.1 value =
      .ok ((m.get key.hash).map (·.value), table') ∧
      Represents table' (m.set (entryOf key value)) := by
  rw [HashTableT.setValue, key.keyHash_eq, checked_ok_bind]
  exact h.setHashed key value

/-- Removing returns the value of the hash, or null, and removes the entry. -/
theorem Represents.removeHashed {table : HashTableT β} {m : Map β} (h : Represents table m)
    (k : BitVec 32) : ∃ table', table.removeHashed k =
      .ok ((m.get k).map (·.value), table') ∧ Represents table' (m.remove k) := by
  obtain ⟨r, found, hf, hr, hm⟩ := h.findIndex k
  rw [HashTableT.removeHashed, hf, checked_ok_bind]
  cases r with
  | none =>
    rw [KeyedList.get_eq_none hm, KeyedList.remove_of_forall_ne hm]
    exact ⟨found, rfl, hr⟩
  | some n =>
    obtain ⟨rfl, e, he, hk⟩ := hm
    obtain ⟨entries, hrem, hh⟩ := hr.1.removeValue found.entries.currentIndex
      (fun _ ↦ ListT.moveSafe_self _ _)
    dsimp only
    rw [hrem, checked_ok_bind, ← hk, KeyedList.get_of_getElem? he, he]
    refine ⟨⟨entries⟩, rfl, ?_⟩
    unfold Represents
    rw [KeyedList.remove_of_getElem? he]
    exact ⟨hh, fun x hx ↦ h.2 x (List.mem_of_mem_eraseIdx hx)⟩

theorem Represents.removeValue {table : HashTableT β} {m : Map β} (h : Represents table m)
    (key : Key) : ∃ table', table.removeValue key.1 =
      .ok ((m.get key.hash).map (·.value), table') ∧ Represents table' (m.remove key.hash) := by
  rw [HashTableT.removeValue, key.keyHash_eq, checked_ok_bind]
  exact h.removeHashed key.hash

private theorem clearLoop_spec {table : HashTableT β} {es : List (HashTableEntryT β)}
    (h : table.entries.Holds es) (rounds : Nat) (hr : es.length ≤ rounds) :
    ∃ table', clearLoop rounds table = .ok table' ∧ table'.entries.Holds [] := by
  induction rounds generalizing table es with
  | zero =>
    obtain rfl : es = [] := List.length_eq_zero_iff.mp (by omega)
    exact ⟨table, if_neg (by rw [h.length_eq]; simp), h⟩
  | succ rounds ih =>
    rw [clearLoop]
    cases es with
    | nil => exact ⟨table, if_neg (by rw [h.length_eq]; simp), h⟩
    | cons e es =>
      rw [if_pos (by rw [h.length_eq]; simp)]
      obtain ⟨entries, he, hh⟩ := h.removeFront
      rw [he, checked_ok_bind]
      exact @ih ⟨entries⟩ es hh (by simpa using hr)

/-- Clearing empties the map. -/
theorem Represents.clear {table : HashTableT β} {m : Map β} (h : Represents table m) :
    ∃ table', table.clear = .ok table' ∧ Represents table' KeyedList.empty := by
  rw [HashTableT.clear, h.1.length_eq]
  obtain ⟨table', he, hh⟩ := clearLoop_spec h.1 m.entries.length (Nat.le_refl _)
  exact ⟨table', he, hh, fun _ hx ↦ absurd hx List.not_mem_nil⟩

/-! ### Access by index -/

/-- An access by index reads the entry at the index and leaves the cursor there. -/
theorem Represents.getEntryByIndex {table : HashTableT β} {m : Map β} (h : Represents table m)
    (i : Nat) (hm : i < m.entries.length →
      ListT.MoveSafe table.entries.currentIndex m.entries.length i) :
    ∃ table', table.getEntryByIndex i = .ok (m.entries[i]?, table') ∧ Represents table' m ∧
      (i < m.entries.length → table'.entries.currentIndex = i) := by
  unfold HashTableT.getEntryByIndex
  rw [h.1.length_eq]
  split
  · next hi =>
    rw [List.getElem?_eq_none hi]
    exact ⟨table, rfl, h, fun hlt ↦ absurd hlt (Nat.not_lt.mpr hi)⟩
  · obtain ⟨entries, hg, hh, hc⟩ := h.1.getValue i hm
    rw [hg, checked_ok_bind]
    exact ⟨⟨entries⟩, rfl, ⟨hh, h.2⟩, hc⟩

private theorem iterateLoop_spec {table : HashTableT β} {m : Map β} (h : Represents table m)
    (rounds i : Nat) (hi : i + rounds = m.entries.length)
    (hc : i = 0 ∨ i = table.entries.currentIndex + 1) :
    ∃ table', iterateLoop rounds i table =
      .ok ((m.entries.drop i).map (fun e ↦ (some e.key, some e.value)), table') ∧
      Represents table' m := by
  induction rounds generalizing table i with
  | zero =>
    rw [List.drop_of_length_le (by omega)]
    exact ⟨table, rfl, h⟩
  | succ rounds ih =>
    have hlt : i < m.entries.length := by omega
    obtain ⟨t₁, h₁, hr₁, hc₁⟩ := h.getEntryByIndex i (ListT.moveSafe_inOrder hc)
    obtain ⟨t₂, h₂, hr₂, hc₂⟩ := hr₁.getEntryByIndex i
      (fun _ ↦ by rw [hc₁ hlt]; exact ListT.moveSafe_self _ _)
    obtain ⟨t₃, h₃, hr₃⟩ := ih hr₂ (i + 1) (by omega) (.inr (by rw [hc₂ hlt]))
    rw [iterateLoop, getKeyByIndex, h₁, checked_ok_bind]
    dsimp only [pure, Except.pure]
    rw [checked_ok_bind, getValueByIndex, h₂, checked_ok_bind]
    dsimp only [pure, Except.pure]
    rw [checked_ok_bind, h₃, checked_ok_bind, List.getElem?_eq_getElem hlt,
      List.drop_eq_getElem_cons hlt]
    exact ⟨t₃, rfl, hr₃⟩

/-- The callers' iteration reads all keys and values in order. -/
theorem Represents.iterate {table : HashTableT β} {m : Map β} (h : Represents table m) :
    ∃ table', table.iterate =
      .ok (m.entries.map (fun e ↦ (some e.key, some e.value)), table') ∧ Represents table' m := by
  obtain ⟨table', he, hr⟩ := iterateLoop_spec h m.entries.length 0 (by omega) (.inl rfl)
  exact ⟨table', by rw [HashTableT.iterate, h.getLength, he, List.drop_zero], hr⟩

theorem Represents.of_nil {table : HashTableT β} {m : Map β} (h : Represents table m)
    (hm : m.entries = []) : Represents table KeyedList.empty := by
  obtain ⟨es, hes⟩ := m
  cases hm
  exact h

/-- The first key of a table that is not empty. -/
theorem Represents.firstKey {table : HashTableT β} {m : Map β} (h : Represents table m)
    {e : HashTableEntryT β} {es : List (HashTableEntryT β)} (hm : m.entries = e :: es) :
    ∃ table', table.getKeyByIndex 0 = .ok (some e.key, table') ∧ Represents table' m := by
  obtain ⟨table', he, hr, -⟩ := h.getEntryByIndex 0 (fun _ ↦ ListT.moveSafe_zero _ _)
  refine ⟨table', ?_, hr⟩
  rw [getKeyByIndex, he, hm, checked_ok_bind]
  rfl

/-- Removing by the hash of the first key leaves the other entries. -/
theorem Represents.removeFirst {table : HashTableT β} {m : Map β} (h : Represents table m)
    {e : HashTableEntryT β} {es : List (HashTableEntryT β)} (hm : m.entries = e :: es) :
    ∃ table', table.removeHashed e.keyHash = .ok (some e.value, table') ∧
      Represents table' (m.remove e.keyHash) ∧ (m.remove e.keyHash).entries = es := by
  have he : m.entries[0]? = some e := by rw [hm]; rfl
  obtain ⟨table', hremove, hr⟩ := h.removeHashed e.keyHash
  rw [KeyedList.get_of_getElem? he] at hremove
  refine ⟨table', hremove, hr, ?_⟩
  rw [KeyedList.remove_of_getElem? he, hm, List.eraseIdx_zero, List.tail_cons]

private theorem drainLoop_spec {table : HashTableT β} {m : Map β} (h : Represents table m)
    (rounds : Nat) (hr : m.entries.length ≤ rounds) :
    ∃ table', drainLoop rounds table =
      .ok (m.entries.map (fun e ↦ (e.key, some e.value)), table') ∧
      Represents table' KeyedList.empty := by
  induction rounds generalizing table m with
  | zero =>
    have hnil : m.entries = [] := List.length_eq_zero_iff.mp (by omega)
    rw [drainLoop, if_neg (by rw [h.getLength, hnil]; simp), hnil]
    exact ⟨table, rfl, h.of_nil hnil⟩
  | succ rounds ih =>
    rw [drainLoop]
    cases hes : m.entries with
    | nil =>
      rw [if_neg (by rw [h.getLength, hes]; simp)]
      exact ⟨table, rfl, h.of_nil hes⟩
    | cons e es =>
      rw [if_pos (by rw [h.getLength, hes]; simp)]
      -- The first entry has the hash of its key, so its key finds it.
      have hk := h.2 e (hes ▸ List.mem_cons_self)
      obtain ⟨t₁, h₁, hr₁⟩ := h.firstKey hes
      obtain ⟨t₂, h₂, hr₂, hes₂⟩ := hr₁.removeFirst hes
      obtain ⟨t₃, h₃, hr₃⟩ := ih hr₂ (by rw [hes₂]; rw [hes] at hr; simpa using hr)
      rw [h₁, checked_ok_bind]
      dsimp only
      rw [deref_some, checked_ok_bind, HashTableT.removeValue, hk, checked_ok_bind, h₂,
        checked_ok_bind]
      dsimp only
      rw [h₃, hes₂]
      exact ⟨t₃, rfl, hr₃⟩

/-- The callers' drain loop ends, and visits every key and value once in order. -/
theorem Represents.drain {table : HashTableT β} {m : Map β} (h : Represents table m) :
    ∃ table', table.drain = .ok (m.entries.map (fun e ↦ (e.key, some e.value)), table') ∧
      Represents table' KeyedList.empty := by
  rw [HashTableT.drain, h.getLength]
  exact drainLoop_spec h _ (Nat.le_refl _)

end Wsic.HashTableT
