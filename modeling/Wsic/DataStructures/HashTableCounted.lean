import Wsic.DataStructures.HashTableCrc

/-!
# Runs of hash table operations

Any mix of the calls of `src/datastructures/hash-table/hash-table.c` on a table from
`hash_table_create`, with the two loops in which its callers go through a table. Every call
hashes its key first, with the static lookup table that the calls before it have left and with
the 32-bit counter of the loop. A run refines an insertion-ordered map keyed by the hash exactly
when the counter does not start over on one of its keys.
-/

open CMemory Transition

namespace Wsic.HashTableT

variable {β : Type}

/-! ### The calls -/

/-- `hash_table_hash(string_getBuffer(key))`: the hash and the static lookup table after the
call. A loop that ends has read no byte of the buffer twice. -/
def hashKey (hashLookup : BitVec 8 → BitVec 32) (key : StringT) :
    Checked (BitVec 32 × (BitVec 8 → BitVec 32)) := do
  let value ← deref key.buffer
  hashCall (value.length + 1) hashLookup value

/-- The static variable of `hash-table.c:9`, and a table. -/
structure ModuleT (β : Type) where
  hashLookup : BitVec 8 → BitVec 32
  table : HashTableT β

namespace ModuleT

/-- A new table, before the first call. -/
def start : ModuleT β := ⟨fun _ ↦ 0, HashTableT.create⟩

/-- `hash_table_setValue`, `hash-table.c:49`. -/
def setValue (s : ModuleT β) (key : StringT) (value : β) : Checked (Option β × ModuleT β) := do
  let (keyHash, hashLookup) ← hashKey s.hashLookup key
  let (old, table) ← s.table.setHashed keyHash key value
  return (old, ⟨hashLookup, table⟩)

/-- `hash_table_removeValue`, `hash-table.c:74`. -/
def removeValue (s : ModuleT β) (key : StringT) : Checked (Option β × ModuleT β) := do
  let (keyHash, hashLookup) ← hashKey s.hashLookup key
  let (value, table) ← s.table.removeHashed keyHash
  return (value, ⟨hashLookup, table⟩)

/-- `hash_table_getValue`, `hash-table.c:89`. -/
def getValue (s : ModuleT β) (key : StringT) : Checked (Option β × ModuleT β) := do
  let (keyHash, hashLookup) ← hashKey s.hashLookup key
  let (value, table) ← s.table.getHashed keyHash
  return (value, ⟨hashLookup, table⟩)

/-- The drain loop of the callers, such as `http.c:407–411`, for a bounded number of rounds. -/
def drainLoop : Nat → ModuleT β → Checked (List (StringT × Option β) × ModuleT β)
  | 0, s => if s.table.getLength > 0 then .error .nonTermination else .ok ([], s)
  | rounds + 1, s =>
    if s.table.getLength > 0 then do
      let (key, table) ← s.table.getKeyByIndex 0
      let key ← deref key
      let (value, s) ← removeValue { s with table := table } key
      let (rest, s) ← drainLoop rounds s
      return ((key, value) :: rest, s)
    else .ok ([], s)

/-- One call, or one full loop of a caller. -/
def step (s : ModuleT β) : Op β → Checked (Result β × ModuleT β)
  | .setValue key value => return (← s.setValue key.1 value).map .value id
  | .getValue key => return (← s.getValue key.1).map .value id
  | .removeValue key => return (← s.removeValue key.1).map .value id
  | .clear => return (.done, { s with table := ← s.table.clear })
  | .iterate => return (← s.table.iterate).map .visited ({ s with table := · })
  | .drain =>
    return (← s.drainLoop s.table.getLength).map (fun es ↦ .visited (es.map (·.map some id))) id

end ModuleT

/-! ### The hash of a key -/

/-- The buffer of a key is a C string that is shorter than the range of the loop's counter. -/
def Key.InRange (key : Key) : Prop :=
  ∃ text rest, key.1.bytes = text ++ 0 :: rest ∧ 0 ∉ text ∧ text.length < 2 ^ 32

/-- Without a terminator the loop leaves the buffer, or never ends. -/
theorem hashLoop_of_notMem (hashLookup : BitVec 8 → BitVec 32) {value : List UInt8}
    (h : 0 ∉ value) (rounds : Nat) (byte : UInt32) (crc result : BitVec 32) :
    hashLoop hashLookup value rounds byte crc ≠ .ok result := by
  induction rounds generalizing byte crc with
  | zero =>
    intro he
    cases he
  | succ rounds ih =>
    rw [hashLoop]
    cases hc : value[byte.toNat]? with
    | none =>
      intro he
      cases he
    | some c =>
      dsimp only
      rw [if_neg (ne_of_mem_of_not_mem (List.mem_of_getElem? hc) h)]
      exact ih _ _

section HashKey

variable {hashLookup : BitVec 8 → BitVec 32} {key : Key}

private theorem hashKey_eq (hashLookup : BitVec 8 → BitVec 32) (key : Key) :
    hashKey hashLookup key.1 = hashCall (key.1.bytes.length + 1) hashLookup key.1.bytes := by
  obtain ⟨key, hk⟩ := key
  obtain ⟨b, hb⟩ := Option.ne_none_iff_exists'.mp hk
  simp only [hashKey, StringT.bytes, hb]
  rfl

/-- On a key in range the call returns what the functions of the table take as its hash, and
leaves the filled lookup table. -/
theorem Key.InRange.hashKey (h : key.InRange) (hfill : fillHashLookup hashLookup = hashByte) :
    hashKey hashLookup key.1 = .ok (key.hash, hashByte) := by
  obtain ⟨text, rest, hbytes, hz, hlength⟩ := h
  have hrounds : text.length < (0 : UInt32).toNat + (key.1.bytes.length + 1) := by
    rw [hbytes, List.length_append]
    omega
  have hstring : cString key.1.bytes = text := by
    rw [hbytes, cString_append hz, cString_cons_zero, List.append_nil]
  rw [hashKey_eq, hashCall, hfill, Key.hash, hash_eq_crc32, hstring]
  rw [hbytes] at hrounds ⊢
  rw [hashLoop_of_lt hashByte hz hlength rest 0xFFFFFFFF (Nat.zero_le _) hrounds,
    hashStep_eq_byteStep]
  rfl

/-- The call returns on no other key. -/
theorem inRange_of_hashKey {result : BitVec 32 × (BitVec 8 → BitVec 32)}
    (h : hashKey hashLookup key.1 = .ok result) : key.InRange := by
  rw [hashKey_eq, hashCall] at h
  obtain ⟨crc, hloop, -⟩ := exists_of_bind_eq_ok h
  by_cases hmem : 0 ∈ key.1.bytes
  · obtain ⟨text, rest, hbytes, hz⟩ := List.eq_append_cons_of_mem hmem
    refine ⟨text, rest, hbytes, hz, ?_⟩
    by_contra hlong
    rw [hbytes, hashLoop_of_le _ hz (Nat.le_of_not_lt hlong)] at hloop
    cases hloop
  · exact absurd hloop (hashLoop_of_notMem _ hmem _ _ _ _)

end HashKey

/-! ### Refinement -/

/-- The table represents the map, and the hash of every entry is what a call on its key
returns. -/
structure ModuleT.Represents (s : ModuleT β) (m : Map β) : Prop where
  table : HashTableT.Represents s.table m
  filled : fillHashLookup s.hashLookup = hashByte
  hashes : ∀ e ∈ m.entries, hashKey s.hashLookup e.key = .ok (e.keyHash, hashByte)

/-- The map after a call, if the call may return this result on it. -/
def acceptedBy [DecidableEq β] (m : Map β) (call : Op β × Result β) : Option (Map β) :=
  if call.2 = (onMap m call.1).1 then some (onMap m call.1).2 else none

/-- After every call of the run, all calls so far have returned what they return on a map,
and the table represents this map: its entries have pairwise different hashes, each the
hash of its key. Every table that represents the same map, wherever its cursor is,
answers lookups and removals in the same way. -/
def RefinesMap [DecidableEq β] (calls : List (Op β)) : Prop :=
  ∀ done, done <+: calls → ∃ s, exec (observe ModuleT.step) ([], ModuleT.start) done = .ok s ∧
    s.1.map Prod.fst = done ∧ ∃ m, s.1.foldlM acceptedBy KeyedList.empty = some m ∧
      s.2.Represents m ∧ ∀ table, Represents table m → ∀ keyHash,
        (table.getHashed keyHash).map Prod.fst = (s.2.table.getHashed keyHash).map Prod.fst ∧
        (table.removeHashed keyHash).map Prod.fst =
          (s.2.table.removeHashed keyHash).map Prod.fst

namespace ModuleT

variable {s : ModuleT β} {m : Map β}

/-- Only what the check behind the first call makes of the lookup table matters. -/
private theorem hashKey_congr {hashLookup hashLookup' : BitVec 8 → BitVec 32}
    (h : fillHashLookup hashLookup = fillHashLookup hashLookup') (key : StringT) :
    hashKey hashLookup key = hashKey hashLookup' key := by
  simp only [hashKey, hashCall, h]

theorem represents_start : (start : ModuleT β).Represents KeyedList.empty :=
  ⟨represents_create, if_pos rfl, fun _ he ↦ absurd he List.not_mem_nil⟩

/-- Another map whose entries are old ones, or have keys in range. -/
private theorem Represents.change (h : s.Represents m) {hashLookup : BitVec 8 → BitVec 32}
    (hfill : fillHashLookup hashLookup = hashByte) {table : HashTableT β} {m' : Map β}
    (htable : HashTableT.Represents table m')
    (hentries : ∀ e ∈ m'.entries, e ∈ m.entries ∨
      ∃ key : Key, key.InRange ∧ e.key = key.1 ∧ e.keyHash = key.hash) :
    ModuleT.Represents ⟨hashLookup, table⟩ m' := by
  refine ⟨htable, hfill, fun e he ↦ ?_⟩
  rcases hentries e he with hold | ⟨key, hrange, hkey, hhash⟩
  · rw [hashKey_congr (hfill.trans h.filled.symm)]
    exact h.hashes e hold
  · rw [hkey, hhash]
    exact hrange.hashKey hfill

/-- The same map in the table after a call that has filled the lookup table. -/
private theorem Represents.keep (h : s.Represents m) {table : HashTableT β}
    (htable : HashTableT.Represents table m) : ModuleT.Represents ⟨hashByte, table⟩ m :=
  h.change (if_neg (by decide)) htable (fun _ he ↦ .inl he)

theorem Represents.setValue (h : s.Represents m) {key : Key} (hrange : key.InRange) (value : β) :
    ∃ s', s.setValue key.1 value = .ok ((m.get key.hash).map (·.value), s') ∧
      s'.Represents (m.set (entryOf key value)) := by
  obtain ⟨table, hset, htable⟩ := h.table.setHashed key value
  refine ⟨⟨hashByte, table⟩, ?_, h.change (if_neg (by decide)) htable (fun e he ↦ ?_)⟩
  · rw [ModuleT.setValue, hrange.hashKey h.filled, checked_ok_bind]
    dsimp only
    rw [hset]
    rfl
  · rcases KeyedList.mem_set he with rfl | he
    · exact .inr ⟨key, hrange, rfl, rfl⟩
    · exact .inl he

theorem Represents.getValue (h : s.Represents m) {key : Key} (hrange : key.InRange) :
    ∃ s', s.getValue key.1 = .ok ((m.get key.hash).map (·.value), s') ∧ s'.Represents m := by
  obtain ⟨table, hget, htable⟩ := h.table.getHashed key.hash
  refine ⟨⟨hashByte, table⟩, ?_, h.keep htable⟩
  rw [ModuleT.getValue, hrange.hashKey h.filled, checked_ok_bind]
  dsimp only
  rw [hget]
  rfl

/-- Removing the entry of a key whose hash the call returns. -/
private theorem Represents.removeHash (h : s.Represents m) {key : StringT} {keyHash : BitVec 32}
    (hkey : hashKey s.hashLookup key = .ok (keyHash, hashByte)) :
    ∃ s', s.removeValue key = .ok ((m.get keyHash).map (·.value), s') ∧
      s'.Represents (m.remove keyHash) := by
  obtain ⟨table, hremove, htable⟩ := h.table.removeHashed keyHash
  refine ⟨⟨hashByte, table⟩, ?_, h.change (if_neg (by decide)) htable (fun e he ↦ .inl ?_)⟩
  · rw [ModuleT.removeValue, hkey, checked_ok_bind]
    dsimp only
    rw [hremove]
    rfl
  · exact List.mem_of_mem_eraseP he

theorem Represents.removeValue (h : s.Represents m) {key : Key} (hrange : key.InRange) :
    ∃ s', s.removeValue key.1 = .ok ((m.get key.hash).map (·.value), s') ∧
      s'.Represents (m.remove key.hash) := h.removeHash (hrange.hashKey h.filled)

private theorem Represents.drainLoop (h : s.Represents m) {rounds : Nat}
    (hr : m.entries.length ≤ rounds) :
    ∃ s', ModuleT.drainLoop rounds s =
      .ok (m.entries.map (fun e ↦ (e.key, some e.value)), s') ∧
      s'.Represents KeyedList.empty := by
  induction rounds generalizing s m with
  | zero =>
    have hnil : m.entries = [] := List.length_eq_zero_iff.mp (by omega)
    rw [ModuleT.drainLoop, if_neg (by rw [h.table.getLength, hnil]; simp), hnil]
    exact ⟨s, rfl, h.table.of_nil hnil, h.filled, fun _ he ↦ absurd he List.not_mem_nil⟩
  | succ rounds ih =>
    rw [ModuleT.drainLoop]
    cases hes : m.entries with
    | nil =>
      rw [if_neg (by rw [h.table.getLength, hes]; simp)]
      exact ⟨s, rfl, h.table.of_nil hes, h.filled, fun _ he ↦ absurd he List.not_mem_nil⟩
    | cons e es =>
      rw [if_pos (by rw [h.table.getLength, hes]; simp)]
      obtain ⟨table, hfirst, htable⟩ := h.table.firstKey hes
      have he : m.entries[0]? = some e := by rw [hes]; rfl
      have hmoved : ModuleT.Represents ⟨s.hashLookup, table⟩ m := ⟨htable, h.filled, h.hashes⟩
      -- Every key of the table has been hashed before, so the call on it returns.
      obtain ⟨s₁, hremove, h₁⟩ := hmoved.removeHash (h.hashes e (List.mem_of_getElem? he))
      have hrest : (m.remove e.keyHash).entries = es := by
        rw [KeyedList.remove_of_getElem? he, hes, List.eraseIdx_zero, List.tail_cons]
      obtain ⟨s₂, hloop, h₂⟩ := ih h₁ (by rw [hrest]; rw [hes] at hr; simpa using hr)
      rw [KeyedList.get_of_getElem? he] at hremove
      rw [hfirst, checked_ok_bind]
      dsimp only
      rw [deref_some, checked_ok_bind, hremove, checked_ok_bind]
      dsimp only
      rw [hloop, hrest]
      exact ⟨s₂, rfl, h₂⟩

/-- One call on a key in range returns what it returns on the map. -/
theorem Represents.step (h : s.Represents m) {op : Op β} (hrange : ∀ key, op.On key → key.InRange) :
    ∃ s', s.step op = .ok ((onMap m op).1, s') ∧ s'.Represents (onMap m op).2 := by
  cases op with
  | setValue key value =>
    obtain ⟨s', he, hr⟩ := h.setValue (hrange key rfl) value
    exact ⟨s', by rw [ModuleT.step, he]; rfl, hr⟩
  | getValue key =>
    obtain ⟨s', he, hr⟩ := h.getValue (hrange key rfl)
    exact ⟨s', by rw [ModuleT.step, he]; rfl, hr⟩
  | removeValue key =>
    obtain ⟨s', he, hr⟩ := h.removeValue (hrange key rfl)
    exact ⟨s', by rw [ModuleT.step, he]; rfl, hr⟩
  | clear =>
    obtain ⟨table, he, hr⟩ := h.table.clear
    refine ⟨⟨s.hashLookup, table⟩, by rw [ModuleT.step, he]; rfl, hr, h.filled, ?_⟩
    exact fun _ he ↦ absurd he List.not_mem_nil
  | iterate =>
    obtain ⟨table, he, hr⟩ := h.table.iterate
    exact ⟨⟨s.hashLookup, table⟩, by rw [ModuleT.step, he]; rfl, hr, h.filled, h.hashes⟩
  | drain =>
    obtain ⟨s', he, hr⟩ := h.drainLoop (Nat.le_refl _)
    refine ⟨s', ?_, hr⟩
    rw [ModuleT.step, h.table.getLength, he, onMap, Map.visit]
    change Except.ok _ = _
    simp only [Prod.map, List.map_map, id]
    rfl

/-- A call returns on no other key. -/
theorem inRange_of_step {op : Op β} {result : Result β × ModuleT β} (h : s.step op = .ok result)
    {key : Key} (hop : op.On key) : key.InRange := by
  cases op with
  | setValue k value =>
    obtain rfl : k = key := hop
    obtain ⟨_, hset, -⟩ := exists_of_bind_eq_ok h
    obtain ⟨_, hhash, -⟩ := exists_of_bind_eq_ok hset
    exact inRange_of_hashKey hhash
  | getValue k =>
    obtain rfl : k = key := hop
    obtain ⟨_, hget, -⟩ := exists_of_bind_eq_ok h
    obtain ⟨_, hhash, -⟩ := exists_of_bind_eq_ok hget
    exact inRange_of_hashKey hhash
  | removeValue k =>
    obtain rfl : k = key := hop
    obtain ⟨_, hremove, -⟩ := exists_of_bind_eq_ok h
    obtain ⟨_, hhash, -⟩ := exists_of_bind_eq_ok hremove
    exact inRange_of_hashKey hhash
  | clear => exact hop.elim
  | iterate => exact hop.elim
  | drain => exact hop.elim

end ModuleT

/-! ### Runs -/

/-- A run that refines the map has keys in range: a call on another key does not return. -/
theorem RefinesMap.inRange [DecidableEq β] {calls : List (Op β)} (h : RefinesMap calls)
    {op : Op β} (hop : op ∈ calls) {key : Key} (hkey : op.On key) : key.InRange := by
  obtain ⟨before, after, rfl⟩ := List.append_of_mem hop
  obtain ⟨s, hs, -⟩ := h (before ++ [op]) ⟨after, by rw [List.append_assoc]; rfl⟩
  rw [exec_concat] at hs
  obtain ⟨t, -, hlast⟩ := exists_of_bind_eq_ok hs
  obtain ⟨result, hstep, -⟩ := exists_of_bind_eq_ok hlast
  exact ModuleT.inRange_of_step hstep hkey

/-- A run of calls and loops on a new table refines the map if and only if every key that it
passes is a C string that is shorter than the range of the counter of `hash_table_hash`. -/
theorem runs_refineMap_iff [DecidableEq β] (calls : List (Op β)) :
    RefinesMap calls ↔ ∀ op ∈ calls, ∀ key, op.On key → key.InRange := by
  constructor
  · exact fun h op hop key hkey ↦ h.inRange hop hkey
  · intro hrange done hdone
    have hstep (s : ModuleT β) (m : Map β) (op : Op β) (h : s.Represents m)
        (hop : ∀ key, op.On key → key.InRange) :
        ∃ r s' m', s.step op = .ok (r, s') ∧ acceptedBy m (op, r) = some m' ∧
          s'.Represents m' := by
      obtain ⟨s', he, hr⟩ := h.step hop
      exact ⟨_, s', _, he, if_pos rfl, hr⟩
    have hguard : Guarded (observe ModuleT.step) (fun _ op ↦ ∀ key, op.On key → key.InRange)
        ([], (ModuleT.start : ModuleT β)) done := by
      intro done' op s hdone' _
      exact hrange op ((hdone'.trans hdone).subset (List.mem_append_right _ List.mem_cons_self))
    obtain ⟨s, he, m, hm, hr⟩ := simulation ModuleT.represents_start hstep hguard
    refine ⟨s, he, observe_labels he, m, hm, hr, ?_⟩
    intro table ht keyHash
    obtain ⟨_, h₁, -⟩ := ht.getHashed keyHash
    obtain ⟨_, h₂, -⟩ := hr.table.getHashed keyHash
    obtain ⟨_, h₃, -⟩ := ht.removeHashed keyHash
    obtain ⟨_, h₄, -⟩ := hr.table.removeHashed keyHash
    rw [h₁, h₂, h₃, h₄]
    exact ⟨rfl, rfl⟩

/-- A table in which a text of 4 GiB is set. -/
theorem long_key_not_refinesMap :
    ¬ RefinesMap [Op.setValue (freshKey (List.replicate (2 ^ 32) 97)) true] := by
  intro h
  obtain ⟨text, rest, hbytes, hz, hlength⟩ := h.inRange List.mem_cons_self rfl
  have h0 : 0 ∉ List.replicate (2 ^ 32) (97 : UInt8) :=
    fun hm ↦ absurd (List.eq_of_mem_replicate hm) (by decide)
  obtain ⟨hsplit, -⟩ := append_cons_unique hz h0 (hbytes.symm.trans rfl)
  rw [hsplit, List.length_replicate] at hlength
  exact absurd hlength (Nat.lt_irrefl _)

end Wsic.HashTableT
