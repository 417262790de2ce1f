import Mathlib.Logic.Function.Iterate
import Wsic.DataStructures.ListT
import Wsic.String.StringT

/-!
# The hash table

Model of `src/datastructures/hash-table/hash-table.c`: a list of entries that are found
by the CRC-32 of their key, searched from the list's cursor on. Each entry belongs to
one node, so it is stored in the node; writing to an entry writes to the node's value.
The functions return the table as well, since even a lookup moves the cursor. Freed
keys and entries are dropped.
-/

open CMemory

namespace Wsic.HashTableT

/-! ### The hash -/

/-- One step of the polynomial division, `hash-table.c:16–18`. -/
def hashBit (crc : BitVec 32) : BitVec 32 :=
  let mask := -(crc &&& 1)
  (crc >>> 1) ^^^ (0xEDB88320 &&& mask)

/-- The word of the lookup table for one byte, `hash-table.c:14–21`. -/
def hashByte (byte : BitVec 8) : BitVec 32 := hashBit^[8] (byte.setWidth 32)

/-- The static lookup table `hashLookup` after the check that fills it once,
`hash-table.c:13–22`. -/
def fillHashLookup (hashLookup : BitVec 8 → BitVec 32) : BitVec 8 → BitVec 32 :=
  if hashLookup 1 = 0 then hashByte else hashLookup

/-- One round of the loop of `hash_table_hash`, `hash-table.c:26`; `char` is signed. -/
def hashStep (hashLookup : BitVec 8 → BitVec 32) (crc : BitVec 32) (c : UInt8) : BitVec 32 :=
  (crc >>> 8) ^^^ hashLookup ((crc ^^^ c.toBitVec.signExtend 32).setWidth 8)

/-- The loop of `hash_table_hash`, `hash-table.c:25–26`, for a bounded number of rounds.
`byte` is a 32-bit counter, which starts over after its last value. -/
def hashLoop (hashLookup : BitVec 8 → BitVec 32) (value : List UInt8) :
    Nat → UInt32 → BitVec 32 → Checked (BitVec 32)
  | 0, _, _ => .error .nonTermination
  | rounds + 1, byte, crc =>
    match value[byte.toNat]? with
    | none => .error .outOfBounds
    | some c =>
      if c = 0 then .ok crc
      else hashLoop hashLookup value rounds (byte + 1) (hashStep hashLookup crc c)

/-- `hash_table_hash`, `hash-table.c:10`, on a region of memory: its value and the static
lookup table after it. -/
def hashCall (rounds : Nat) (hashLookup : BitVec 8 → BitVec 32) (value : List UInt8) :
    Checked (BitVec 32 × (BitVec 8 → BitVec 32)) := do
  let hashLookup := fillHashLookup hashLookup
  let crc ← hashLoop hashLookup value rounds 0 0xFFFFFFFF
  return (~~~crc, hashLookup)

/-- What `hash_table_hash` returns for keys whose length is in the range of the loop's
counter. -/
def hashWith (hashLookup : BitVec 8 → BitVec 32) (value : List UInt8) : BitVec 32 :=
  ~~~ (cString value).foldl (hashStep (fillHashLookup hashLookup)) 0xFFFFFFFF

/-- The hash of a C string. -/
def hash (value : List UInt8) : BitVec 32 := hashWith (fun _ ↦ 0) value

/-- Only the C string of a region is hashed. -/
theorem hash_cString (value : List UInt8) : hash (cString value) = hash value := by
  unfold hash hashWith
  rw [cString_cString]

end Wsic.HashTableT

/-! ### The table -/

namespace Wsic

/-- `hash_table_entry_t`, `hash-table.h:16–20`. -/
structure HashTableEntryT (β : Type) where
  keyHash : BitVec 32
  key : StringT
  value : β
deriving DecidableEq

/-- `hash_table_t`, `hash-table.h:22–24`. -/
structure HashTableT (β : Type) where
  entries : ListT (HashTableEntryT β)

namespace HashTableT

variable {β : Type}

/-- `hash_table_hash(string_getBuffer(key))` for keys whose length is in the range of the loop's
counter; a key without a buffer has no hash. -/
def keyHash (key : StringT) : Checked (BitVec 32) := return hash (← deref key.buffer)

/-- `hash_table_create`, `hash-table.c:31`. -/
def create : HashTableT β := ⟨ListT.create⟩

/-- The loop of `hash_table_findIndex`, `hash-table.c:125–132`. -/
def findIndexLoop (keyHash : BitVec 32) : Nat → HashTableT β → Checked (Option Nat × HashTableT β)
  | 0, table => .ok (none, table)
  | rounds + 1, table => do
    let entry := (← table.entries.currentNode).value
    if entry.keyHash = keyHash then return (some table.entries.currentIndex, table)
    else
      let entries ← table.entries.moveToIndex
        ((table.entries.currentIndex + 1) % table.entries.length)
      findIndexLoop keyHash rounds ⟨entries⟩

/-- `hash_table_findIndex`, `hash-table.c:124`; `-1` is `none`. -/
def findIndex (table : HashTableT β) (keyHash : BitVec 32) :
    Checked (Option Nat × HashTableT β) :=
  findIndexLoop keyHash table.entries.length table

/-- `hash_table_setValue` behind the hash of its key, `hash-table.c:51–71`. -/
def setHashed (table : HashTableT β) (keyHash : BitVec 32) (key : StringT) (value : β) :
    Checked (Option β × HashTableT β) := do
  let (keyIndex, table) ← table.findIndex keyHash
  match keyIndex with
  | none =>
    let entries ← table.entries.addValue ⟨keyHash, key, value⟩
    return (none, ⟨entries⟩)
  | some index =>
    let (entry, entries) ← table.entries.getValue index
    let entry ← deref entry
    let entries ← entries.setCurrentValue { entry with value := value, key := key }
    return (some entry.value, ⟨entries⟩)

/-- `hash_table_setValue`, `hash-table.c:49`. -/
def setValue (table : HashTableT β) (key : StringT) (value : β) :
    Checked (Option β × HashTableT β) := do
  let keyHash ← keyHash key
  table.setHashed keyHash key value

/-- `hash_table_removeValue` behind the hash of its key, `hash-table.c:76–86`. -/
def removeHashed (table : HashTableT β) (keyHash : BitVec 32) :
    Checked (Option β × HashTableT β) := do
  let (keyIndex, table) ← table.findIndex keyHash
  match keyIndex with
  | none => return (none, table)
  | some index =>
    let (entry, entries) ← table.entries.removeValue index
    let entry ← deref entry
    return (some entry.value, ⟨entries⟩)

/-- `hash_table_removeValue`, `hash-table.c:74`. -/
def removeValue (table : HashTableT β) (key : StringT) : Checked (Option β × HashTableT β) := do
  let keyHash ← keyHash key
  table.removeHashed keyHash

/-- `hash_table_getValue` behind the hash of its key, `hash-table.c:91–97`. -/
def getHashed (table : HashTableT β) (keyHash : BitVec 32) :
    Checked (Option β × HashTableT β) := do
  let (keyIndex, table) ← table.findIndex keyHash
  match keyIndex with
  | none => return (none, table)
  | some index =>
    let (entry, entries) ← table.entries.getValue index
    let entry ← deref entry
    return (some entry.value, ⟨entries⟩)

/-- `hash_table_getValue`, `hash-table.c:89`. -/
def getValue (table : HashTableT β) (key : StringT) : Checked (Option β × HashTableT β) := do
  let keyHash ← keyHash key
  table.getHashed keyHash

/-- `hash_table_getEntryByIndex`, `hash-table.c:100`. -/
def getEntryByIndex (table : HashTableT β) (index : Nat) :
    Checked (Option (HashTableEntryT β) × HashTableT β) :=
  if index ≥ table.entries.length then .ok (none, table)
  else do
    let (entry, entries) ← table.entries.getValue index
    return (entry, ⟨entries⟩)

/-- `hash_table_getKeyByIndex`, `hash-table.c:108`. -/
def getKeyByIndex (table : HashTableT β) (index : Nat) :
    Checked (Option StringT × HashTableT β) := do
  let (entry, table) ← table.getEntryByIndex index
  return (entry.map (·.key), table)

/-- `hash_table_getValueByIndex`, `hash-table.c:116`. -/
def getValueByIndex (table : HashTableT β) (index : Nat) :
    Checked (Option β × HashTableT β) := do
  let (entry, table) ← table.getEntryByIndex index
  return (entry.map (·.value), table)

/-- `hash_table_getLength`, `hash-table.c:137`. -/
def getLength (table : HashTableT β) : Nat := table.entries.length

/-- The loop of `hash_table_clear`, `hash-table.c:143–147`, for a bounded number of rounds. -/
def clearLoop : Nat → HashTableT β → Checked (HashTableT β)
  | 0, table => if table.entries.length > 0 then .error .nonTermination else .ok table
  | rounds + 1, table =>
    if table.entries.length > 0 then do
      let (entry, entries) ← table.entries.removeValue 0
      let _ ← deref entry
      clearLoop rounds ⟨entries⟩
    else .ok table

/-- `hash_table_clear`, `hash-table.c:142`. -/
def clear (table : HashTableT β) : Checked (HashTableT β) := clearLoop table.entries.length table

/-! ### The loops of the callers -/

/-- The iteration of the callers over indices `i` to `i + rounds - 1`, such as `url.c:42–45`
and `http.c:107–110`: the key and then the value at each index. -/
def iterateLoop : Nat → Nat → HashTableT β →
    Checked (List (Option StringT × Option β) × HashTableT β)
  | 0, _, table => .ok ([], table)
  | rounds + 1, i, table => do
    let (key, table) ← table.getKeyByIndex i
    let (value, table) ← table.getValueByIndex i
    let (rest, table) ← iterateLoop rounds (i + 1) table
    return ((key, value) :: rest, table)

/-- All keys and values by index, `0` to `length - 1`. -/
def iterate (table : HashTableT β) : Checked (List (Option StringT × Option β) × HashTableT β) :=
  iterateLoop table.getLength 0 table

/-- The drain loop of the callers, such as `http.c:407–411`: take the first key, remove it,
until the table is empty. Collects what each round finds. -/
def drainLoop : Nat → HashTableT β → Checked (List (StringT × Option β) × HashTableT β)
  | 0, table => if table.getLength > 0 then .error .nonTermination else .ok ([], table)
  | rounds + 1, table =>
    if table.getLength > 0 then do
      let (key, table) ← table.getKeyByIndex 0
      let key ← deref key
      let (value, table) ← table.removeValue key
      let (rest, table) ← drainLoop rounds table
      return ((key, value) :: rest, table)
    else .ok ([], table)

/-- The drain loop; a loop that ends does so within `length` rounds. -/
def drain (table : HashTableT β) : Checked (List (StringT × Option β) × HashTableT β) :=
  drainLoop table.getLength table

end HashTableT
end Wsic
