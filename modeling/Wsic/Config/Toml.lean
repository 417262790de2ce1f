import Mathlib.Data.List.Nodup
import Wsic.Lib.CMemory

/-!
# TOML tables

What `toml_parse` of `includes/tomlc99/toml.c` hands to the configuration, and the accessors that
`src/config/config.c` calls. Keys are C strings, and no key of a table is used twice. The raw text
of a value is represented by what the readers `toml_rtos`, `toml_rtoi` and `toml_rtob` make of it.
-/

open CMemory

namespace Wsic.Toml

/-- The types of values that `valtype`, `toml.c:832`, tells apart. Doubles, times, dates,
timestamps and unknown values are read by no one here. -/
inductive ValueType where
  | int
  | bool
  | string
  | other
deriving DecidableEq

/-- A raw value. A text in quotes that `toml_rtos` refuses is still one of type string. -/
inductive RawT where
  | string (text : Option (List UInt8))
  | integer (value : Int64)
  | boolean (value : Bool)
  | other

namespace RawT

/-- `valtype`, `toml.c:832`. -/
def valtype : RawT → ValueType
  | string _ => .string
  | integer _ => .int
  | boolean _ => .bool
  | other => .other

/-- `toml_rtos`, `toml.c:2020`. -/
def rtos : RawT → Option (List UInt8)
  | string text => text
  | _ => none

/-- `toml_rtoi`, `toml.c:1852`. -/
def rtoi : RawT → Option Int64
  | integer value => some value
  | _ => none

/-- `toml_rtob`, `toml.c:1834`. -/
def rtob : RawT → Option Bool
  | boolean value => some value
  | _ => none

end RawT

/-- The elements of an array by their kind, `toml.c:243–255`: values of one type, or arrays, or
tables, of which only the number is used. -/
inductive ElementsT where
  | values (type : ValueType) (val : List RawT) (valtype_eq : ∀ raw ∈ val, raw.valtype = type)
  | nested (nelem : ℕ)

/-- `toml_array_t`, `toml.c:243`. -/
structure ArrayT where
  key : List UInt8
  elements : ElementsT

namespace ArrayT

/-- `toml_array_nelem`, `toml.c:1672`. -/
def nelem (array : ArrayT) : ℕ :=
  match array.elements with
  | .values _ val _ => val.length
  | .nested nelem => nelem

/-- `toml_array_type`, `toml.c:1662`; nothing for an empty array and for other kinds. -/
def type (array : ArrayT) : Option ValueType :=
  match array.elements with
  | .values type val _ => if val.length = 0 then none else some type
  | .nested _ => none

/-- The array has elements, and they are integers or booleans. -/
def HasNumbers (array : ArrayT) : Prop := array.type = some .int ∨ array.type = some .bool

/-- `toml_raw_at`, `toml.c:1650`. -/
def rawAt (array : ArrayT) (idx : ℕ) : Option RawT :=
  match array.elements with
  | .values _ val _ => val[idx]?
  | .nested _ => none

/-- Only an array with elements has a type. -/
theorem nelem_pos {array : ArrayT} (h : array.type ≠ none) : 0 < array.nelem := by
  unfold type at h
  unfold nelem
  split
  · next hval =>
    rw [hval] at h
    dsimp only at h
    split at h
    · exact absurd rfl h
    · omega
  · next hnested =>
    rw [hnested] at h
    exact absurd rfl h

/-- An array with a type has values up to its length. -/
theorem rawAt_isSome {array : ArrayT} (h : array.type ≠ none) {idx : ℕ} (hidx : idx < array.nelem) :
    array.rawAt idx ≠ none := by
  unfold type at h
  unfold nelem at hidx
  unfold rawAt
  split
  · next hval =>
    rw [hval] at hidx
    rw [List.getElem?_eq_getElem hidx]
    exact Option.some_ne_none _
  · next hnested =>
    rw [hnested] at h
    exact absurd rfl h

end ArrayT

/-- `toml_keyval_t`, `toml.c:238`. -/
structure KeyvalT where
  key : List UInt8
  val : RawT

/-- `toml_table_t`, `toml.c:257`: key-values, arrays and tables. -/
inductive TableT where
  | mk (key : List UInt8) (kval : List KeyvalT) (arr : List ArrayT) (tab : List TableT)

namespace TableT

/-- `toml_table_key`, `toml.c:1692`. -/
def key : TableT → List UInt8
  | mk key _ _ _ => key

def kval : TableT → List KeyvalT
  | mk _ kval _ _ => kval

def arr : TableT → List ArrayT
  | mk _ _ arr _ => arr

def tab : TableT → List TableT
  | mk _ _ _ tab => tab

/-- `toml_table_ntab`, `toml.c:1688`. -/
def ntab (table : TableT) : ℕ := table.tab.length

/-- `toml_key_in`, `toml.c:1608`: the keys of the values, then of the arrays, then of the tables. -/
def keyIn (table : TableT) (keyidx : ℕ) : Option (List UInt8) :=
  if keyidx < table.kval.length then table.kval[keyidx]?.map KeyvalT.key
  else
    let keyidx := keyidx - table.kval.length
    if keyidx < table.arr.length then table.arr[keyidx]?.map ArrayT.key
    else
      let keyidx := keyidx - table.arr.length
      table.tab[keyidx]?.map TableT.key

/-- `toml_raw_in`, `toml.c:1623`. -/
def rawIn (table : TableT) (key : List UInt8) : Option RawT :=
  (table.kval.find? (fun kval ↦ kval.key = key)).map KeyvalT.val

/-- `toml_array_in`, `toml.c:1632`. -/
def arrayIn (table : TableT) (key : List UInt8) : Option ArrayT :=
  table.arr.find? (fun array ↦ array.key = key)

/-- `toml_table_in`, `toml.c:1641`. -/
def tableIn (table : TableT) (key : List UInt8) : Option TableT :=
  table.tab.find? (fun other ↦ other.key = key)

/-- The keys of a table in the order of `toml_key_in`. -/
def keys (table : TableT) : List (List UInt8) :=
  table.kval.map KeyvalT.key ++ table.arr.map ArrayT.key ++ table.tab.map TableT.key

/-- The keys of a table as `toml_parse` leaves them: C strings, none of them twice. -/
structure WellKeyed (table : TableT) : Prop where
  nodup : table.keys.Nodup
  nulFree : ∀ key ∈ table.keys, 0 ∉ key

/-- The members of a table that are no tables. -/
def others (table : TableT) : ℕ := table.kval.length + table.arr.length

theorem keyIn_eq (table : TableT) (keyidx : ℕ) : table.keyIn keyidx = table.keys[keyidx]? := by
  unfold keyIn keys
  split
  · next h =>
    rw [List.getElem?_append_left (by simp; omega), List.getElem?_append_left (by simpa using h),
      List.getElem?_map]
  · next h =>
    dsimp only
    split
    · next harr =>
      rw [List.getElem?_append_left (by simp; omega),
        List.getElem?_append_right (by simpa using Nat.le_of_not_lt h), List.getElem?_map,
        List.length_map]
    · next harr =>
      rw [List.getElem?_append_right (by simp; omega), List.getElem?_map, List.length_append,
        List.length_map, List.length_map, Nat.sub_sub]

theorem mem_of_tableIn {table other : TableT} {key : List UInt8}
    (h : table.tableIn key = some other) : other ∈ table.tab ∧ other.key = key := by
  refine ⟨List.mem_of_find?_eq_some h, ?_⟩
  simpa using List.find?_some h

/-- Where keys are different, a table is found under its own key. -/
theorem tableIn_key {table : TableT} (h : table.WellKeyed) {other : TableT}
    (hm : other ∈ table.tab) : table.tableIn other.key = some other := by
  have htabs : (table.tab.map TableT.key).Nodup := (List.nodup_append.mp h.nodup).2.1
  cases hfind : table.tableIn other.key with
  | none =>
    have hnone := List.find?_eq_none.mp hfind other hm
    simp at hnone
  | some found =>
    obtain ⟨hfound, hkey⟩ := mem_of_tableIn hfind
    rw [List.inj_on_of_nodup_map htabs hfound hm hkey]

/-- The keys behind those of the values and arrays are those of the tables. -/
theorem keyIn_others_add {table : TableT} (k : ℕ) :
    table.keyIn (table.others + k) = table.tab[k]?.map TableT.key := by
  rw [keyIn_eq, keys, List.getElem?_append_right (by simp [others]), List.getElem?_map,
    List.length_append, List.length_map, List.length_map, others, Nat.add_sub_cancel_left]

/-- No table is found under the key of a value or an array. -/
theorem tableIn_of_lt {table : TableT} (h : table.WellKeyed) {keyidx : ℕ}
    (hidx : keyidx < table.others) {key : List UInt8} (hkey : table.keyIn keyidx = some key) :
    table.tableIn key = none := by
  rw [tableIn, List.find?_eq_none]
  intro other hother heq
  have hlen : keyidx < (table.kval.map KeyvalT.key ++ table.arr.map ArrayT.key).length := by
    simpa [others] using hidx
  rw [keyIn_eq, keys, List.getElem?_append_left hlen] at hkey
  have hne := (List.nodup_append.mp h.nodup).2.2 key (List.mem_of_getElem? hkey) other.key
    (List.mem_map_of_mem hother)
  exact hne (of_decide_eq_true heq).symm

/-- Tables with the same name are the same. -/
theorem eq_of_key {table : TableT} (h : table.WellKeyed) {k k' : ℕ} {t t' : TableT}
    (ht : table.tab[k]? = some t) (ht' : table.tab[k']? = some t') (hkey : t.key = t'.key) :
    k = k' := by
  have htabs : (table.tab.map TableT.key).Nodup := (List.nodup_append.mp h.nodup).2.1
  have hlt : k < (table.tab.map TableT.key).length := by
    rw [List.length_map]
    exact (List.getElem?_eq_some_iff.mp ht).1
  apply (List.getElem?_inj hlt htabs).mp
  rw [List.getElem?_map, List.getElem?_map, ht, ht', Option.map_some, Option.map_some, hkey]

end TableT
end Wsic.Toml
