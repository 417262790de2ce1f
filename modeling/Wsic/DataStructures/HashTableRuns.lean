import Wsic.DataStructures.HashTableMap

/-!
# Calls on a hash table

The calls of `src/datastructures/hash-table/hash-table.c`, and the two loops in which its
callers go through a table, as steps of a table, compared with the same calls on an
insertion-ordered map keyed by the hash. The keys have a hash: how the calls compute it, and
runs of calls, are in `Wsic.DataStructures.HashTableCounted`.
-/

open CMemory

namespace Wsic.HashTableT

variable {β : Type}

/-- One call, or one full loop of a caller. -/
inductive Op (β : Type) where
  | setValue (key : Key) (value : β)
  | getValue (key : Key)
  | removeValue (key : Key)
  | clear
  | iterate
  | drain

/-- What a call returns, or what a loop visits; null is `none`. -/
inductive Result (β : Type) where
  | done
  | value (value : Option β)
  | visited (entries : List (Option StringT × Option β))
deriving DecidableEq

/-- One call on a table. -/
def step (table : HashTableT β) : Op β → Checked (Result β × HashTableT β)
  | .setValue key value => return (← table.setValue key.1 value).map .value id
  | .getValue key => return (← table.getValue key.1).map .value id
  | .removeValue key => return (← table.removeValue key.1).map .value id
  | .clear => return (.done, ← table.clear)
  | .iterate => return (← table.iterate).map .visited id
  | .drain => return (← table.drain).map (fun es ↦ .visited (es.map (·.map some id))) id

/-- All keys and values of a map, in order. -/
def Map.visit (m : Map β) : List (Option StringT × Option β) :=
  m.entries.map (fun e ↦ (some e.key, some e.value))

/-- What a call returns on a map, and the map after it. -/
def onMap (m : Map β) : Op β → Result β × Map β
  | .setValue key value =>
    (.value ((m.get key.hash).map (·.value)), m.set (entryOf key value))
  | .getValue key => (.value ((m.get key.hash).map (·.value)), m)
  | .removeValue key => (.value ((m.get key.hash).map (·.value)), m.remove key.hash)
  | .clear => (.done, KeyedList.empty)
  | .iterate => (.visited (Map.visit m), m)
  | .drain => (.visited (Map.visit m), KeyedList.empty)

/-- One call returns what it returns on the map. -/
theorem step_onMap {table : HashTableT β} {m : Map β} (h : Represents table m) (op : Op β) :
    ∃ table', step table op = .ok ((onMap m op).1, table') ∧
      Represents table' (onMap m op).2 := by
  cases op with
  | setValue key value =>
    obtain ⟨table', he, hr⟩ := h.setValue key value
    exact ⟨table', by rw [step, he]; rfl, hr⟩
  | getValue key =>
    obtain ⟨table', he, hr⟩ := h.getValue key
    exact ⟨table', by rw [step, he]; rfl, hr⟩
  | removeValue key =>
    obtain ⟨table', he, hr⟩ := h.removeValue key
    exact ⟨table', by rw [step, he]; rfl, hr⟩
  | clear =>
    obtain ⟨table', he, hr⟩ := h.clear
    exact ⟨table', by rw [step, he]; rfl, hr⟩
  | iterate =>
    obtain ⟨table', he, hr⟩ := h.iterate
    exact ⟨table', by rw [step, he]; rfl, hr⟩
  | drain =>
    obtain ⟨table', he, hr⟩ := h.drain
    refine ⟨table', ?_, hr⟩
    rw [step, he, onMap, Map.visit]
    change Except.ok _ = _
    simp only [Prod.map, List.map_map, id]
    rfl

end Wsic.HashTableT
