import Mathlib.Algebra.Group.Nat.Defs
import Mathlib.Logic.Function.Basic
import Wsic.Lib.CMemory

/-!
# The circular list

Model of `src/datastructures/list/list.c`: a doubly linked ring of nodes in memory with
a tail pointer and a cursor, which is a node together with its index. Memory maps
addresses to nodes; `malloc` takes the next unused address and succeeds. Counters are
natural numbers, since a list that exceeds `size_t` does not fit in memory; the one
place where a small index wraps is `stepIndex`.
-/

open CMemory

namespace Wsic

/-- `list_node_t`, `list.h:6–11`; pointers to nodes are addresses. -/
structure ListNodeT (α : Type) where
  next : Nat
  previous : Nat
  value : α

/-- `list_t`, `list.h:13–18`, with the memory that holds its nodes. -/
structure ListT (α : Type) where
  heap : Nat → Option (ListNodeT α)
  brk : Nat
  current : Option Nat
  tail : Option Nat
  currentIndex : Nat
  length : Nat

namespace ListT

variable {α : Type}

/-- Read the node at an address. -/
def load (heap : Nat → Option (ListNodeT α)) (node : Nat) : Checked (ListNodeT α) :=
  deref (heap node)

/-- `node->next = next`. -/
def setNext (heap : Nat → Option (ListNodeT α)) (node next : Nat) :
    Checked (Nat → Option (ListNodeT α)) := do
  let cell ← load heap node
  return Function.update heap node (some { cell with next := next })

/-- `node->previous = previous`. -/
def setPrevious (heap : Nat → Option (ListNodeT α)) (node previous : Nat) :
    Checked (Nat → Option (ListNodeT α)) := do
  let cell ← load heap node
  return Function.update heap node (some { cell with previous := previous })

/-- `list->current`, read through the pointer. -/
def currentNode (list : ListT α) : Checked (ListNodeT α) := do
  let current ← deref list.current
  load list.heap current

/-- `list_create`, `list.c:6`. -/
def create : ListT α := ⟨fun _ ↦ none, 0, none, none, 0, 0⟩

/-- `list_addValue`, `list.c:16`. -/
def addValue (list : ListT α) (value : α) : Checked (ListT α) :=
  let node := list.brk
  if list.length = 0 then
    .ok { list with
      heap := Function.update list.heap node (some ⟨node, node, value⟩)
      brk := list.brk + 1
      current := some node
      tail := some node
      length := list.length + 1 }
  else do
    let tail ← deref list.tail
    let head := (← load list.heap tail).next
    let heap := Function.update list.heap node (some ⟨head, tail, value⟩)
    let heap ← setPrevious heap head node
    let heap ← setNext heap tail node
    return { list with
      heap := heap
      brk := list.brk + 1
      tail := some node
      length := list.length + 1 }

/-- The direction `list_moveToIndex` judges shorter, `list.c:58–67`. -/
def direction (currentIndex length index : Nat) : Int :=
  if currentIndex < index then
    let leftSteps := 1 + currentIndex + length - index
    let rightSteps := index - currentIndex
    if leftSteps < rightSteps then -1 else 1
  else if currentIndex > index then
    let leftSteps := currentIndex - index
    let rightSteps := 1 + length - currentIndex + index
    if leftSteps < rightSteps then -1 else 1
  else 0

/-- `(currentIndex + 1 * direction) % length`, `list.c:70`. The sum is a `size_t`: from
index 0 a step to the left gives `2^64 - 1` before the remainder is taken. -/
def stepIndex (direction : Int) (currentIndex length : Nat) : Nat :=
  if direction = 1 then (currentIndex + 1) % length
  else if currentIndex = 0 then (2 ^ 64 - 1) % length
  else (currentIndex - 1) % length

/-- The loop of `list_moveToIndex`, `list.c:69–72`, for a bounded number of rounds. -/
def moveLoop (direction : Int) (index : Nat) : Nat → ListT α → Checked (ListT α)
  | 0, list => if list.currentIndex = index then .ok list else .error .nonTermination
  | rounds + 1, list =>
    if list.currentIndex = index then .ok list
    else do
      let node ← list.currentNode
      moveLoop direction index rounds { list with
        currentIndex := stepIndex direction list.currentIndex list.length
        current := some (if direction = 1 then node.next else node.previous) }

/-- `list_moveToIndex`, `list.c:42`. A walk that stops does so within `length` rounds. -/
def moveToIndex (list : ListT α) (index : Nat) : Checked (ListT α) :=
  if list.currentIndex = index then .ok list
  else if index = 0 then do
    let tail ← deref list.tail
    let head := (← load list.heap tail).next
    return { list with currentIndex := 0, current := some head }
  else if index + 1 = list.length then
    .ok { list with currentIndex := index, current := list.tail }
  else
    moveLoop (direction list.currentIndex list.length index) index list.length list

/-- `list_removeValue`, `list.c:77`; a null result is `none`. -/
def removeValue (list : ListT α) (index : Nat) : Checked (Option α × ListT α) :=
  if list.length ≤ index ∨ list.length = 0 then .ok (none, list)
  else if list.length = 1 then do
    let current ← deref list.current
    let value := (← load list.heap current).value
    return (some value, { list with
      heap := Function.update list.heap current none
      current := none
      tail := none
      length := 0
      currentIndex := 0 })
  else do
    let list ← list.moveToIndex index
    let current ← deref list.current
    let node ← load list.heap current
    let heap ← setPrevious list.heap node.next node.previous
    let heap ← setNext heap node.previous node.next
    let tail := if list.currentIndex + 1 = list.length then some node.previous else list.tail
    let length := list.length - 1
    return (some node.value, { list with
      heap := Function.update heap current none
      current := some node.next
      tail := tail
      length := length
      currentIndex := if length > 0 then list.currentIndex % length else 0 })

/-- `list_getValue`, `list.c:114`. -/
def getValue (list : ListT α) (index : Nat) : Checked (Option α × ListT α) :=
  if list.length ≤ index then .ok (none, list)
  else do
    let list ← list.moveToIndex index
    let node ← list.currentNode
    return (some node.value, list)

/-- `list->current->value = value`. -/
def setCurrentValue (list : ListT α) (value : α) : Checked (ListT α) := do
  let current ← deref list.current
  let node ← load list.heap current
  return { list with heap := Function.update list.heap current (some { node with value := value }) }

/-- `list_setValue`, `list.c:125`. -/
def setValue (list : ListT α) (index : Nat) (value : α) : Checked (Option α × ListT α) :=
  if list.length ≤ index then .ok (none, list)
  else do
    let list ← list.moveToIndex index
    let node ← list.currentNode
    let list ← list.setCurrentValue value
    return (some node.value, list)

/-- The loop of `list_findIndex`, `list.c:145–150`, with `rounds` rounds left and `i` done. -/
def findIndexLoop [DecidableEq α] (value : α) (currentIndex : Nat) :
    Nat → Nat → ListT α → Checked (Option Nat × ListT α)
  | 0, _, list => .ok (none, list)
  | rounds + 1, i, list => do
    let node ← list.currentNode
    if node.value = value then return (some ((currentIndex + i) % list.length), list)
    else
      let list ← list.moveToIndex ((currentIndex + i + 1) % list.length)
      findIndexLoop value currentIndex rounds (i + 1) list

/-- `list_findIndex`, `list.c:143`; `-1` is `none`. -/
def findIndex [DecidableEq α] (list : ListT α) (value : α) : Checked (Option Nat × ListT α) :=
  findIndexLoop value list.currentIndex list.length 0 list

/-- The loop of `list_clear`, `list.c:160`, for a bounded number of rounds. -/
def clearLoop : Nat → ListT α → Checked (ListT α)
  | 0, list => if list.length = 0 then .ok list else .error .nonTermination
  | rounds + 1, list =>
    if list.length = 0 then .ok list
    else do
      let (_, list) ← list.removeValue 0
      clearLoop rounds list

/-- `list_clear`, `list.c:156`. -/
def clear (list : ListT α) : Checked (ListT α) := clearLoop list.length list

end ListT
end Wsic
