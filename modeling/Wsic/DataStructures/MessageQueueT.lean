import Mathlib.Data.Finset.Basic
import Mathlib.Data.List.ReduceOption
import Wsic.DataStructures.ListT

/-!
# The message queue

Model of `src/datastructures/message-queue/message-queue.c`: a list behind a mutex with a
condition on which consumers wait. The parts that run under the mutex are atomic steps of
a system of threads. A consumer in `pthread_cond_wait` is blocked until a signal, a
broadcast or a spurious wake-up; a woken one still has to get the mutex back before it
resumes the loop. The system keeps a log of what happened under the mutex.
-/

open CMemory

namespace Wsic

/-- `message_queue_t`, `message-queue.h:9–16`; a value is a pointer, `none` when null. -/
structure MessageQueueT (V : Type) where
  list : ListT (Option V)
  unlocked : Bool

namespace MessageQueueT

variable {V : Type}

/-- What one round of the loop of `message_queue_pop` found: the flag is set, or this is
what `list_removeValue` took from the list. -/
inductive Round (V : Type) where
  | unlocked
  | removed (taken : Option (Option V))
deriving DecidableEq

/-- What the round took from the list. -/
def Round.taken : Round V → Option (Option V)
  | .unlocked => none
  | .removed taken => taken

/-- The variable `value` after the round; an empty list and a stored null look the same. -/
def Round.value (round : Round V) : Option V := round.taken.join

/-- The round ends in `pthread_cond_wait`, `message-queue.c:65–66`. -/
def Round.waits : Round V → Bool
  | .unlocked => false
  | .removed taken => taken.join.isNone

/-- `message_queue_create`, `message-queue.c:8`. -/
def create : MessageQueueT V := ⟨ListT.create, false⟩

/-- `message_queue_push`, `message-queue.c:43`, without the signal. -/
def push (queue : MessageQueueT V) (value : Option V) : Checked (MessageQueueT V) := do
  let list ← queue.list.addValue value
  return { queue with list := list }

/-- One round of the loop of `message_queue_pop`, `message-queue.c:60–68`. -/
def popRound (queue : MessageQueueT V) : Checked (Round V × MessageQueueT V) :=
  if queue.unlocked then .ok (.unlocked, queue)
  else do
    let (value, list) ← queue.list.removeValue 0
    return (.removed value, { queue with list := list })

/-- `message_queue_pop`, `message-queue.c:51`, up to its return or its first wait. -/
def pop (queue : MessageQueueT V) : Checked (Round V × MessageQueueT V) :=
  if queue.unlocked then .ok (.unlocked, queue) else queue.popRound

/-- `message_queue_unlock`, `message-queue.c:75`, without the broadcast. -/
def unlock (queue : MessageQueueT V) : MessageQueueT V := { queue with unlocked := true }

/-! ### Threads -/

/-- What happened under the mutex. -/
inductive Event (T V : Type) where
  | pushed (value : Option V)
  | round (thread : T) (round : Round V)
  | unlocked

/-- The queue with the consumers that are blocked on the condition, those that have been
woken and have not resumed yet, and the log. -/
structure System (T V : Type) where
  queue : MessageQueueT V
  waiting : Finset T
  woken : Finset T
  log : List (Event T V)

/-- One atomic step of a thread. A push names the waiting threads that its signal wakes. -/
inductive Label (T V : Type) where
  | push (thread : T) (value : Option V) (signalled : Finset T)
  | pop (thread : T)
  | spurious (thread : T)
  | resume (thread : T)
  | unlock (thread : T)

variable {T : Type} [DecidableEq T]

namespace System

/-- A new queue that no thread waits for. -/
def create : System T V := ⟨MessageQueueT.create, ∅, ∅, []⟩

/-- The thread is not inside `message_queue_pop`. -/
def Free (s : System T V) (thread : T) : Prop := thread ∉ s.waiting ∧ thread ∉ s.woken

instance (s : System T V) (thread : T) : Decidable (s.Free thread) :=
  inferInstanceAs (Decidable (thread ∉ s.waiting ∧ thread ∉ s.woken))

/-- The step can be taken: calls are made by free threads, a signal wakes at least one
waiting thread if there is one, only a waiting thread wakes up spuriously and only a
woken one resumes. -/
def Enabled (s : System T V) : Label T V → Prop
  | .push t _ signalled =>
    s.Free t ∧ signalled ⊆ s.waiting ∧ (s.waiting.Nonempty → signalled.Nonempty)
  | .pop t => s.Free t
  | .spurious t => t ∈ s.waiting
  | .resume t => t ∈ s.woken
  | .unlock t => s.Free t

instance (s : System T V) (l : Label T V) : Decidable (s.Enabled l) :=
  match l with
  | .push t _ signalled => inferInstanceAs (Decidable
      (s.Free t ∧ signalled ⊆ s.waiting ∧ (s.waiting.Nonempty → signalled.Nonempty)))
  | .pop t => inferInstanceAs (Decidable (s.Free t))
  | .spurious t => inferInstanceAs (Decidable (t ∈ s.waiting))
  | .resume t => inferInstanceAs (Decidable (t ∈ s.woken))
  | .unlock t => inferInstanceAs (Decidable (s.Free t))

/-- The system after a thread has run one round of its pop. -/
def afterRound (s : System T V) (thread : T) (result : Round V × MessageQueueT V) : System T V :=
  { queue := result.2
    waiting := if result.1.waits then insert thread s.waiting else s.waiting
    woken := s.woken.erase thread
    log := s.log ++ [.round thread result.1] }

/-- One step. -/
def step (s : System T V) : Label T V → Checked (System T V)
  | .push _ value signalled => do
    let queue ← s.queue.push value
    return { queue := queue
             waiting := s.waiting \ signalled
             woken := s.woken ∪ signalled
             log := s.log ++ [.pushed value] }
  | .pop t => return s.afterRound t (← s.queue.pop)
  | .spurious t => .ok { s with waiting := s.waiting.erase t, woken := insert t s.woken }
  | .resume t => return s.afterRound t (← s.queue.popRound)
  | .unlock _ => .ok
      { queue := s.queue.unlock
        waiting := ∅
        woken := s.woken ∪ s.waiting
        log := s.log ++ [.unlocked] }

end System

/-! ### What the log tells -/

/-- The non-null values pushed, in order. -/
def pushedValues (log : List (Event T V)) : List V :=
  log.filterMap (fun | .pushed value => value | _ => none)

/-- The non-null values that pops took from the list, in order. -/
def removedValues (log : List (Event T V)) : List V :=
  log.filterMap (fun | .round _ round => round.taken.join | _ => none)

/-- The pops that returned, with what they returned, in order. -/
def returns (log : List (Event T V)) : List (T × Option V) :=
  log.filterMap (fun
    | .round t round => if round.waits then none else some (t, round.value)
    | _ => none)

end MessageQueueT
end Wsic
