import Wsic.Lib.Transition
import Wsic.DataStructures.RingOps

/-!
# The queue

Model of `src/datastructures/queue/queue.c`: a list that is added to at its tail and read and
removed from at index 0. The cursor never leaves the head, so no call walks along the ring. Every
run of its calls is one of a first-in first-out queue.
-/

open CMemory Transition

namespace Wsic

/-- `queue_t`, `queue.h:8`. -/
abbrev QueueT (α : Type) := ListT α

namespace QueueT

variable {α : Type}

/-- `queue_create`, `queue.c:3`. -/
def create : QueueT α := ListT.create

/-- `queue_push`, `queue.c:7`. -/
def push (queue : QueueT α) (value : α) : Checked (QueueT α) := ListT.addValue queue value

/-- `queue_pop`, `queue.c:11`; a null result is `none`. -/
def pop (queue : QueueT α) : Checked (Option α × QueueT α) := ListT.removeValue queue 0

/-- `queue_peek`, `queue.c:15`. -/
def peek (queue : QueueT α) : Checked (Option α × QueueT α) := ListT.getValue queue 0

/-- `queue_clear`, `queue.c:23`. -/
def clear (queue : QueueT α) : Checked (QueueT α) := ListT.clear queue

/-- One call. -/
inductive Op (α : Type) where
  | push (value : α)
  | pop
  | peek
  | clear

/-- What a call returns. -/
inductive Result (α : Type) where
  | done
  | value (value : Option α)

/-- One call on a queue. -/
def step (queue : QueueT α) : Op α → Checked (Result α × QueueT α)
  | .push v => return (.done, ← queue.push v)
  | .pop => return (← queue.pop).map .value id
  | .peek => return (← queue.peek).map .value id
  | .clear => return (.done, ← queue.clear)

/-! ### The ring with its cursor at the head -/

/-- The nodes of the queue form one ring that holds the values, with the cursor on the oldest one;
there are no nodes when there are no values. -/
structure Holds (queue : QueueT α) (vs : List α) : Prop where
  ring : ∃ addr, ListT.Ring queue addr vs
  currentIndex_eq : queue.currentIndex = 0

theorem holds_create : Holds (create : QueueT α) [] := ⟨ListT.holds_create, rfl⟩

namespace Holds

variable {queue : QueueT α} {vs : List α}

theorem push (h : Holds queue vs) (v : α) :
    ∃ queue', queue.push v = .ok queue' ∧ Holds queue' (vs ++ [v]) := by
  obtain ⟨queue', hadd, hring, hindex⟩ := ListT.Holds.addValue h.ring v
  exact ⟨queue', hadd, hring, hindex.trans h.currentIndex_eq⟩

theorem pop (h : Holds queue vs) :
    ∃ queue', queue.pop = .ok (vs.head?, queue') ∧ Holds queue' vs.tail := by
  obtain ⟨addr, hring⟩ := h.ring
  cases vs with
  | nil =>
    refine ⟨queue, ?_, h⟩
    rw [QueueT.pop, ListT.removeValue, if_pos (.inr hring.length_eq)]
    rfl
  | cons v vs =>
    obtain ⟨queue', hremove, hring', hindex⟩ :=
      hring.removeValue (Nat.zero_lt_succ _) (ListT.moveSafe_zero _ _)
    exact ⟨queue', hremove, ⟨_, hring'⟩, hindex.trans (Nat.zero_mod _)⟩

theorem peek (h : Holds queue vs) :
    ∃ queue', queue.peek = .ok (vs.head?, queue') ∧ Holds queue' vs := by
  have hring : ListT.Holds queue vs := h.ring
  cases vs with
  | nil =>
    have hlength : queue.length = 0 := hring.length_eq
    refine ⟨queue, ?_, h⟩
    rw [QueueT.peek, ListT.getValue, if_pos hlength.le]
    rfl
  | cons v vs =>
    obtain ⟨queue', hget, hholds, hindex⟩ := hring.getValue 0 (fun _ ↦ ListT.moveSafe_zero _ _)
    exact ⟨queue', hget, hholds, hindex (Nat.zero_lt_succ _)⟩

theorem clear (h : Holds queue vs) : ∃ queue', queue.clear = .ok queue' ∧ Holds queue' [] := by
  obtain ⟨queue', hclear, addr, hring⟩ := ListT.Holds.clear h.ring
  rcases hring.cursor with hlt | ⟨-, hindex⟩
  · exact absurd hlt (Nat.not_lt_zero _)
  · exact ⟨queue', hclear, ⟨addr, hring⟩, hindex⟩

end Holds

/-! ### First in, first out -/

variable [DecidableEq α]

/-- The values in order of age, after a call that may return this result on them. -/
def onSequence (vs : List α) : Op α × Result α → Option (List α)
  | (.push v, .done) => some (vs ++ [v])
  | (.pop, .value r) => if r = vs.head? then some vs.tail else none
  | (.peek, .value r) => if r = vs.head? then some vs else none
  | (.clear, .done) => some []
  | _ => none

/-- What was pushed since the queue was last cleared, one call later. -/
def pushedNext (vs : List α) : Op α × Result α → List α
  | (.push v, _) => vs ++ [v]
  | (.clear, _) => []
  | _ => vs

/-- What was popped since the queue was last cleared, one call later. -/
def poppedNext (vs : List α) : Op α × Result α → List α
  | (.pop, .value (some v)) => vs ++ [v]
  | (.clear, _) => []
  | _ => vs

/-- After every call of the run, the results so far are those of a first-in first-out queue, what
was pushed since the last clear is what was popped and behind it what is left, and the nodes are a
ring of what is left with the cursor at its head. -/
def FirstInFirstOut (calls : List (Op α)) : Prop :=
  ∀ done, done <+: calls → ∃ s, exec (observe step) ([], create) done = .ok s ∧
    s.1.map Prod.fst = done ∧ ∃ vs, s.1.foldlM onSequence [] = some vs ∧
      s.1.foldl pushedNext [] = s.1.foldl poppedNext [] ++ vs ∧ Holds s.2 vs

/-- A call that is possible on the values keeps the account of them. -/
private theorem account_step {pushed popped vs vs' : List α} {entry : Op α × Result α}
    (h : pushed = popped ++ vs) (hstep : onSequence vs entry = some vs') :
    pushedNext pushed entry = poppedNext popped entry ++ vs' := by
  subst h
  obtain ⟨op, result⟩ := entry
  cases op with
  | push v =>
    cases result with
    | done =>
      cases hstep
      exact List.append_assoc popped vs [v]
    | value r => cases hstep
  | pop =>
    cases result with
    | done => cases hstep
    | value r =>
      rw [onSequence] at hstep
      obtain ⟨rfl, htail⟩ := Option.ite_none_right_eq_some.mp hstep
      cases htail
      cases vs with
      | nil => rfl
      | cons v vs => exact List.append_cons popped v vs
  | peek =>
    cases result with
    | done => cases hstep
    | value r =>
      rw [onSequence] at hstep
      obtain ⟨-, hsame⟩ := Option.ite_none_right_eq_some.mp hstep
      cases hsame
      rfl
  | clear =>
    cases result with
    | done =>
      cases hstep
      rfl
    | value r => cases hstep

/-- What was pushed is what was popped and behind it what is left. -/
theorem account {log : List (Op α × Result α)} {vs : List α}
    (h : log.foldlM onSequence [] = some vs) :
    log.foldl pushedNext [] = log.foldl poppedNext [] ++ vs := by
  induction log using List.reverseRecOn generalizing vs with
  | nil =>
    cases h
    rfl
  | append_singleton log entry ih =>
    rw [List.foldlM_append] at h
    obtain ⟨before, hbefore, hentry⟩ := Option.bind_eq_some_iff.mp h
    rw [List.foldl_append, List.foldl_append]
    exact account_step (ih hbefore) (by simpa using hentry)

/-- One call returns what it returns on the values. -/
theorem step_onSequence {queue : QueueT α} {vs : List α} (h : Holds queue vs) (op : Op α) :
    ∃ r queue' vs', step queue op = .ok (r, queue') ∧ onSequence vs (op, r) = some vs' ∧
      Holds queue' vs' := by
  cases op with
  | push v =>
    obtain ⟨queue', he, hh⟩ := h.push v
    exact ⟨.done, queue', _, by rw [step, he]; rfl, rfl, hh⟩
  | pop =>
    obtain ⟨queue', he, hh⟩ := h.pop
    exact ⟨.value vs.head?, queue', _, by rw [step, he]; rfl, if_pos rfl, hh⟩
  | peek =>
    obtain ⟨queue', he, hh⟩ := h.peek
    exact ⟨.value vs.head?, queue', _, by rw [step, he]; rfl, if_pos rfl, hh⟩
  | clear =>
    obtain ⟨queue', he, hh⟩ := h.clear
    exact ⟨.done, queue', _, by rw [step, he]; rfl, rfl, hh⟩

/-- Every run of a new queue is first in, first out. -/
theorem runs_firstInFirstOut (calls : List (Op α)) : FirstInFirstOut calls := by
  intro done _
  have hstep (queue : QueueT α) (vs : List α) (op : Op α) (hh : Holds queue vs) (_ : True) :=
    step_onSequence hh op
  have hguard : Guarded (observe step) (fun _ _ ↦ True) ([], create) done :=
    fun _ _ _ _ _ ↦ trivial
  obtain ⟨s, he, vs, hspec, hholds⟩ := simulation holds_create hstep hguard
  exact ⟨s, he, observe_labels he, vs, hspec, account hspec, hholds⟩

end QueueT
end Wsic
