import Wsic.Lib.CMemory

/-!
# Computations with effects

General support: what a computation does to the outside before it returns or leaves defined
behaviour. The events up to a fault have happened, so they are kept.
-/

open CMemory

namespace Effects

variable {E α : Type}

/-- The events of a computation in order, and the fault that ended it. -/
structure Outcome (E : Type) where
  events : List E
  fault : Option Fault

namespace Outcome

/-- Nothing more happens. -/
def done : Outcome E := ⟨[], none⟩

/-- An event, and what comes behind it. -/
def emit (event : E) (next : Outcome E) : Outcome E := { next with events := event :: next.events }

/-- Go on with the result of a step without events, unless it faults. -/
def attempt (x : Checked α) (next : α → Outcome E) : Outcome E :=
  match x with
  | .ok a => next a
  | .error fault => ⟨[], some fault⟩

/-- Go on unless there was a fault. -/
def andThen (first next : Outcome E) : Outcome E :=
  match first.fault with
  | none => ⟨first.events ++ next.events, next.fault⟩
  | some _ => first

@[simp] theorem events_done : (done : Outcome E).events = [] := rfl

@[simp] theorem events_emit (event : E) (next : Outcome E) :
    (emit event next).events = event :: next.events := rfl

@[simp] theorem attempt_ok (a : α) (next : α → Outcome E) : attempt (.ok a) next = next a := rfl

@[simp] theorem attempt_error (fault : Fault) (next : α → Outcome E) :
    attempt (.error fault) next = ⟨[], some fault⟩ := rfl

/-- Freeing memory at the end: whether it faults or not, nothing more is seen. -/
theorem events_andThen_of_nil (first : Outcome E) {next : Outcome E} (h : next.events = []) :
    (first.andThen next).events = first.events := by
  unfold andThen
  split
  · rw [h, List.append_nil]
  · rfl

theorem events_attempt_of_nil {x : Checked α} {next : α → Outcome E}
    (h : ∀ a, (next a).events = []) : (attempt x next).events = [] := by
  cases x with
  | ok a => exact h a
  | error fault => rfl

/-! ### Events of another kind -/

section Recording

variable {R : Type}

/-- The same outcome with its events seen as events of another kind. -/
def map (f : E → R) (outcome : Outcome E) : Outcome R := ⟨outcome.events.map f, outcome.fault⟩

/-- The outcome with only some of its events. -/
def filterMap (f : E → Option R) (outcome : Outcome E) : Outcome R :=
  ⟨outcome.events.filterMap f, outcome.fault⟩

@[simp] theorem events_map (f : E → R) (outcome : Outcome E) :
    (outcome.map f).events = outcome.events.map f := rfl

theorem filterMap_map {f : E → R} {g : R → Option E} (h : ∀ event, g (f event) = some event)
    (outcome : Outcome E) : (outcome.map f).filterMap g = outcome := by
  obtain ⟨events, fault⟩ := outcome
  simp only [map, filterMap, List.filterMap_map, Function.comp_def, h, List.filterMap_some]

theorem filterMap_emit_of_none {f : E → Option R} {event : E} (h : f event = none)
    (next : Outcome E) : (emit event next).filterMap f = next.filterMap f := by
  rw [filterMap, events_emit, List.filterMap_cons_none h]
  rfl

theorem filterMap_attempt (f : E → Option R) (x : Checked α) (next : α → Outcome E) :
    (attempt x next).filterMap f = attempt x (fun a ↦ (next a).filterMap f) := by
  cases x <;> rfl

theorem filterMap_andThen (f : E → Option R) (first next : Outcome E) :
    (first.andThen next).filterMap f = (first.filterMap f).andThen (next.filterMap f) := by
  obtain ⟨events, fault⟩ := first
  cases fault with
  | none => simp only [andThen, filterMap, List.filterMap_append]
  | some fault => rfl

end Recording

/-! ### What holds of all events -/

/-- All events that happen meet the condition. -/
def All (P : E → Prop) (outcome : Outcome E) : Prop := ∀ event ∈ outcome.events, P event

section All

variable {P : E → Prop}

theorem all_of_nil {outcome : Outcome E} (h : outcome.events = []) : All P outcome := by
  intro event he
  rw [h] at he
  cases he

theorem all_done : All P (done : Outcome E) := all_of_nil rfl

theorem all_emit {event : E} {next : Outcome E} (h : P event) (hnext : All P next) :
    All P (emit event next) := by
  intro other hother
  rcases List.mem_cons.mp hother with rfl | hother
  · exact h
  · exact hnext other hother

/-- Behind a step: the step has succeeded. -/
theorem all_attempt {x : Checked α} {next : α → Outcome E} (h : ∀ a, x = .ok a → All P (next a)) :
    All P (attempt x next) := by
  cases x with
  | ok a => exact h a rfl
  | error fault => exact all_of_nil rfl

theorem all_andThen {first next : Outcome E} (h : All P first) (hnext : All P next) :
    All P (first.andThen next) := by
  unfold andThen
  split
  · intro event he
    exact (List.mem_append.mp he).elim (h event) (hnext event)
  · exact h

end All

/-! ### Events that happen once -/

section AtMostOnce

variable {kind : E → Bool}

end AtMostOnce

end Outcome

end Effects
