import Mathlib.Data.Int.Notation
import Mathlib.Logic.Function.Basic

/-!
# Tables of processes

General support for programs that fork, wait for and kill processes: the table of the kernel by
process number, with any kind of owners, and the processes that a signal is sent to. The caller
of `kill` may signal every process.
-/

namespace ProcessTable

/-- A process: who cares for it, its process group, and whether it has exited and is still to be
waited for. -/
structure Process (O : Type) where
  owner : O
  group : ℤ
  zombie : Bool

/-- The processes by their numbers. -/
abbrev Table (O : Type) := ℤ → Option (Process O)

variable {O : Type}

/-- The process `self` of the group `group` sends a signal to `target`, and this process gets it,
`kill(2)`. -/
def Signals (self group target pid : ℤ) (process : Process O) : Prop :=
  if 0 < target then pid = target
  else if target = 0 then process.group = group
  else if target = -1 then pid ≠ self ∧ pid ≠ 1
  else process.group = -target

instance (self group target pid : ℤ) (process : Process O) :
    Decidable (Signals self group target pid process) := by
  unfold Signals
  infer_instance

theorem signals_of_pos {target : ℤ} (h : 0 < target) (self group pid : ℤ) (process : Process O) :
    Signals self group target pid process ↔ pid = target := by
  rw [Signals, if_pos h]

namespace Table

/-- A process appears under a number that is free. -/
def add (t : Table O) (pid : ℤ) (process : Process O) : Table O :=
  Function.update t pid (some process)

/-- A process goes. -/
def remove (t : Table O) (pid : ℤ) : Table O := Function.update t pid none

/-- The processes that are chosen change. -/
def alter (t : Table O) (chosen : ℤ → Process O → Prop)
    [∀ pid process, Decidable (chosen pid process)] (change : Process O → Process O) : Table O :=
  fun pid ↦ (t pid).map fun process ↦ if chosen pid process then change process else process

/-- `SIGKILL` is sent to `target`. -/
def kill (t : Table O) (self group target : ℤ) : Table O :=
  t.alter (Signals self group target) ({ · with zombie := true })

theorem add_eq_some {t : Table O} {pid m : ℤ} {added process : Process O}
    (h : t.add pid added m = some process) : m = pid ∧ process = added ∨ t m = some process := by
  by_cases hm : m = pid
  · subst hm
    rw [add, Function.update_self] at h
    exact .inl ⟨rfl, (Option.some.inj h).symm⟩
  · rw [add, Function.update_of_ne hm] at h
    exact .inr h

theorem remove_eq_some {t : Table O} {pid m : ℤ} {process : Process O} :
    t.remove pid m = some process ↔ m ≠ pid ∧ t m = some process := by
  by_cases hm : m = pid
  · subst hm
    rw [remove, Function.update_self]
    exact iff_of_false (Option.some_ne_none _).symm (fun h ↦ h.1 rfl)
  · rw [remove, Function.update_of_ne hm]
    exact (and_iff_right hm).symm

theorem alter_eq_some {t : Table O} {chosen : ℤ → Process O → Prop}
    [∀ pid process, Decidable (chosen pid process)] {change : Process O → Process O} {m : ℤ}
    {process : Process O} : t.alter chosen change m = some process ↔
      ∃ before, t m = some before ∧
        process = if chosen m before then change before else before := by
  rw [alter, Option.map_eq_some_iff]
  exact exists_congr (fun before ↦ and_congr_right (fun _ ↦ eq_comm))

/-- Every process of `t'` was one of `t`, for the same owner and in the same group, and if it had
exited, it still has: what exits, signals and departures do. -/
def Fades (t t' : Table O) : Prop :=
  ∀ pid process', t' pid = some process' → ∃ process, t pid = some process ∧
    process'.owner = process.owner ∧ process'.group = process.group ∧
    (process.zombie = true → process'.zombie = true)

theorem Fades.refl (t : Table O) : Fades t t := fun _ process h ↦ ⟨process, h, rfl, rfl, id⟩

theorem fades_remove (t : Table O) (pid : ℤ) : Fades t (t.remove pid) :=
  fun _ process h ↦ ⟨process, (remove_eq_some.mp h).2, rfl, rfl, id⟩

/-- Chosen processes exit. -/
theorem fades_alter (t : Table O) (chosen : ℤ → Process O → Prop)
    [∀ pid process, Decidable (chosen pid process)] :
    Fades t (t.alter chosen ({ · with zombie := true })) := by
  intro pid process' h
  obtain ⟨process, hp, rfl⟩ := alter_eq_some.mp h
  refine ⟨process, hp, ?_⟩
  split
  · exact ⟨rfl, rfl, fun _ ↦ rfl⟩
  · exact ⟨rfl, rfl, id⟩

end Table

/-- A signal to `target` does nothing to a process that runs, unless it has such an owner. -/
def Spared (t : Table O) (self group target : ℤ) (own : O → Prop) : Prop :=
  ∀ pid process, t pid = some process → Signals self group target pid process →
    process.zombie = true ∨ own process.owner

/-- Fewer processes, fewer victims. -/
theorem Spared.fades {t t' : Table O} {self group target : ℤ} {own : O → Prop}
    (h : Spared t self group target own) (hfades : t.Fades t') :
    Spared t' self group target own := by
  intro pid process' hp' hsignals
  obtain ⟨process, hp, howner, hgroup, hzombie⟩ := hfades pid process' hp'
  rw [howner]
  apply (h pid process hp ?_).imp_left hzombie
  rwa [Signals, hgroup] at hsignals

/-- A new process is spared exactly when it is not signalled. -/
theorem spared_add {t : Table O} {self group target pid : ℤ} {own : O → Prop}
    {process : Process O} (hfree : t pid = none) (hzombie : process.zombie = false)
    (hown : ¬ own process.owner) :
    Spared (t.add pid process) self group target own ↔
      Spared t self group target own ∧ ¬ Signals self group target pid process := by
  have hself : t.add pid process pid = some process := Function.update_self ..
  constructor
  · intro h
    refine ⟨fun m other hm hsignals ↦ ?_, fun hsignals ↦ ?_⟩
    · refine h m other ?_ hsignals
      have hne : m ≠ pid := by
        rintro rfl
        rw [hfree] at hm
        cases hm
      rwa [Table.add, Function.update_of_ne hne]
    · rcases h pid process hself hsignals with hz | ho
      · rw [hzombie] at hz
        cases hz
      · exact hown ho
  · rintro ⟨h, hnot⟩ m other hm hsignals
    rcases Table.add_eq_some hm with ⟨rfl, rfl⟩ | hm
    · exact absurd hsignals hnot
    · exact h m other hm hsignals

end ProcessTable
