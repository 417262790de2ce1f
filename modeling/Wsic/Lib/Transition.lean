import Mathlib.Data.List.Basic
import Mathlib.Data.List.Infix

/-!
# Runs of labelled transition systems

General support: a system is a step function that can fail, and `exec` folds it over a
list of labels. `Guarded` says that every step of a run meets a condition on the state
before it, `Throughout` that every state of a run has a property; the rules below trade
one for the other.
-/

namespace Transition

variable {σ ℓ ε : Type}

/-! ### Step functions -/

/-- The state after a list of labels, or the failure that ended the run. -/
def exec (step : σ → ℓ → Except ε σ) (s₀ : σ) (ls : List ℓ) : Except ε σ := ls.foldlM step s₀

theorem exec_concat (step : σ → ℓ → Except ε σ) (s₀ : σ) (ls : List ℓ) (l : ℓ) :
    exec step s₀ (ls ++ [l]) = exec step s₀ ls >>= (fun s ↦ step s l) := by
  simp [exec, List.foldlM_append]

/-- What a run does in two parts. -/
theorem exec_append (step : σ → ℓ → Except ε σ) (s₀ : σ) (ls ms : List ℓ) :
    exec step s₀ (ls ++ ms) = exec step s₀ ls >>= (fun s ↦ exec step s ms) :=
  List.foldlM_append

/-- A relation of the labels and the state that holds at the start and is kept by every step
holds at the end of every run. -/
theorem exec_induction {step : σ → ℓ → Except ε σ} {R : List ℓ → σ → Prop} {s₀ s : σ}
    {ls : List ℓ} (h : exec step s₀ ls = .ok s) (h₀ : R [] s₀)
    (hstep : ∀ ls s l s', R ls s → step s l = .ok s' → R (ls ++ [l]) s') : R ls s := by
  induction ls using List.reverseRecOn generalizing s with
  | nil =>
    cases h
    exact h₀
  | append_singleton ls l ih =>
    rw [exec_concat] at h
    cases he : exec step s₀ ls with
    | error e =>
      rw [he] at h
      cases h
    | ok t =>
      rw [he] at h
      exact hstep ls t l s (ih he) h

/-- No step of the chosen labels can be made. -/
def Stopped (step : σ → ℓ → Except ε σ) (chosen : ℓ → Prop) (s : σ) : Prop :=
  ∀ l s', chosen l → step s l ≠ .ok s'

/-- When every step makes a measure smaller, the chosen steps come to an end. -/
theorem exists_stopped {step : σ → ℓ → Except ε σ} (left : σ → ℕ)
    (hleft : ∀ s l s', step s l = .ok s' → left s' < left s) (chosen : ℓ → Prop) (s : σ) :
    ∃ ls s', (∀ l ∈ ls, chosen l) ∧ exec step s ls = .ok s' ∧ Stopped step chosen s' := by
  induction hn : left s using Nat.strong_induction_on generalizing s with
  | _ n ih =>
    by_cases hstop : Stopped step chosen s
    · exact ⟨[], s, nofun, rfl, hstop⟩
    · simp only [Stopped, ne_eq, not_forall, not_not] at hstop
      obtain ⟨l, t, hl, hs⟩ := hstop
      obtain ⟨ls, s', hls, he, hstop'⟩ := ih (left t) (hn ▸ hleft s l t hs) t rfl
      refine ⟨l :: ls, s', List.forall_mem_cons.mpr ⟨hl, hls⟩, ?_, hstop'⟩
      rw [exec, List.foldlM_cons, hs]
      exact he

/-- Every step of the run meets `guard` in the state before it. -/
def Guarded (step : σ → ℓ → Except ε σ) (guard : σ → ℓ → Prop) (s₀ : σ) (ls : List ℓ) : Prop :=
  ∀ done l s, done ++ [l] <+: ls → exec step s₀ done = .ok s → guard s l

/-- Every state of the run has property `P`. -/
def Throughout (step : σ → ℓ → Except ε σ) (P : σ → Prop) (s₀ : σ) (ls : List ℓ) : Prop :=
  ∀ done s, done <+: ls → exec step s₀ done = .ok s → P s

/-- A beginning of a guarded run is guarded. -/
theorem Guarded.of_prefix {step : σ → ℓ → Except ε σ} {guard : σ → ℓ → Prop} {s₀ : σ}
    {ls ms : List ℓ} (h : Guarded step guard s₀ ms) (hp : ls <+: ms) :
    Guarded step guard s₀ ls :=
  fun done l s hd he ↦ h done l s (hd.trans hp) he

/-- A run is guarded when its first step is and the run from the state after it is. -/
theorem guarded_cons {step : σ → ℓ → Except ε σ} {guard : σ → ℓ → Prop} {s₀ : σ} {l : ℓ}
    {ls : List ℓ} : Guarded step guard s₀ (l :: ls) ↔
      guard s₀ l ∧ ∀ s, step s₀ l = .ok s → Guarded step guard s ls := by
  constructor
  · intro h
    refine ⟨h [] l s₀ (List.prefix_append [l] ls) rfl, ?_⟩
    intro s hs done m t hd ht
    apply h (l :: done) m t (List.prefix_cons_inj l |>.mpr hd)
    rw [exec, List.foldlM_cons, hs]
    exact ht
  · rintro ⟨h, hls⟩ done m t hd ht
    cases done with
    | nil =>
      cases ht
      obtain ⟨rfl, -⟩ := List.cons_prefix_cons.mp hd
      exact h
    | cons a done =>
      obtain ⟨rfl, hdone⟩ := List.cons_prefix_cons.mp hd
      rw [exec, List.foldlM_cons] at ht
      cases hs : step s₀ a with
      | error e =>
        rw [hs] at ht
        cases ht
      | ok s =>
        rw [hs] at ht
        exact hls s hs done m t hdone ht

/-- The same for a first step that is known. -/
theorem guarded_cons_ok {step : σ → ℓ → Except ε σ} {guard : σ → ℓ → Prop} {s₀ s : σ} {l : ℓ}
    {ls : List ℓ} (h : step s₀ l = .ok s) :
    Guarded step guard s₀ (l :: ls) ↔ guard s₀ l ∧ Guarded step guard s ls := by
  rw [guarded_cons]
  refine and_congr_right (fun _ ↦ ⟨fun hls ↦ hls s h, fun hls t ht ↦ ?_⟩)
  rw [h] at ht
  cases ht
  exact hls

/-- No step, no condition. -/
theorem guarded_nil {step : σ → ℓ → Except ε σ} {guard : σ → ℓ → Prop} {s₀ : σ} :
    Guarded step guard s₀ [] := by
  intro done l s hd
  exact absurd (List.prefix_nil.mp hd) (List.append_ne_nil_of_right_ne_nil _ (List.cons_ne_nil _ _))

/-- Steps that keep an invariant under their guard keep it throughout a guarded run, and
a guarded run whose guarded steps do not fail reaches its end. -/
theorem exec_of_guarded {step : σ → ℓ → Except ε σ} {guard : σ → ℓ → Prop} {P : σ → Prop}
    {s₀ : σ} (h₀ : P s₀)
    (hstep : ∀ s l, P s → guard s l → ∃ s', step s l = .ok s' ∧ P s')
    {ls : List ℓ} (hg : Guarded step guard s₀ ls) : ∃ s, exec step s₀ ls = .ok s ∧ P s := by
  induction ls using List.reverseRecOn with
  | nil => exact ⟨s₀, rfl, h₀⟩
  | append_singleton ls l ih =>
    obtain ⟨s, he, hi⟩ := ih (hg.of_prefix (List.prefix_append _ _))
    obtain ⟨s', hs, hi'⟩ := hstep s l hi (hg ls l s (List.prefix_refl _) he)
    refine ⟨s', ?_, hi'⟩
    rw [exec_concat, he]
    exact hs

/-- Steps that never fail from an invariant and keep it: every run reaches its end. -/
theorem exec_of_invariant {step : σ → ℓ → Except ε σ} {P : σ → Prop} {s₀ : σ} (h₀ : P s₀)
    (hstep : ∀ s l, P s → ∃ s', step s l = .ok s' ∧ P s') (ls : List ℓ) :
    ∃ s, exec step s₀ ls = .ok s ∧ P s := by
  have hg : Guarded step (fun _ _ ↦ True) s₀ ls := fun _ _ _ _ _ ↦ trivial
  exact exec_of_guarded h₀ (fun s l hs _ ↦ hstep s l hs) hg

/-- What steps keep under their guard holds throughout a guarded run. -/
theorem Guarded.throughout {step : σ → ℓ → Except ε σ} {guard : σ → ℓ → Prop} {P : σ → Prop}
    {s₀ : σ} {ls : List ℓ} (hg : Guarded step guard s₀ ls) (h₀ : P s₀)
    (hstep : ∀ s l s', P s → guard s l → step s l = .ok s' → P s') :
    Throughout step P s₀ ls := by
  intro done
  induction done using List.reverseRecOn with
  | nil =>
    intro s _ he
    cases he
    exact h₀
  | append_singleton done l ih =>
    intro s' hd he
    rw [exec_concat] at he
    cases hs : exec step s₀ done with
    | error e =>
      rw [hs] at he
      cases he
    | ok s =>
      rw [hs] at he
      have hp := ih s ((List.prefix_append _ _).trans hd) hs
      exact hstep s l s' hp (hg done l s hd hs) he

/-- When an invariant `P` gives `Q`, a step keeps `P` under its guard and breaks `Q` without
it, and steps that fail meet the guard, a run has `Q` throughout exactly when all its steps
meet the guard. -/
theorem throughout_iff_guarded_of {step : σ → ℓ → Except ε σ} {guard : σ → ℓ → Prop}
    {P Q : σ → Prop} {s₀ : σ} (h₀ : P s₀) (hPQ : ∀ s, P s → Q s)
    (hstep : ∀ s l s', P s → guard s l → step s l = .ok s' → P s')
    (hbreak : ∀ s l s', P s → step s l = .ok s' → ¬ guard s l → ¬ Q s')
    (hfail : ∀ s l e, P s → step s l = .error e → guard s l) (ls : List ℓ) :
    Throughout step Q s₀ ls ↔ Guarded step guard s₀ ls := by
  constructor
  · intro hQ
    have hguard : Guarded step (fun s l ↦ P s → guard s l) s₀ ls := by
      intro done l s hd he hs
      cases hl : step s l with
      | error e => exact hfail s l e hs hl
      | ok s' =>
        by_contra hg
        apply hbreak s l s' hs hl hg
        apply hQ (done ++ [l]) s' hd
        rw [exec_concat, he]
        exact hl
    have hP : Throughout step P s₀ ls :=
      hguard.throughout h₀ (fun s l s' hs hg ↦ hstep s l s' hs (hg hs))
    intro done l s hd he
    exact hguard done l s hd he (hP done s ((List.prefix_append _ _).trans hd) he)
  · intro hg done s hd he
    exact hPQ s (hg.throughout h₀ hstep done s hd he)

/-- When a step keeps `P` exactly under its guard, and steps that fail meet the guard, a
run has `P` throughout exactly when all its steps meet the guard. -/
theorem throughout_iff_guarded {step : σ → ℓ → Except ε σ} {guard : σ → ℓ → Prop}
    {P : σ → Prop} {s₀ : σ} (h₀ : P s₀)
    (hstep : ∀ s l s', P s → step s l = .ok s' → (P s' ↔ guard s l))
    (hfail : ∀ s l e, P s → step s l = .error e → guard s l) (ls : List ℓ) :
    Throughout step P s₀ ls ↔ Guarded step guard s₀ ls := by
  refine throughout_iff_guarded_of h₀ (fun _ hs ↦ hs) ?_ ?_ hfail ls
  · exact fun s l s' hs hg hl ↦ (hstep s l s' hs hl).mpr hg
  · exact fun s l s' hs hl hg hs' ↦ hg ((hstep s l s' hs hl).mp hs')

/-! ### Step functions with results -/

variable {ρ α : Type}

/-- A step function with results, as a system that remembers its calls and results. -/
def observe (step : σ → ℓ → Except ε (ρ × σ)) (s : List (ℓ × ρ) × σ) (l : ℓ) :
    Except ε (List (ℓ × ρ) × σ) := do
  let (r, s') ← step s.2 l
  return (s.1 ++ [(l, r)], s')

/-- The remembered calls are the ones that were made. -/
theorem observe_labels {step : σ → ℓ → Except ε (ρ × σ)} {s₀ : σ} {ls : List ℓ}
    {s : List (ℓ × ρ) × σ} (h : exec (observe step) ([], s₀) ls = .ok s) :
    s.1.map Prod.fst = ls := by
  induction ls using List.reverseRecOn generalizing s with
  | nil =>
    cases h
    rfl
  | append_singleton ls l ih =>
    rw [exec_concat] at h
    cases he : exec (observe step) ([], s₀) ls with
    | error e =>
      rw [he] at h
      cases h
    | ok t =>
      rw [he] at h
      change observe step t l = .ok s at h
      unfold observe at h
      cases hs : step t.2 l with
      | error e =>
        rw [hs] at h
        cases h
      | ok rs =>
        rw [hs] at h
        cases h
        rw [List.map_append, ih he]
        rfl

/-- Forward simulation: when every guarded step of the system is allowed by the abstract
`spec`, which sees the call and its result, every guarded run reaches its end and the
abstract system accepts all its calls and results. -/
theorem simulation {step : σ → ℓ → Except ε (ρ × σ)} {guard : σ → ℓ → Prop}
    {spec : α → ℓ × ρ → Option α} {R : σ → α → Prop} {s₀ : σ} {a₀ : α} (h₀ : R s₀ a₀)
    (hstep : ∀ s a l, R s a → guard s l →
      ∃ r s' a', step s l = .ok (r, s') ∧ spec a (l, r) = some a' ∧ R s' a')
    {ls : List ℓ} (hg : Guarded (observe step) (fun s ↦ guard s.2) ([], s₀) ls) :
    ∃ s, exec (observe step) ([], s₀) ls = .ok s ∧
      ∃ a, s.1.foldlM spec a₀ = some a ∧ R s.2 a := by
  refine exec_of_guarded (P := fun s ↦ ∃ a, s.1.foldlM spec a₀ = some a ∧ R s.2 a)
    ⟨a₀, rfl, h₀⟩ ?_ hg
  rintro ⟨t, s⟩ l ⟨a, ha, hR⟩ hgl
  obtain ⟨r, s', a', hs, hspec, hR'⟩ := hstep s a l hR hgl
  refine ⟨(t ++ [(l, r)], s'), ?_, a', ?_, hR'⟩
  · unfold observe
    rw [hs]
    rfl
  · rw [List.foldlM_append, ha]
    simpa using hspec

end Transition
