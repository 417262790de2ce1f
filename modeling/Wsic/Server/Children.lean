import Wsic.Server.Processes

/-!
# The children of a server instance

Which scripts are in the table of the processes: at any time the one that each worker waits for,
and for ever the ones that could not be read.
-/

open Transition ProcessTable

namespace Wsic.Processes

open Cgi

variable {n : ℕ}

/-! ### What a call leaves -/

/-- The worker is about to kill its script. -/
def Kills (todo : List Call) : Prop := todo.head? = some .kill

instance (todo : List Call) : Decidable (Kills todo) := inferInstanceAs (Decidable (_ = _))

theorem afterCall_pipe : ∀ todo ∈ Instance.plans, ∀ stream, todo.head? = some (.pipe stream) →
    ¬ Awaits todo ∧ ¬ Awaits (afterCall true todo) ∧ ¬ Kills (afterCall true todo) ∧
      ¬ Awaits (afterCall false todo) ∧ Kills (afterCall false todo) := by
  decide

theorem afterCall_fork : ∀ todo ∈ Instance.plans, todo.head? = some .fork →
    ¬ Awaits todo ∧ Awaits (afterCall true todo) ∧ ¬ Kills (afterCall true todo) ∧
      ¬ Awaits (afterCall false todo) ∧ Kills (afterCall false todo) := by
  decide

theorem afterCall_read : ∀ todo ∈ Instance.plans, todo.head? = some .read →
    Awaits todo ∧ Awaits (afterCall true todo) ∧ ¬ Kills (afterCall true todo) ∧
      ¬ Awaits (afterCall false todo) ∧ Kills (afterCall false todo) := by
  decide

theorem afterCall_wait : ∀ todo ∈ Instance.plans, todo.head? = some .wait → ∀ succeeds,
    Awaits todo ∧ ¬ Awaits (afterCall succeeds todo) ∧ Kills (afterCall succeeds todo) := by
  decide

theorem afterCall_kill : ∀ todo ∈ Instance.plans, todo.head? = some .kill → ∀ succeeds,
    ¬ Awaits todo ∧ ¬ Awaits (afterCall succeeds todo) ∧ ¬ Kills (afterCall succeeds todo) := by
  decide

theorem afterCall_other : ∀ todo ∈ Instance.plans,
    todo.head? ≠ some .fork → todo.head? ≠ some .read → todo.head? ≠ some .wait →
    todo.head? ≠ some .kill → (∀ stream, todo.head? ≠ some (.pipe stream)) → ∀ succeeds,
    (Awaits (afterCall succeeds todo) ↔ Awaits todo) ∧ ¬ Kills todo ∧
      ¬ Kills (afterCall succeeds todo) := by
  decide

/-! ### The scripts in the table -/

/-- The scripts in the table are the one that each worker waits for, under the number that the
worker has of it, and abandoned ones, which have exited unless they are about to be killed. -/
structure Kept (plan : Fin n → List Call) (pid : Fin n → ℤ) (t : Table (Owner n)) : Prop where
  positive : ∀ p process, t p = some process → 0 < p
  running : ∀ w p, (∃ process, t p = some process ∧ process.owner = .worker w) ↔
    Awaits (plan w) ∧ p = pid w
  dead : ∀ w p process, t p = some process → process.owner = .abandoned w →
    process.zombie = true ∨ Kills (plan w) ∧ p = pid w

namespace Kept

variable {plan : Fin n → List Call} {pid : Fin n → ℤ} {t : Table (Owner n)}

/-- Processes exit or change their groups. -/
theorem alter (h : Kept plan pid t) {chosen : ℤ → Process (Owner n) → Prop}
    [∀ p process, Decidable (chosen p process)] {change : Process (Owner n) → Process (Owner n)}
    (howner : ∀ process, (change process).owner = process.owner)
    (hzombie : ∀ process, process.zombie = true → (change process).zombie = true) :
    Kept plan pid (t.alter chosen change) where
  positive p process hp := by
    obtain ⟨before, hbefore, -⟩ := Table.alter_eq_some.mp hp
    exact h.positive p before hbefore
  running w p := by
    rw [← h.running w p]
    constructor
    · rintro ⟨process, hp, ho⟩
      obtain ⟨before, hbefore, rfl⟩ := Table.alter_eq_some.mp hp
      refine ⟨before, hbefore, ?_⟩
      split at ho
      · rwa [howner] at ho
      · exact ho
    · rintro ⟨before, hbefore, ho⟩
      refine ⟨_, Table.alter_eq_some.mpr ⟨before, hbefore, rfl⟩, ?_⟩
      split
      · rwa [howner]
      · exact ho
  dead w p process hp ho := by
    obtain ⟨before, hbefore, rfl⟩ := Table.alter_eq_some.mp hp
    split at ho
    · next hchosen =>
      rw [howner] at ho
      rw [if_pos hchosen]
      exact (h.dead w p before hbefore ho).imp_left (hzombie before)
    · next hchosen =>
      rw [if_neg hchosen]
      exact h.dead w p before hbefore ho

theorem killed (h : Kept plan pid t) (self group target : ℤ) :
    Kept plan pid (t.kill self group target) :=
  h.alter (fun _ ↦ rfl) (fun _ _ ↦ rfl)

/-- Another process appears. -/
theorem appears (h : Kept plan pid t) {p : ℤ} (hpos : 0 < p) (hfree : t p = none) (group : ℤ) :
    Kept plan pid (t.add p ⟨.other, group, false⟩) where
  positive m process hm := by
    rcases Table.add_eq_some hm with ⟨rfl, -⟩ | hm
    · exact hpos
    · exact h.positive m process hm
  running w m := by
    rw [← h.running w m]
    constructor
    · rintro ⟨process, hm, ho⟩
      rcases Table.add_eq_some hm with ⟨-, rfl⟩ | hm
      · cases ho
      · exact ⟨process, hm, ho⟩
    · rintro ⟨process, hm, ho⟩
      have hne : m ≠ p := by
        rintro rfl
        rw [hfree] at hm
        cases hm
      exact ⟨process, by rwa [Table.add, Function.update_of_ne hne], ho⟩
  dead w m process hm ho := by
    rcases Table.add_eq_some hm with ⟨-, rfl⟩ | hm
    · cases ho
    · exact h.dead w m process hm ho

/-- Another process goes. -/
theorem disappears (h : Kept plan pid t) {p : ℤ} {process : Process (Owner n)}
    (hp : t p = some process) (hother : process.owner = .other) : Kept plan pid (t.remove p) where
  positive m gone hm := h.positive m gone (Table.remove_eq_some.mp hm).2
  running w m := by
    rw [← h.running w m]
    constructor
    · rintro ⟨process', hm, ho⟩
      exact ⟨process', (Table.remove_eq_some.mp hm).2, ho⟩
    · rintro ⟨process', hm, ho⟩
      refine ⟨process', Table.remove_eq_some.mpr ⟨?_, hm⟩, ho⟩
      rintro rfl
      rw [hp] at hm
      cases hm
      rw [hother] at ho
      cases ho
  dead w m process hm ho := h.dead w m process (Table.remove_eq_some.mp hm).2 ho

/-- A worker that waits for no script, or for the same one as before, and has none to kill, goes
on. -/
theorem goes_on (h : Kept plan pid t) {w : Fin n} {todo : List Call} {number : ℤ}
    (hawaits : Awaits todo ↔ Awaits (plan w)) (hkills : ¬ Kills (plan w))
    (hnumber : Awaits todo → number = pid w) :
    Kept (Function.update plan w todo) (Function.update pid w number) t where
  positive := h.positive
  running v p := by
    rw [h.running]
    by_cases hv : v = w
    · subst hv
      rw [Function.update_self, Function.update_self, ← hawaits]
      refine and_congr_right (fun ha ↦ ?_)
      rw [hnumber ha]
    · rw [Function.update_of_ne hv, Function.update_of_ne hv]
  dead v p process hp ho := by
    by_cases hv : v = w
    · subst hv
      exact .inl ((h.dead v p process hp ho).resolve_right (fun hk ↦ hkills hk.1))
    · rw [Function.update_of_ne hv, Function.update_of_ne hv]
      exact h.dead v p process hp ho

/-- A script is forked. -/
theorem forks (h : Kept plan pid t) {w : Fin n} {todo : List Call} (hbefore : ¬ Awaits (plan w))
    (hkills : ¬ Kills (plan w)) (hafter : Awaits todo) {p : ℤ} (hpos : 0 < p) (hfree : t p = none)
    (group : ℤ) : Kept (Function.update plan w todo) (Function.update pid w p)
      (t.add p ⟨.worker w, group, false⟩) where
  positive m process hm := by
    rcases Table.add_eq_some hm with ⟨rfl, -⟩ | hm
    · exact hpos
    · exact h.positive m process hm
  running v m := by
    by_cases hv : v = w
    · subst hv
      rw [Function.update_self, Function.update_self]
      constructor
      · rintro ⟨process, hm, ho⟩
        rcases Table.add_eq_some hm with ⟨rfl, -⟩ | hm
        · exact ⟨hafter, rfl⟩
        · exact absurd ((h.running v m).mp ⟨process, hm, ho⟩).1 hbefore
      · rintro ⟨-, rfl⟩
        exact ⟨_, Function.update_self .., rfl⟩
    · rw [Function.update_of_ne hv, Function.update_of_ne hv, ← h.running v m]
      constructor
      · rintro ⟨process, hm, ho⟩
        rcases Table.add_eq_some hm with ⟨-, rfl⟩ | hm
        · exact absurd (Owner.worker.inj ho).symm hv
        · exact ⟨process, hm, ho⟩
      · rintro ⟨process, hm, ho⟩
        have hne : m ≠ p := by
          rintro rfl
          rw [hfree] at hm
          cases hm
        exact ⟨process, by rwa [Table.add, Function.update_of_ne hne], ho⟩
  dead v m process hm ho := by
    rcases Table.add_eq_some hm with ⟨-, rfl⟩ | hold
    · cases ho
    · have hdead := h.dead v m process hold ho
      by_cases hv : v = w
      · subst hv
        exact .inl (hdead.resolve_right (fun hk ↦ hkills hk.1))
      · rwa [Function.update_of_ne hv, Function.update_of_ne hv]

/-- A script is given up. -/
theorem abandons (h : Kept plan pid t) {w : Fin n} {todo : List Call} (hbefore : Awaits (plan w))
    (hkills : Kills todo) (hafter : ¬ Awaits todo) : Kept (Function.update plan w todo) pid
      (t.alter (fun _ process ↦ process.owner = .worker w) ({ · with owner := .abandoned w })) where
  positive m process hm := by
    obtain ⟨before, hold, -⟩ := Table.alter_eq_some.mp hm
    exact h.positive m before hold
  running v m := by
    by_cases hv : v = w
    · subst hv
      rw [Function.update_self]
      refine iff_of_false ?_ (fun ha ↦ hafter ha.1)
      rintro ⟨process, hm, ho⟩
      obtain ⟨before, -, rfl⟩ := Table.alter_eq_some.mp hm
      split at ho
      · cases ho
      · next hne => exact hne ho
    · rw [Function.update_of_ne hv, ← h.running v m]
      constructor
      · rintro ⟨process, hm, ho⟩
        obtain ⟨before, hold, rfl⟩ := Table.alter_eq_some.mp hm
        split at ho
        · cases ho
        · exact ⟨before, hold, ho⟩
      · rintro ⟨process, hm, ho⟩
        refine ⟨process, Table.alter_eq_some.mpr ⟨process, hm, ?_⟩, ho⟩
        rw [if_neg]
        rw [ho]
        exact fun he ↦ hv (Owner.worker.inj he)
  dead v m process hm ho := by
    obtain ⟨before, hold, rfl⟩ := Table.alter_eq_some.mp hm
    by_cases howner : before.owner = .worker w
    · rw [if_pos howner] at ho ⊢
      cases ho
      rw [Function.update_self]
      exact .inr ⟨hkills, ((h.running w m).mp ⟨before, hold, howner⟩).2⟩
    · rw [if_neg howner] at ho ⊢
      by_cases hv : v = w
      · subst hv
        rw [Function.update_self]
        exact (h.dead v m before hold ho).imp_right (fun hk ↦ ⟨hkills, hk.2⟩)
      · rw [Function.update_of_ne hv]
        exact h.dead v m before hold ho

/-- A script is waited for. -/
theorem reaps (h : Kept plan pid t) {w : Fin n} {todo : List Call} (hbefore : Awaits (plan w))
    (hkills : Kills todo) (hafter : ¬ Awaits todo) :
    Kept (Function.update plan w todo) pid (t.remove (pid w)) where
  positive m process hm := h.positive m process (Table.remove_eq_some.mp hm).2
  running v m := by
    by_cases hv : v = w
    · subst hv
      rw [Function.update_self]
      refine iff_of_false ?_ (fun ha ↦ hafter ha.1)
      rintro ⟨process, hm, ho⟩
      obtain ⟨hne, hm⟩ := Table.remove_eq_some.mp hm
      exact hne ((h.running v m).mp ⟨process, hm, ho⟩).2
    · rw [Function.update_of_ne hv, ← h.running v m]
      constructor
      · rintro ⟨process, hm, ho⟩
        exact ⟨process, (Table.remove_eq_some.mp hm).2, ho⟩
      · rintro ⟨process, hm, ho⟩
        refine ⟨process, Table.remove_eq_some.mpr ⟨?_, hm⟩, ho⟩
        rintro rfl
        obtain ⟨own, hown, howner⟩ := (h.running w (pid w)).mpr ⟨hbefore, rfl⟩
        rw [hm] at hown
        cases hown
        exact hv (Owner.worker.inj (ho.symm.trans howner))
  dead v m process hm ho := by
    have hdead := h.dead v m process (Table.remove_eq_some.mp hm).2 ho
    by_cases hv : v = w
    · subst hv
      rw [Function.update_self]
      exact hdead.imp_right (fun hk ↦ ⟨hkills, hk.2⟩)
    · rwa [Function.update_of_ne hv]

/-- A script is killed, unless it has been waited for. -/
theorem kills (h : Kept plan pid t) {w : Fin n} {todo : List Call} (hbefore : ¬ Awaits (plan w))
    (hafter : ¬ Awaits todo) (self group : ℤ) :
    Kept (Function.update plan w todo) pid (t.kill self group (pid w)) where
  positive := (h.killed self group (pid w)).positive
  running v m := by
    rw [(h.killed self group (pid w)).running v m]
    by_cases hv : v = w
    · subst hv
      rw [Function.update_self]
      exact iff_of_false (fun ha ↦ hbefore ha.1) (fun ha ↦ hafter ha.1)
    · rw [Function.update_of_ne hv]
  dead v m process hm ho := by
    by_cases hv : v = w
    · subst hv
      obtain ⟨before, hold, rfl⟩ := Table.alter_eq_some.mp hm
      split
      · exact .inl rfl
      · next hnot =>
        rw [if_neg hnot] at ho
        rcases h.dead v m before hold ho with hz | ⟨-, rfl⟩
        · exact .inl hz
        · exact absurd ((signals_of_pos (h.positive _ _ hold) _ _ _ _).mpr rfl) hnot
    · rw [Function.update_of_ne hv]
      exact (h.killed self group (pid w)).dead v m process hm ho

end Kept

/-! ### One event -/

theorem plan_mem {s : Instance.State n} {queued : List (Option Instance.Connection)}
    (h : Instance.Tidy s queued) (w : Fin n) : plan s w ∈ Instance.plans := by
  have hnil : [] ∈ Instance.plans := by decide
  cases hactivity : s.activity w with
  | cgi process todo =>
    rw [plan_of_activity hactivity]
    exact (h.planned w process todo hactivity).plan
  | _ =>
    rw [plan_of_activity hactivity]
    exact hnil

section call

variable {s s' : State n} {w : Fin n} {succeeds : Bool} {pid : ℤ}

theorem not_kills_of_head {todo : List Call} {c : Call} (h : todo.head? = some c)
    (hc : c ≠ .kill) : ¬ Kills todo := by
  rw [Kills, h]
  exact fun he ↦ hc (Option.some.inj he)

/-- A call of a worker keeps the children in order. -/
theorem Kept.call (h : Kept (plan s.server) s.pid s.table) (hmem : plan s.server w ∈ Instance.plans)
    (hs : s.call w succeeds pid = .ok s') :
    Kept (Function.update (plan s.server) w (afterCall succeeds (plan s.server w))) s'.pid
      s'.table := by
  have hstays {todo : List Call} (hawaits : Awaits todo ↔ Awaits (plan s.server w))
      (hkills : ¬ Kills (plan s.server w)) :
      Kept (Function.update (plan s.server) w todo) s.pid s.table := by
    have hkept := h.goes_on hawaits hkills (fun _ ↦ (rfl : s.pid w = s.pid w))
    rwa [Function.update_eq_self] at hkept
  unfold State.call at hs
  split at hs
  · next hhead =>
    obtain ⟨hbefore, hawaits, -, hfailed, -⟩ := afterCall_fork _ hmem hhead
    have hkills := not_kills_of_head hhead (by decide)
    cases succeeds with
    | false =>
      cases hs
      exact h.goes_on (iff_of_false hfailed hbefore) hkills (fun ha ↦ absurd ha hfailed)
    | true =>
      split at hs
      · next hp => cases hp
      · split at hs
        · next hp =>
          cases hs
          exact h.forks hbefore hkills hawaits hp.1 hp.2 s.group
        · cases hs
  · next hhead =>
    obtain ⟨hbefore, hawaits, -, hfailed, hkills⟩ := afterCall_read _ hmem hhead
    cases succeeds with
    | false =>
      cases hs
      exact h.abandons hbefore hkills hfailed
    | true =>
      cases hs
      exact hstays (iff_of_true hawaits hbefore) (not_kills_of_head hhead (by decide))
  · next hhead =>
    obtain ⟨hbefore, hafter, hkills⟩ := afterCall_wait _ hmem hhead succeeds
    obtain ⟨own, hown, howner⟩ := (h.running w (s.pid w)).mpr ⟨hbefore, rfl⟩
    rw [hown] at hs
    dsimp only at hs
    rw [if_neg (by rw [howner]; exact fun he ↦ by cases he)] at hs
    split at hs
    · cases hs
      exact h.reaps hbefore hkills hafter
    · cases hs
  · next hhead =>
    obtain ⟨hbefore, hafter, -⟩ := afterCall_kill _ hmem hhead succeeds
    have hkilled := h.kills hbefore hafter s.self s.group
    split at hs
    · split at hs
      · cases hs
      · cases hs
        exact hkilled
    · cases hs
      exact hkilled
  · next hfork hread hwait hkill =>
    cases hs
    by_cases hpipe : ∃ stream, (plan s.server w).head? = some (.pipe stream)
    · obtain ⟨stream, hhead⟩ := hpipe
      have hkills := not_kills_of_head hhead (fun he ↦ by cases he)
      obtain ⟨hbefore, hafter, -, hfailed, -⟩ := afterCall_pipe _ hmem stream hhead
      cases succeeds with
      | false => exact hstays (iff_of_false hfailed hbefore) hkills
      | true => exact hstays (iff_of_false hafter hbefore) hkills
    · obtain ⟨hawaits, hkills, -⟩ := afterCall_other _ hmem hfork hread hwait hkill
        (fun stream he ↦ hpipe ⟨stream, he⟩) succeeds
      exact hstays hawaits hkills

end call

section step

variable {s s' : State n}

/-- The workers are tidy and their scripts in order. -/
structure Orderly (s : State n) : Prop where
  tidy : ∃ queued, Instance.Tidy s.server queued
  kept : Kept (plan s.server) s.pid s.table

theorem Orderly.mem (h : Orderly s) (w : Fin n) : plan s.server w ∈ Instance.plans := by
  obtain ⟨queued, htidy⟩ := h.tidy
  exact plan_mem htidy w

theorem Orderly.step {e : Event n} (h : Orderly s) (hs : Processes.step s e = .ok s') :
    Orderly s' := by
  cases e with
  | server e pid =>
    have htidy : ∃ queued, Instance.Tidy s'.server queued := by
      obtain ⟨queued, htidy⟩ := h.tidy
      obtain ⟨server, s₁, hserver, -, rfl⟩ := step_server hs
      obtain ⟨queued', htidy', -⟩ := htidy.step 0 hserver
      exact ⟨queued', htidy'⟩
    refine ⟨htidy, ?_⟩
    rcases server_cases hs with ⟨w, succeeds, s₁, rfl, hc, hs', hplan⟩ |
      ⟨w, fresh, rfl, hnil, hs', hplan⟩ | ⟨-, hs', hplan⟩
    · have hkept := h.kept.call (h.mem w) hc
      rw [hplan, hs']
      exact hkept
    · rw [hplan, hs']
      refine h.kept.goes_on ?_ ?_ (fun ha ↦ absurd ha (by decide))
      · rw [hnil]
        decide
      · rw [hnil]
        decide
    · rw [hplan, hs']
      exact h.kept
  | exits pid =>
    rw [step_exits hs]
    exact ⟨h.tidy, h.kept.alter (fun _ ↦ rfl) (fun _ _ ↦ rfl)⟩
  | appears pid group =>
    obtain ⟨hp, rfl⟩ := step_appears hs
    exact ⟨h.tidy, h.kept.appears hp.1 hp.2 group⟩
  | joins pid group =>
    obtain ⟨-, rfl⟩ := step_joins hs
    exact ⟨h.tidy, h.kept.alter (fun _ ↦ rfl) (fun _ hz ↦ hz)⟩
  | disappears pid =>
    obtain ⟨process, hp, hother, rfl⟩ := step_disappears hs
    exact ⟨h.tidy, h.kept.disappears hp hother⟩

/-- A script that was given up stays. -/
def Abandoned (t : Table (Owner n)) (w : Fin n) (p : ℤ) : Prop :=
  ∃ process, t p = some process ∧ process.owner = .abandoned w

theorem abandoned_of_owner {t : Table (Owner n)} {w : Fin n} {p : ℤ} {own : Process (Owner n)}
    (hp : t p = some own) (howner : own.owner = .worker w) :
    Abandoned (t.alter (fun _ process ↦ process.owner = .worker w)
      ({ · with owner := .abandoned w })) w p := by
  refine ⟨_, Table.alter_eq_some.mpr ⟨own, hp, rfl⟩, ?_⟩
  rw [if_pos howner]

theorem Abandoned.add {t : Table (Owner n)} {w : Fin n} {p m : ℤ} (h : Abandoned t w p)
    (hfree : t m = none) (process : Process (Owner n)) : Abandoned (t.add m process) w p := by
  obtain ⟨old, hp, ho⟩ := h
  have hne : p ≠ m := by
    rintro rfl
    rw [hfree] at hp
    cases hp
  exact ⟨old, by rwa [Table.add, Function.update_of_ne hne], ho⟩

theorem Abandoned.remove {t : Table (Owner n)} {w : Fin n} {p m : ℤ} (h : Abandoned t w p)
    {process : Process (Owner n)} (hm : t m = some process)
    (hother : process.owner ≠ .abandoned w) : Abandoned (t.remove m) w p := by
  obtain ⟨old, hp, ho⟩ := h
  refine ⟨old, Table.remove_eq_some.mpr ⟨?_, hp⟩, ho⟩
  rintro rfl
  rw [hm] at hp
  cases hp
  exact hother ho

theorem Abandoned.alter {t : Table (Owner n)} {w : Fin n} {p : ℤ} (h : Abandoned t w p)
    {chosen : ℤ → Process (Owner n) → Prop} [∀ p process, Decidable (chosen p process)]
    {change : Process (Owner n) → Process (Owner n)}
    (hchange : ∀ m process, chosen m process → process.owner = .abandoned w →
      (change process).owner = .abandoned w) : Abandoned (t.alter chosen change) w p := by
  obtain ⟨old, hp, ho⟩ := h
  refine ⟨_, Table.alter_eq_some.mpr ⟨old, hp, rfl⟩, ?_⟩
  split
  · exact hchange p old ‹_› ho
  · exact ho

theorem Abandoned.call {w v : Fin n} {p pid : ℤ} {succeeds : Bool} (h : Abandoned s.table w p)
    (horderly : Orderly s) (hs : s.call v succeeds pid = .ok s') : Abandoned s'.table w p := by
  unfold State.call at hs
  split at hs
  · split at hs
    · cases hs
      exact h
    · split at hs
      · next hp =>
        cases hs
        exact h.add hp.2 _
      · cases hs
  · split at hs
    · cases hs
      exact h
    · cases hs
      exact h.alter (fun _ _ hv hw ↦ by rw [hv] at hw; cases hw)
  · next hhead =>
    obtain ⟨hbefore, -, -⟩ := afterCall_wait _ (horderly.mem v) hhead succeeds
    obtain ⟨own, hown, howner⟩ := (horderly.kept.running v (s.pid v)).mpr ⟨hbefore, rfl⟩
    rw [hown] at hs
    dsimp only at hs
    split at hs
    · cases hs
      exact h
    · split at hs
      · cases hs
        exact h.remove hown (by rw [howner]; exact fun he ↦ by cases he)
      · cases hs
  · split at hs
    · split at hs
      · cases hs
      · cases hs
        exact h.alter (fun _ _ _ hw ↦ hw)
    · cases hs
      exact h.alter (fun _ _ _ hw ↦ hw)
  · cases hs
    exact h

theorem Abandoned.step {w : Fin n} {p : ℤ} {e : Event n} (h : Abandoned s.table w p)
    (horderly : Orderly s) (hs : Processes.step s e = .ok s') : Abandoned s'.table w p := by
  cases e with
  | server e pid =>
    rcases server_cases hs with ⟨v, succeeds, s₁, rfl, hc, hs', -⟩ | ⟨v, fresh, rfl, -, hs', -⟩ |
      ⟨-, hs', -⟩
    · have hcall := h.call horderly hc
      rw [hs']
      exact hcall
    · rw [hs']
      exact h
    · rw [hs']
      exact h
  | exits pid =>
    rw [step_exits hs]
    exact h.alter (fun _ _ _ hw ↦ hw)
  | appears pid group =>
    obtain ⟨hp, rfl⟩ := step_appears hs
    exact h.add hp.2 _
  | joins pid group =>
    obtain ⟨-, rfl⟩ := step_joins hs
    exact h.alter (fun _ _ _ hw ↦ hw)
  | disappears pid =>
    obtain ⟨process, hp, hother, rfl⟩ := step_disappears hs
    exact h.remove hp (by rw [hother]; exact fun he ↦ by cases he)

end step

/-! ### Runs -/

theorem plan_start (inherited : Descriptors.Table Instance.File)
    (ports : List Instance.Listening) (w : Fin n) :
    plan (Instance.start inherited ports) w = [] := by
  have hlisten (s : Instance.State n) : (ports.foldl Instance.listen s).activity = s.activity := by
    induction ports generalizing s with
    | nil => rfl
    | cons port ports ih =>
      rw [List.foldl_cons, ih]
      obtain ⟨-, -, -, hactivity, -⟩ := Instance.listen_spec s port
      exact hactivity
  rw [plan, Instance.start, hlisten]
  rfl

theorem orderly_start {others : Table (Owner n)} (h : Foreign others)
    (inherited : Descriptors.Table Instance.File) (ports : List Instance.Listening)
    (self group : ℤ) : Orderly (start inherited ports others self group) where
  tidy := ⟨[], (Instance.start_spec inherited ports).1⟩
  kept :=
    { positive := fun p process hp ↦ (h p process hp).1
      running := by
        intro w p
        rw [show plan (start inherited ports others self group).server w = [] from
          plan_start inherited ports w]
        refine iff_of_false ?_ (fun ha ↦ absurd ha.1 (by decide))
        rintro ⟨process, hp, ho⟩
        rw [(h p process hp).2] at ho
        cases ho
      dead := by
        intro w p process hp ho
        rw [(h p process hp).2] at ho
        cases ho }

/-- The server and its supervisor are alone on the machine. -/
def machine : Table (Owner 1) := fun pid ↦
  if pid = 100 ∨ pid = 99 then some ⟨.other, 99, false⟩ else none

theorem foreign_machine : Foreign machine := by
  intro pid process hp
  unfold machine at hp
  split at hp
  · cases hp
    exact ⟨by omega, rfl⟩
  · cases hp

/-- The scripts that a server has in the table at any time are the one that each worker waits for
and those whose output could not be read. These have exited unless they are about to be killed,
and stay in the table ever after: nobody waits for them. -/
theorem runs_children {others : Table (Owner n)} (h : Foreign others)
    (inherited : Descriptors.Table Instance.File) (ports : List Instance.Listening)
    (self group : ℤ) {events : List (Event n)} {s : State n}
    (hs : exec step (start inherited ports others self group) events = .ok s) :
    (∀ w p, (∃ process, s.table p = some process ∧ process.owner = .worker w) ↔
      Awaits (plan s.server w) ∧ p = s.pid w) ∧
    (∀ w p process, s.table p = some process → process.owner = .abandoned w →
      process.zombie = true ∨ Kills (plan s.server w) ∧ p = s.pid w) ∧
    (∀ w pid s', (plan s.server w).head? = some .read →
      step s (.server (.call w false) pid) = .ok s' → Abandoned s'.table w (s.pid w)) ∧
    ∀ w p, Abandoned s.table w p → ∀ later s', exec step s later = .ok s' →
      Abandoned s'.table w p := by
  have horderly : Orderly s := exec_induction (R := fun _ s ↦ Orderly s) hs
    (orderly_start h inherited ports self group) (fun _ _ _ _ ho hs ↦ ho.step hs)
  refine ⟨horderly.kept.running, horderly.kept.dead, ?_, ?_⟩
  · intro w pid s' hhead hstep
    obtain ⟨hbefore, -⟩ := afterCall_read _ (horderly.mem w) hhead
    obtain ⟨own, hown, howner⟩ := (horderly.kept.running w (s.pid w)).mpr ⟨hbefore, rfl⟩
    obtain ⟨server, s₁, -, hfollow, rfl⟩ := step_server hstep
    simp only [State.follow, State.call, hhead] at hfollow
    cases hfollow
    exact abandoned_of_owner hown howner
  · intro w p habandoned later s' hlater
    have hboth : Orderly s' ∧ Abandoned s'.table w p :=
      exec_induction (R := fun _ s ↦ Orderly s ∧ Abandoned s.table w p) hlater
        ⟨horderly, habandoned⟩ (fun _ _ _ _ ho hs ↦ ⟨ho.1.step hs, ho.2.step ho.1 hs⟩)
    exact hboth.2

/-- A request for a script that cannot be read. -/
def unreadRun : List (Event 1) :=
  (Instance.scriptRun 8 ++ [Instance.Event.call ⟨0, Nat.one_pos⟩ false]).map (.server · 200)

theorem runs_children_unread :
    ∃ s, exec step (start Instance.terminal [.listens] machine 100 99) unreadRun = .ok s ∧
      Abandoned s.table 0 200 ∧
      ∀ later s', exec step s later = .ok s' → Abandoned s'.table 0 200 := by
  obtain ⟨s, hs, hunread⟩ : ∃ s, exec step (start Instance.terminal [.listens] machine 100 99)
      unreadRun = .ok s ∧ Abandoned s.table 0 200 :=
    ⟨_, rfl, ⟨.abandoned 0, 99, false⟩, rfl, rfl⟩
  exact ⟨s, hs, hunread, (runs_children foreign_machine _ _ _ _ hs).2.2.2 0 200 hunread⟩

end Wsic.Processes
