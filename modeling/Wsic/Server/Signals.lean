import Wsic.Server.Children

/-!
# The signals of a server instance

`cgi_closeProcess` kills the number in the field `pid`, `src/cgi/cgi.c:227`, when the script has
been waited for, and also when it was never forked. The result says in which runs no worker is
ever about to kill a running process other than a script that could not be read.
-/

open Transition ProcessTable

namespace Wsic.Processes

open Cgi

variable {n : ℕ}

/-! ### The signals -/

/-- No worker is about to kill a process that runs and is not the script it gave up. -/
def Spares (s : State n) : Prop :=
  ∀ w, Kills (plan s.server w) →
    Spared s.table s.self s.group (s.pid w) (· = .abandoned w)

/-- No worker is about to kill a process that appears under this number. -/
def Unharmed (s : State n) (pid : ℤ) (process : Process (Owner n)) : Prop :=
  0 < pid ∧ s.table pid = none →
    ∀ w, Kills (plan s.server w) → ¬ Signals s.self s.group (s.pid w) pid process

/-- A pipe does not fail while the number in the unset field is one of a process, `fork` does not
fail while there are others, and nobody is forked under a number that is about to be killed. -/
def HarmlessCall (s : State n) (w : Fin n) (succeeds : Bool) (pid : ℤ) : Option Call → Prop
  | some (.pipe _) =>
    if succeeds then True else Spared s.table s.self s.group (s.pid w) (· = .abandoned w)
  | some .fork =>
    if succeeds then Unharmed s pid ⟨.worker w, s.group, false⟩
    else Spared s.table s.self s.group (-1) (· = .abandoned w)
  | _ => True

/-- No call is harmful, and nobody appears under a number, or joins a group, that is about to be
killed. -/
def Harmless (s : State n) : Event n → Prop
  | .server (.call w succeeds) pid => HarmlessCall s w succeeds pid (plan s.server w).head?
  | .appears pid group => Unharmed s pid ⟨.other, group, false⟩
  | .joins pid group => pid ≠ s.self →
    ∀ process, s.table pid = some process → process.zombie = false →
      ∀ w, process.owner ≠ .abandoned w → Kills (plan s.server w) →
        ¬ Signals s.self s.group (s.pid w) pid { process with group := group }
  | _ => True

section spares

variable {s s' : State n} {w : Fin n} {todo : List Call}

/-- A worker goes on that kills nothing next, while processes exit or go. -/
theorem Spares.goes_on (h : Spares s)
    (hplan : plan s'.server = Function.update (plan s.server) w todo) (hkills : ¬ Kills todo)
    (hpid : ∀ v, v ≠ w → s'.pid v = s.pid v) (hself : s'.self = s.self)
    (hgroup : s'.group = s.group) (htable : s.table.Fades s'.table) : Spares s' := by
  intro v hv
  rw [hplan] at hv
  by_cases he : v = w
  · subst he
    rw [Function.update_self] at hv
    exact absurd hv hkills
  · rw [Function.update_of_ne he] at hv
    rw [hself, hgroup, hpid v he]
    exact (h v hv).fades htable

/-- A worker will kill next, and nothing changes for the others. -/
theorem Spares.kills_next (h : Spares s)
    (hplan : plan s'.server = Function.update (plan s.server) w todo) (hkills : Kills todo)
    (hpid : ∀ v, v ≠ w → s'.pid v = s.pid v) (hself : s'.self = s.self)
    (hgroup : s'.group = s.group)
    (htable : ∀ v, v ≠ w → Spared s.table s.self s.group (s.pid v) (· = .abandoned v) →
      Spared s'.table s.self s.group (s.pid v) (· = .abandoned v)) :
    Spares s' ↔ Spared s'.table s.self s.group (s'.pid w) (· = .abandoned w) := by
  constructor
  · intro h'
    have hw := h' w (by rwa [hplan, Function.update_self])
    rwa [hself, hgroup] at hw
  · intro hw v hv
    rw [hself, hgroup]
    by_cases he : v = w
    · subst he
      exact hw
    · rw [hplan, Function.update_of_ne he] at hv
      rw [hpid v he]
      exact htable v he (h v hv)

end spares

/-- Who is spared by a signal is spared when he has been given up. -/
theorem spared_abandoned {t : Table (Owner n)} {self group target : ℤ} {v w : Fin n}
    (h : Spared t self group target (· = .abandoned v)) :
    Spared (t.alter (fun _ process ↦ process.owner = .worker w) ({ · with owner := .abandoned w }))
      self group target (· = .abandoned v) := by
  intro m process hm hsignals
  obtain ⟨before, hold, rfl⟩ := Table.alter_eq_some.mp hm
  by_cases howner : before.owner = .worker w
  · rw [if_pos howner] at hsignals ⊢
    refine .inl ((h m before hold hsignals).resolve_right (fun he ↦ ?_))
    rw [howner] at he
    cases he
  · rw [if_neg howner] at hsignals ⊢
    exact h m before hold hsignals

/-- The signal of a worker that has given up its script is for that script. -/
theorem Kept.spared_abandoned {plan : Fin n → List Call} {pid : Fin n → ℤ} {t : Table (Owner n)}
    (h : Kept plan pid t) {w : Fin n} (hawaits : Awaits (plan w)) {self group : ℤ} :
    Spared (t.alter (fun _ process ↦ process.owner = .worker w) ({ · with owner := .abandoned w }))
      self group (pid w) (· = .abandoned w) := by
  intro m process hm hsignals
  obtain ⟨own, hown, howner⟩ := (h.running w (pid w)).mpr ⟨hawaits, rfl⟩
  rw [signals_of_pos (h.positive _ _ hown)] at hsignals
  subst hsignals
  obtain ⟨before, hold, rfl⟩ := Table.alter_eq_some.mp hm
  rw [hown] at hold
  cases hold
  rw [if_pos howner]
  exact .inr rfl

/-! ### One event -/

section call

variable {s s' : State n} {w : Fin n} {succeeds : Bool} {pid : ℤ} {server : Instance.State n}

theorem Spares.callFork (h : Spares s) (hmem : plan s.server w ∈ Instance.plans)
    (hhead : (plan s.server w).head? = some .fork) (hs : s.call w succeeds pid = .ok s')
    (hplan : plan server = Function.update (plan s.server) w
      (afterCall succeeds (plan s.server w))) :
    Spares { s' with server := server } ↔ HarmlessCall s w succeeds pid (some .fork) := by
  obtain ⟨-, -, hnot, -, hkills⟩ := afterCall_fork _ hmem hhead
  rw [State.call, hhead] at hs
  cases succeeds with
  | false =>
    cases hs
    refine Iff.trans (h.kills_next hplan hkills (fun v hv ↦ Function.update_of_ne hv _ _) rfl rfl
      (fun _ _ hv ↦ hv)) ?_
    dsimp only
    rw [Function.update_self]
    exact Iff.rfl
  | true =>
    dsimp only at hs
    split at hs
    · next hp => cases hp
    · split at hs
      · next hp =>
        cases hs
        dsimp only
        constructor
        · intro h' _ v hv
          have hne : v ≠ w := by
            rintro rfl
            exact not_kills_of_head hhead (by decide) hv
          have hspared := h' v (by rwa [hplan, Function.update_of_ne hne])
          dsimp only at hspared
          rw [Function.update_of_ne hne] at hspared
          exact ((spared_add hp.2 rfl (fun he ↦ by cases he)).mp hspared).2
        · intro hunharmed v hv
          have hne : v ≠ w := by
            rintro rfl
            rw [hplan, Function.update_self] at hv
            exact hnot hv
          rw [hplan, Function.update_of_ne hne] at hv
          dsimp only
          rw [Function.update_of_ne hne]
          exact (spared_add hp.2 rfl (fun he ↦ by cases he)).mpr ⟨h v hv, hunharmed hp v hv⟩
      · cases hs

/-- A worker that gives up its script is about to kill only that. -/
theorem Spares.callRead (h : Spares s) (hkept : Kept (plan s.server) s.pid s.table)
    (hmem : plan s.server w ∈ Instance.plans) (hhead : (plan s.server w).head? = some .read)
    (hs : s.call w succeeds pid = .ok s')
    (hplan : plan server = Function.update (plan s.server) w
      (afterCall succeeds (plan s.server w))) : Spares { s' with server := server } := by
  obtain ⟨hbefore, -, hnot, -, hkills⟩ := afterCall_read _ hmem hhead
  rw [State.call, hhead] at hs
  cases succeeds with
  | false =>
    cases hs
    refine Iff.mpr (h.kills_next hplan hkills (fun _ _ ↦ rfl) rfl rfl ?_) ?_
    · exact fun v _ hv ↦ spared_abandoned hv
    · exact hkept.spared_abandoned hbefore
  | true =>
    cases hs
    exact h.goes_on hplan hnot (fun _ _ ↦ rfl) rfl rfl (.refl _)

/-- The number of a script that has been waited for is free. -/
theorem Spares.callWait (h : Spares s) (hkept : Kept (plan s.server) s.pid s.table)
    (hmem : plan s.server w ∈ Instance.plans) (hhead : (plan s.server w).head? = some .wait)
    (hs : s.call w succeeds pid = .ok s')
    (hplan : plan server = Function.update (plan s.server) w
      (afterCall succeeds (plan s.server w))) : Spares { s' with server := server } := by
  obtain ⟨hbefore, -, hkills⟩ := afterCall_wait _ hmem hhead succeeds
  obtain ⟨own, hown, howner⟩ := (hkept.running w (s.pid w)).mpr ⟨hbefore, rfl⟩
  rw [State.call, hhead] at hs
  dsimp only at hs
  rw [hown] at hs
  dsimp only at hs
  rw [if_neg (by rw [howner]; exact fun he ↦ by cases he)] at hs
  split at hs
  · cases hs
    refine Iff.mpr (h.kills_next hplan hkills (fun _ _ ↦ rfl) rfl rfl
      (fun _ _ hv ↦ hv.fades (Table.fades_remove _ _))) ?_
    intro m process hm hsignals
    obtain ⟨hne, -⟩ := Table.remove_eq_some.mp hm
    rw [signals_of_pos (hkept.positive _ _ hown)] at hsignals
    exact absurd hsignals hne
  · cases hs

theorem Spares.callKill (h : Spares s) (hmem : plan s.server w ∈ Instance.plans)
    (hhead : (plan s.server w).head? = some .kill) (hs : s.call w succeeds pid = .ok s')
    (hplan : plan server = Function.update (plan s.server) w
      (afterCall succeeds (plan s.server w))) : Spares { s' with server := server } := by
  obtain ⟨-, -, hnot⟩ := afterCall_kill _ hmem hhead succeeds
  have hfades := Table.fades_alter s.table (Signals s.self s.group (s.pid w))
  rw [State.call, hhead] at hs
  dsimp only at hs
  split at hs
  · split at hs
    · cases hs
    · cases hs
      exact h.goes_on hplan hnot (fun _ _ ↦ rfl) rfl rfl hfades
  · cases hs
    exact h.goes_on hplan hnot (fun _ _ ↦ rfl) rfl rfl hfades

/-- Behind a pipe that failed, the unset number is killed. -/
theorem Spares.callPipe (h : Spares s) (hmem : plan s.server w ∈ Instance.plans) {stream : Stream}
    (hhead : (plan s.server w).head? = some (.pipe stream)) (hs : s.call w succeeds pid = .ok s')
    (hplan : plan server = Function.update (plan s.server) w
      (afterCall succeeds (plan s.server w))) :
    Spares { s' with server := server } ↔
      HarmlessCall s w succeeds pid (some (.pipe stream)) := by
  obtain ⟨-, -, hnot, -, hkills⟩ := afterCall_pipe _ hmem stream hhead
  rw [State.call, hhead] at hs
  cases hs
  cases succeeds with
  | false => exact h.kills_next hplan hkills (fun _ _ ↦ rfl) rfl rfl (fun _ _ hv ↦ hv)
  | true => exact iff_of_true (h.goes_on hplan hnot (fun _ _ ↦ rfl) rfl rfl (.refl _)) trivial

/-- A call of a worker lets nobody come to harm exactly when it is harmless. -/
theorem Spares.call (h : Spares s) (hkept : Kept (plan s.server) s.pid s.table)
    (hmem : plan s.server w ∈ Instance.plans) (hs : s.call w succeeds pid = .ok s')
    (hplan : plan server = Function.update (plan s.server) w
      (afterCall succeeds (plan s.server w))) :
    Spares { s' with server := server } ↔ Harmless s (.server (.call w succeeds) pid) := by
  change _ ↔ HarmlessCall s w succeeds pid (plan s.server w).head?
  by_cases hpipe : ∃ stream, (plan s.server w).head? = some (.pipe stream)
  · obtain ⟨stream, hhead⟩ := hpipe
    rw [hhead]
    exact h.callPipe hmem hhead hs hplan
  by_cases hfork : (plan s.server w).head? = some .fork
  · rw [hfork]
    exact h.callFork hmem hfork hs hplan
  refine iff_of_true ?_ ?_
  · by_cases hread : (plan s.server w).head? = some .read
    · exact h.callRead hkept hmem hread hs hplan
    by_cases hwait : (plan s.server w).head? = some .wait
    · exact h.callWait hkept hmem hwait hs hplan
    by_cases hkill : (plan s.server w).head? = some .kill
    · exact h.callKill hmem hkill hs hplan
    obtain ⟨-, -, hnot⟩ := afterCall_other _ hmem hfork hread hwait hkill
      (fun stream he ↦ hpipe ⟨stream, he⟩) succeeds
    unfold State.call at hs
    split at hs
    · next he => exact absurd he hfork
    · next he => exact absurd he hread
    · next he => exact absurd he hwait
    · next he => exact absurd he hkill
    · cases hs
      exact h.goes_on hplan hnot (fun _ _ ↦ rfl) rfl rfl (.refl _)
  · unfold HarmlessCall
    split
    · next he => exact absurd ⟨_, he⟩ hpipe
    · next he => exact absurd he hfork
    · trivial

end call

section step

variable {s s' : State n}

/-- An event leaves all but the scripts unharmed exactly when it is harmless. -/
theorem Orderly.spares_iff {e : Event n} (h : Orderly s) (hspares : Spares s)
    (hs : Processes.step s e = .ok s') : Spares s' ↔ Harmless s e := by
  cases e with
  | server e pid =>
    rcases server_cases hs with ⟨w, succeeds, s₁, rfl, hc, hs', hplan⟩ |
      ⟨w, fresh, rfl, hnil, hs', hplan⟩ | ⟨hcall, hs', hplan⟩
    · rw [hs']
      exact hspares.call h.kept (h.mem w) hc hplan
    · refine iff_of_true ?_ trivial
      rw [hs']
      exact hspares.goes_on hplan (by decide) (fun v hv ↦ Function.update_of_ne hv _ _) rfl rfl
        (.refl _)
    · refine iff_of_true ?_ ?_
      · intro v hv
        rw [hplan] at hv
        rw [hs']
        exact hspares v hv
      · cases e with
        | call w succeeds => exact absurd rfl (hcall w succeeds)
        | _ => trivial
  | exits pid =>
    rw [step_exits hs]
    exact iff_of_true (fun v hv ↦ (hspares v hv).fades (Table.fades_alter _ _)) trivial
  | appears pid group =>
    obtain ⟨hp, rfl⟩ := step_appears hs
    constructor
    · exact fun h' _ v hv ↦ ((spared_add hp.2 rfl (fun he ↦ by cases he)).mp (h' v hv)).2
    · exact fun hunharmed v hv ↦
        (spared_add hp.2 rfl (fun he ↦ by cases he)).mpr ⟨hspares v hv, hunharmed hp v hv⟩
  | joins pid group =>
    obtain ⟨hself, rfl⟩ := step_joins hs
    have htable (m : ℤ) (process : Process (Owner n)) :
        s.table.alter (fun m _ ↦ m = pid) ({ · with group := group }) m = some process ↔
          ∃ before, s.table m = some before ∧
            process = if m = pid then { before with group := group } else before :=
      Table.alter_eq_some
    constructor
    · intro h' _ process hp hzombie w howner hkills hsignals
      have hjoined := (htable pid _).mpr ⟨process, hp, (if_pos rfl).symm⟩
      rcases h' w hkills pid _ hjoined hsignals with hz | ho
      · rw [hzombie] at hz
        cases hz
      · exact howner ho
    · intro hharmless w hkills m process hm hsignals
      obtain ⟨before, hold, rfl⟩ := (htable m process).mp hm
      by_cases hmp : m = pid
      · subst hmp
        rw [if_pos rfl] at hsignals ⊢
        by_contra hnot
        rw [not_or, Bool.not_eq_true] at hnot
        exact hharmless hself before hold hnot.1 w hnot.2 hkills hsignals
      · rw [if_neg hmp] at hsignals ⊢
        exact hspares w hkills m before hold hsignals
  | disappears pid =>
    obtain ⟨process, -, -, rfl⟩ := step_disappears hs
    exact iff_of_true (fun v hv ↦ (hspares v hv).fades (Table.fades_remove _ _)) trivial

theorem activity_of_head {s : Instance.State n} {w : Fin n} {c : Call}
    (h : (plan s w).head? = some c) : ∃ process todo, s.activity w = .cgi process (c :: todo) := by
  rw [plan] at h
  cases hactivity : s.activity w with
  | cgi process todo =>
    rw [hactivity] at h
    obtain ⟨rest, hrest⟩ := List.head?_eq_some_iff.mp h
    exact ⟨process, rest, congrArg _ hrest⟩
  | _ =>
    rw [hactivity] at h
    cases h

/-- A call that is not made harms nobody. -/
theorem harmless_of_error {e : Event n} {stop : Stop} (hs : step s e = .error stop) :
    Harmless s e := by
  cases e with
  | server e pid =>
    cases e with
    | call w succeeds =>
      change HarmlessCall s w succeeds pid (plan s.server w).head?
      simp only [step, Instance.step, State.follow, Instance.State.call, State.call] at hs
      unfold HarmlessCall
      split
      · next hhead =>
        obtain ⟨process, todo, hactivity⟩ := activity_of_head hhead
        rw [hhead, hactivity] at hs
        cases succeeds <;> cases hs
      · next hhead =>
        obtain ⟨process, todo, hactivity⟩ := activity_of_head hhead
        rw [hhead, hactivity] at hs
        cases succeeds with
        | false => cases hs
        | true =>
          intro hp
          simp only [Bool.not_true, Bool.false_eq_true, if_false, if_pos hp] at hs
          cases hs
      · trivial
    | _ => trivial
  | appears pid group =>
    intro hp
    rw [step, if_pos hp] at hs
    cases hs
  | joins pid group =>
    intro hself
    rw [step, if_neg hself] at hs
    cases hs
  | exits pid => trivial
  | disappears pid => trivial

end step

/-! ### Runs -/

/-- In a run of the server no worker is ever about to kill a running process, other than the script
that it could not read, exactly as long as all events are harmless. -/
theorem runs_spare_iff {others : Table (Owner n)} (h : Foreign others)
    (inherited : Descriptors.Table Instance.File) (ports : List Instance.Listening)
    (self group : ℤ) (events : List (Event n)) :
    Throughout step Spares (start inherited ports others self group) events ↔
      Guarded step Harmless (start inherited ports others self group) events := by
  have hstart : Spares (start inherited ports others self group) := by
    intro w hw
    rw [show plan (start inherited ports others self group).server w = [] from
      plan_start inherited ports w] at hw
    cases hw
  refine throughout_iff_guarded_of (P := fun s ↦ Orderly s ∧ Spares s)
    ⟨orderly_start h inherited ports self group, hstart⟩ (fun s hs ↦ hs.2) ?_ ?_ ?_ events
  · rintro s e s' ⟨horderly, hspares⟩ hharmless hs
    exact ⟨horderly.step hs, (horderly.spares_iff hspares hs).mpr hharmless⟩
  · rintro s e s' ⟨horderly, hspares⟩ hs hharmless hspares'
    exact hharmless ((horderly.spares_iff hspares hs).mp hspares')
  · exact fun s e stop _ hs ↦ harmless_of_error hs

/-- A worker that is alone, and whose calls do not fail, harms nobody. -/
theorem harmless_calls (s : State 1) (calls : ℕ) (pid : ℤ) :
    Guarded step Harmless s (List.replicate calls (.server (.call 0 true) pid)) := by
  induction calls generalizing s with
  | zero => exact guarded_nil
  | succ calls ih =>
    refine guarded_cons.mpr ⟨?_, fun s' _ ↦ ih s'⟩
    change HarmlessCall s 0 true pid (plan s.server 0).head?
    unfold HarmlessCall
    split
    · trivial
    · next hhead =>
      intro _ w hw
      rw [Subsingleton.elim w 0] at hw
      exact absurd hw (not_kills_of_head hhead (by decide))
    · trivial

theorem runs_spare_iff_script : Throughout step Spares
    (start Instance.terminal [.listens] machine 100 99)
    ((Instance.scriptRun 18).map (.server · 200)) := by
  refine (runs_spare_iff foreign_machine Instance.terminal [.listens] 100 99 _).mpr ?_
  rw [Instance.scriptRun, List.map_append, List.map_replicate]
  iterate 6 refine guarded_cons.mpr ⟨trivial, fun _ _ ↦ ?_⟩
  exact harmless_calls _ 18 200

end Wsic.Processes
