import Wsic.Lib.ProcessTable
import Wsic.Server.InstanceRuns

/-!
# The processes of a server instance

`Wsic.Server.Instance` with the table of the processes of the machine: `fork` of `cgi_spawn`,
`src/cgi/cgi.c:46`, `waitpid` of `cgi_waitForExit`, `cgi.c:219`, and `kill` of `cgi_closeProcess`,
`cgi.c:226`. Scripts exit, and other processes come and go, at any time.
-/

open CMemory Transition ProcessTable

namespace Wsic.Processes

open Cgi

variable {n : ℕ}

/-! ### The calls of a worker -/

/-- The calls of `worker_returnCGI` that are still to be made. -/
def todoOf : Instance.Activity → List Call
  | .cgi _ todo => todo
  | _ => []

/-- The calls that a worker has before it. -/
def plan (s : Instance.State n) (w : Fin n) : List Call := todoOf (s.activity w)

/-- What is left behind the next call. -/
def afterCall (succeeds : Bool) : List Call → List Call
  | [] => []
  | .pipe _ :: todo | .fork :: todo => if succeeds then todo else spawnFailed
  | .read :: todo => if succeeds then todo else readFailed
  | _ :: todo => todo

/-- The worker will wait for its script. -/
def Awaits (todo : List Call) : Prop := .fork ∉ todo ∧ .wait ∈ todo

instance (todo : List Call) : Decidable (Awaits todo) := inferInstanceAs (Decidable (_ ∧ _))

/-! ### The system -/

/-- Who cares for a process. -/
inductive Owner (n : ℕ) where
  | other
  /-- The script of a worker that will wait for it. -/
  | worker (w : Fin n)
  /-- A script that its worker could not read, and that nobody will wait for. -/
  | abandoned (w : Fin n)
deriving DecidableEq

/-- The server with the processes of the machine. It has the number `self`, and `pid w` is the
field of the `cgi_process_t` of worker `w`. -/
structure State (n : ℕ) where
  server : Instance.State n
  table : Table (Owner n)
  pid : Fin n → ℤ
  self : ℤ
  group : ℤ

/-- What happens next. An event of the server has the number that `fork` returns, or that
`malloc` leaves in the field `pid`. -/
inductive Event (n : ℕ) where
  | server (e : Instance.Event n) (pid : ℤ)
  | exits (pid : ℤ)
  | appears (pid group : ℤ)
  | joins (pid group : ℤ)
  | disappears (pid : ℤ)

/-- Why an event does not happen: the server does not make it, or is killed by it. -/
inductive Stop where
  | halted (reason : WorkerPool.Halted)
  | killed

namespace State

/-- What the next call of a worker does to the processes. -/
def call (s : State n) (w : Fin n) (succeeds : Bool) (pid : ℤ) : Except Stop (State n) :=
  match (plan s.server w).head? with
  | some .fork =>
    if !succeeds then .ok { s with pid := Function.update s.pid w (-1) }
    else if 0 < pid ∧ s.table pid = none then
      .ok { s with
        table := s.table.add pid ⟨.worker w, s.group, false⟩
        pid := Function.update s.pid w pid }
    else .error (.halted .disabled)
  | some .read =>
    if succeeds then .ok s
    else .ok { s with
      table := s.table.alter (fun _ process ↦ process.owner = .worker w)
        ({ · with owner := .abandoned w }) }
  | some .wait =>
    match s.table (s.pid w) with
    | some process =>
      -- there are no other children
      if process.owner = .other then .ok s
      else if process.zombie then .ok { s with table := s.table.remove (s.pid w) }
      else .error (.halted .disabled)
    | none => .ok s
  | some .kill =>
    match s.table s.self with
    | some process =>
      if Signals s.self s.group (s.pid w) s.self process then .error .killed
      else .ok { s with table := s.table.kill s.self s.group (s.pid w) }
    | none => .ok { s with table := s.table.kill s.self s.group (s.pid w) }
  | _ => .ok s

/-- What an event of the server does to the processes. -/
def follow (s : State n) (pid : ℤ) : Instance.Event n → Except Stop (State n)
  | .begin w (some _) => .ok { s with pid := Function.update s.pid w pid }
  | .call w succeeds => s.call w succeeds pid
  | _ => .ok s

end State

/-- One event. -/
def step (s : State n) : Event n → Except Stop (State n)
  | .server e pid =>
    match Instance.step s.server e, s.follow pid e with
    | .ok server, .ok s => .ok { s with server := server }
    | .error reason, _ => .error (.halted reason)
    | _, .error stop => .error stop
  | .exits pid =>
    match s.table pid with
    | some process =>
      if process.owner = .other then .error (.halted .disabled)
      else .ok { s with
        table := s.table.alter (fun m _ ↦ m = pid) ({ · with zombie := true }) }
    | none => .error (.halted .disabled)
  | .appears pid group =>
    if 0 < pid ∧ s.table pid = none then
      .ok { s with table := s.table.add pid ⟨.other, group, false⟩ }
    else .error (.halted .disabled)
  | .joins pid group =>
    if pid = s.self then .error (.halted .disabled)
    else .ok { s with table := s.table.alter (fun m _ ↦ m = pid) ({ · with group := group }) }
  | .disappears pid =>
    match s.table pid with
    | some process =>
      if process.owner = .other ∧ pid ≠ s.self then .ok { s with table := s.table.remove pid }
      else .error (.halted .disabled)
    | none => .error (.halted .disabled)

/-- The server when it begins to accept connections, among these processes. -/
def start (inherited : Descriptors.Table Instance.File) (ports : List Instance.Listening)
    (others : Table (Owner n)) (self group : ℤ) : State n :=
  ⟨Instance.start inherited ports, others, fun _ ↦ 0, self, group⟩

/-- Processes that are not scripts of the server. -/
def Foreign (others : Table (Owner n)) : Prop :=
  ∀ pid process, others pid = some process → 0 < pid ∧ process.owner = .other

/-! ### The calls of the server -/

theorem plan_eq_of_activity {s s' : Instance.State n} (h : s'.activity = s.activity) :
    plan s' = plan s := by
  funext w
  rw [plan, plan, h]

theorem plan_setActivity (s : Instance.State n) (w : Fin n) (activity : Instance.Activity) :
    plan (s.setActivity w activity) = Function.update (plan s) w (todoOf activity) :=
  Function.comp_update todoOf s.activity w activity

/-- A worker without calls is left with none. -/
theorem update_plan_nil {s : Instance.State n} {w : Fin n} (h : plan s w = []) :
    Function.update (plan s) w [] = plan s := by
  rw [← h, Function.update_eq_self]

theorem plan_of_activity {s : Instance.State n} {w : Fin n} {activity : Instance.Activity}
    (h : s.activity w = activity) : plan s w = todoOf activity := by
  rw [plan, h]

theorem plan_begin {s s' : Instance.State n} {w : Fin n} {script : Option (Stream × Side → ℕ)}
    (hs : s.begin w script = .ok s') :
    plan s w = [] ∧ plan s' = if script.isSome then Function.update (plan s) w returnCGI
      else plan s := by
  unfold Instance.State.begin at hs
  split at hs
  · next _ hactivity =>
    have hnil : plan s w = [] := plan_of_activity hactivity
    cases hs
    refine ⟨hnil, ?_⟩
    rw [plan_setActivity, if_neg (by decide)]
    exact update_plan_nil hnil
  · next _ hactivity =>
    have hnil : plan s w = [] := plan_of_activity hactivity
    cases hs
    exact ⟨hnil, plan_setActivity s w _⟩
  · cases hs

theorem plan_call {s s' : Instance.State n} {w : Fin n} {succeeds : Bool}
    (hs : s.call w succeeds = .ok s') :
    plan s' = Function.update (plan s) w (afterCall succeeds (plan s w)) := by
  unfold Instance.State.call at hs
  split at hs
  · next process stream todo hactivity =>
    rw [plan_of_activity hactivity]
    split at hs
    · next h =>
      cases hs
      rw [h]
      exact plan_setActivity _ _ _
    · next h =>
      cases hs
      rw [Bool.eq_false_of_not_eq_true h]
      exact plan_setActivity _ _ _
  any_goals cases hs
  -- the other calls only pass on what is left
  all_goals
    next hactivity =>
      rw [plan_of_activity hactivity]
      exact plan_setActivity _ _ _

/-- The pool does not change what the workers have before them. -/
theorem plan_work {s s' : Instance.State n} {a : WorkerPool.Action n Instance.Connection}
    (hs : s.work a = .ok s') : plan s' = plan s := by
  have hpop (w : Fin n) (a : WorkerPool.Action n Instance.Connection) (hs : s.pop w a = .ok s') :
      plan s' = plan s := by
    unfold Instance.State.pop at hs
    split at hs
    · split at hs
      · cases hs
        rfl
      · cases hs
        rfl
    · cases hs
  unfold Instance.State.work at hs
  split at hs
  · exact hpop _ _ hs
  · exact hpop _ _ hs
  · split at hs
    · cases hs
      rfl
    · cases hs
  · split at hs
    · cases hs
      rfl
    · cases hs
  · cases hs

/-- A worker that is done has no calls before it. -/
theorem plan_finish {s s' : Instance.State n} {w : Fin n} {shutdown : Bool}
    (hs : s.finish w shutdown = .ok s') : plan s' = plan s := by
  unfold Instance.State.finish at hs
  split at hs
  · cases hs
  · cases hs
  · next hcgi _ =>
    cases hs
    have hnil : plan s w = [] := by
      cases hactivity : s.activity w with
      | cgi process todo => exact absurd hactivity (hcgi process todo)
      | _ => exact plan_of_activity hactivity
    refine Eq.trans ?_ (update_plan_nil hnil)
    exact Function.comp_update todoOf s.activity w .request
  · cases hs
  · cases hs

theorem plan_close {s s' : Instance.State n} {shutdown : Bool}
    (hs : s.close shutdown = .ok s') : plan s' = plan s := by
  unfold Instance.State.close at hs
  split at hs
  · cases hs
    rfl
  · split at hs
    · split at hs
      · cases hs
        rfl
      · cases hs
    · unfold Instance.State.closePool at hs
      split at hs
      · cases hs
      · split at hs
        · split at hs
          · split at hs
            · cases hs
              exact plan_eq_of_activity (by simp)
            · cases hs
              rfl
          · cases hs
            rfl
        · cases hs
          rfl

theorem plan_accept {s s' : Instance.State n} (hs : s.accept = .ok s') : plan s' = plan s := by
  unfold Instance.State.accept at hs
  split at hs
  · cases hs
    rfl
  · cases hs

theorem plan_setUp {s s' : Instance.State n} {answers : Instance.SetUp}
    (hs : s.setUp answers = .ok s') : plan s' = plan s := by
  unfold Instance.State.setUp at hs
  split at hs
  · split at hs
    · cases hs
      rfl
    · split at hs
      · cases hs
        rfl
      · split at hs
        · split at hs
          · cases hs
          · cases hs
            exact plan_eq_of_activity (by simp)
          · cases hs
            rfl
        · cases hs
          rfl
  · cases hs

theorem plan_push {s s' : Instance.State n} {signalled : Finset (Option (Fin n))}
    (hs : s.push signalled = .ok s') : plan s' = plan s := by
  unfold Instance.State.push at hs
  split at hs
  · split at hs
    · cases hs
      rfl
    · cases hs
  · cases hs

/-! ### One event -/

variable {s s' : State n}

theorem step_server {e : Instance.Event n} {pid : ℤ} (hs : step s (.server e pid) = .ok s') :
    ∃ server s₁, Instance.step s.server e = .ok server ∧ s.follow pid e = .ok s₁ ∧
      s' = { s₁ with server := server } := by
  simp only [step] at hs
  split at hs
  · next server s₁ hserver hfollow =>
    cases hs
    exact ⟨server, s₁, hserver, hfollow, rfl⟩
  · cases hs
  · cases hs

/-- An event of the server is a call for a script, the beginning of a request for one, or nothing
to the processes. -/
theorem server_cases {e : Instance.Event n} {pid : ℤ} (hs : step s (.server e pid) = .ok s') :
    (∃ w succeeds s₁, e = .call w succeeds ∧ s.call w succeeds pid = .ok s₁ ∧
      s' = { s₁ with server := s'.server } ∧ plan s'.server =
        Function.update (plan s.server) w (afterCall succeeds (plan s.server w))) ∨
    (∃ w fresh, e = .begin w (some fresh) ∧ plan s.server w = [] ∧
      s' = { s with server := s'.server, pid := Function.update s.pid w pid } ∧
      plan s'.server = Function.update (plan s.server) w returnCGI) ∨
    ((∀ w succeeds, e ≠ .call w succeeds) ∧ s' = { s with server := s'.server } ∧
      plan s'.server = plan s.server) := by
  obtain ⟨server, s₁, hserver, hfollow, rfl⟩ := step_server hs
  cases e with
  | call w succeeds => exact .inl ⟨w, succeeds, s₁, rfl, hfollow, rfl, plan_call hserver⟩
  | begin w script =>
    obtain ⟨hnil, hplan⟩ := plan_begin hserver
    cases script with
    | some fresh =>
      cases hfollow
      exact .inr (.inl ⟨w, fresh, rfl, hnil, rfl, hplan⟩)
    | none =>
      cases hfollow
      exact .inr (.inr ⟨(fun _ _ he ↦ by cases he), rfl, hplan⟩)
  | accept =>
    cases hfollow
    exact .inr (.inr ⟨(fun _ _ he ↦ by cases he), rfl, plan_accept hserver⟩)
  | setUp answers =>
    cases hfollow
    exact .inr (.inr ⟨(fun _ _ he ↦ by cases he), rfl, plan_setUp hserver⟩)
  | push signalled =>
    cases hfollow
    exact .inr (.inr ⟨(fun _ _ he ↦ by cases he), rfl, plan_push hserver⟩)
  | work a =>
    cases hfollow
    exact .inr (.inr ⟨(fun _ _ he ↦ by cases he), rfl, plan_work hserver⟩)
  | finish w shutdown =>
    cases hfollow
    exact .inr (.inr ⟨(fun _ _ he ↦ by cases he), rfl, plan_finish hserver⟩)
  | close shutdown =>
    cases hfollow
    exact .inr (.inr ⟨(fun _ _ he ↦ by cases he), rfl, plan_close hserver⟩)

theorem step_exits {pid : ℤ} (hs : step s (.exits pid) = .ok s') :
    s' = { s with table := s.table.alter (fun m _ ↦ m = pid) ({ · with zombie := true }) } := by
  simp only [step] at hs
  split at hs
  · split at hs
    · cases hs
    · cases hs
      rfl
  · cases hs

theorem step_appears {pid group : ℤ} (hs : step s (.appears pid group) = .ok s') :
    (0 < pid ∧ s.table pid = none) ∧
      s' = { s with table := s.table.add pid ⟨.other, group, false⟩ } := by
  simp only [step] at hs
  split at hs
  · next hp =>
    cases hs
    exact ⟨hp, rfl⟩
  · cases hs

theorem step_joins {pid group : ℤ} (hs : step s (.joins pid group) = .ok s') :
    pid ≠ s.self ∧
      s' = { s with table := s.table.alter (fun m _ ↦ m = pid) ({ · with group := group }) } := by
  simp only [step] at hs
  split at hs
  · cases hs
  · next hself =>
    cases hs
    exact ⟨hself, rfl⟩

theorem step_disappears {pid : ℤ} (hs : step s (.disappears pid) = .ok s') :
    ∃ process, s.table pid = some process ∧ process.owner = .other ∧
      s' = { s with table := s.table.remove pid } := by
  simp only [step] at hs
  split at hs
  · next process hp =>
    split at hs
    · next howner =>
      cases hs
      exact ⟨process, hp, howner.1, rfl⟩
    · cases hs
  · cases hs

end Wsic.Processes
