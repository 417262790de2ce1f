import Wsic.Lib.Transition

/-!
# The supervisor

Model of the monitoring loop of `main`, `src/main.c:167–221`, and of its signal handlers,
`src/main.c:265–291`. The main process is at one of the places where a signal can arrive
between two reads or writes of `main_serverShouldRun`; the signals, the end of the child
process and the steps of the main process itself come in any order. The second half says
for which orders `server_createInstance` is not called again once the flag is false.
-/

open Transition

namespace Wsic.Supervisor

/-- `SERVER_EXIT_FATAL`, `server.h:18`. -/
def serverExitFatal : ℕ := 10

/-- The server process that main has forked last, until main reaps it. -/
inductive Child where
  | running
  | exited (code : ℕ)
  | killed
deriving DecidableEq

/-- Where the main process stands, by the line that it runs next. -/
inductive Place where
  /-- Line 167, before the handlers are in place. -/
  | boot
  /-- Line 180, the test of the loop. -/
  | loop
  /-- Line 182. -/
  | sleep
  /-- Line 184, the call of `waitpid`. -/
  | poll
  /-- Line 187, with the exit code of the reaped child if it has exited. -/
  | reaped (code : Option ℕ)
  /-- Line 190, with the exit code of the reaped child. -/
  | exited (code : ℕ)
  /-- Lines 196 and 206, the call of `server_createInstance`. -/
  | create
  /-- Lines 202 and 212, with the result of that call. -/
  | created (newInstance : ℕ)
  /-- Line 219, outside the loop. -/
  | wait
  /-- The main process has exited. -/
  | gone
deriving DecidableEq

/-- The main process and its child. The last two fields record what main has done: the
value of `main_serverShouldRun` at each call of `server_createInstance`, and the processes
that its handlers have sent `SIGINT`. -/
structure State where
  shouldRun : Bool
  serverInstance : ℕ
  place : Place
  child : Option Child
  calls : List Bool
  interrupted : List ℕ
deriving DecidableEq

/-- What happens next. A step of the main process names the result of `fork`, as
`server_createInstance` returns it: the process, or 0 when it fails. -/
inductive Event where
  | stop
  | childExits (code : ℕ)
  | childDies
  | main (forked : ℕ)
deriving DecidableEq

/-- The event cannot happen in this state. -/
inductive Stuck where
  | stuck
deriving DecidableEq

/-- The main process before its first call of `server_createInstance`. -/
def start : State := ⟨true, 0, .boot, none, [], []⟩

/-- `handleSignalSIGINT` and `handleSignalSIGTERM`, `main.c:266–285`, which differ in what
they log only. Before the handlers are in place either signal ends the process. -/
def handleStop (s : State) : Except Stuck State :=
  match s.place with
  | .gone => .error .stuck
  | .boot => .ok { s with place := .gone }
  | _ => .ok { s with
      shouldRun := false
      interrupted := s.interrupted ++ [s.serverInstance] }

/-- The child ends by itself, at any place of the main process. The handler of `SIGCHLD`
only logs, `main.c:288–291`. -/
def childEnds (s : State) (ending : Child) : Except Stuck State :=
  if s.child = some .running then .ok { s with child := some ending } else .error .stuck

/-- A call of `server_createInstance`, `server.c:52`, in the main process, which exits when
the call fails and otherwise goes on at `next`. -/
def createInstance (s : State) (forked : ℕ) (next : Place) : State :=
  { s with
    place := if forked = 0 then .gone else next
    child := if forked = 0 then s.child else some .running
    calls := s.calls ++ [s.shouldRun] }

/-- The next step of the main process, `main.c:167–221`. -/
def main (s : State) (forked : ℕ) : Except Stuck State :=
  match s.place with
  | .boot => .ok { createInstance s forked .loop with serverInstance := forked }
  | .create => .ok (createInstance s forked (.created forked))
  | .created newInstance => .ok { s with place := .loop, serverInstance := newInstance }
  | .loop => .ok { s with place := if s.shouldRun then .sleep else .wait }
  | .sleep => .ok { s with place := .poll }
  | .poll =>
    match s.child with
    | some .running => .ok { s with place := .loop }
    | some (.exited code) => .ok { s with place := .reaped (some code), child := none }
    | some .killed => .ok { s with place := .reaped none, child := none }
    | none => .error .stuck
  | .reaped (some code) => .ok { s with place := if s.shouldRun then .exited code else .loop }
  | .reaped none => .ok { s with place := if s.serverInstance ≠ 0 then .create else .loop }
  | .exited code => .ok { s with place := if code = serverExitFatal then .gone else .create }
  | .wait =>
    if s.child = some .running then .error .stuck
    else .ok { s with place := .gone, child := none }
  | .gone => .error .stuck

/-- One event. -/
def step (s : State) : Event → Except Stuck State
  | .stop => handleStop s
  | .childExits code => childEnds s (.exited code)
  | .childDies => childEnds s .killed
  | .main forked => main s forked

/-! ### No restart after a stop request -/

/-- No call of `server_createInstance` was made with the flag already false. -/
def NoCallAfterStop (s : State) : Prop := false ∉ s.calls

/-- The main process makes its next call without another look at the flag. -/
def Restarting (s : State) : Prop :=
  match s.place with
  | .create | .reaped none => True
  | .exited code => code ≠ serverExitFatal
  | .sleep | .poll => s.child = some .killed
  | _ => False

/-- A stop request does not arrive while main is on its way to a restart, and after one the
child does not die by a signal while main is about to poll it. -/
def Harmless (s : State) : Event → Prop
  | .stop => ¬ Restarting s
  | .childDies =>
    s.child = some .running → s.shouldRun = false → s.place ≠ .sleep ∧ s.place ≠ .poll
  | _ => True

/-- No state of the run has seen a call after the stop request, nor does the main process
make one when it goes on by itself from any of them. -/
def NeverRestarts (events : List Event) : Prop :=
  ∀ done s (forks : List ℕ), done <+: events → exec step start done = .ok s →
    Throughout step NoCallAfterStop s (forks.map Event.main)

/-- What holds in every state: main polls an instance that it has, and a child that it has
not reaped. -/
structure Supervises (s : State) : Prop where
  booting : s.place = .boot → s.shouldRun = true
  booted : s.place ≠ .boot → s.place ≠ .gone → s.serverInstance ≠ 0
  created : ∀ newInstance, s.place = .created newInstance → newInstance ≠ 0 ∧ s.child ≠ none
  polled : s.place = .sleep ∨ s.place = .poll → s.child ≠ none
  reaped : s.place = .loop → s.child = none → s.shouldRun = false

/-- The states from which no order of main's own steps makes a call after a stop request. -/
structure Settled (s : State) : Prop extends Supervises s where
  noCall : NoCallAfterStop s
  notRestarting : s.shouldRun = false → ¬ Restarting s

theorem settled_start : Settled start := by
  refine ⟨⟨?_, ?_, ?_, ?_, ?_⟩, ?_, ?_⟩ <;> simp [start, NoCallAfterStop]

/-- A step of the main process, by the place where it stood. -/
theorem Supervises.main {s s' : State} {forked : ℕ} (h : Supervises s)
    (hs : main s forked = .ok s') : Supervises s' := by
  obtain ⟨shouldRun, serverInstance, place, child, calls, interrupted⟩ := s
  obtain ⟨-, hbooted, hcreated, hpolled, hreaped⟩ := h
  cases place with
  | boot | create =>
    cases hs
    by_cases hf : forked = 0
    · constructor <;> simp [createInstance, hf]
    · constructor <;> simp_all [createInstance]
  | created newInstance | sleep =>
    cases hs
    constructor <;> simp_all
  | loop =>
    cases shouldRun <;> cases hs <;> constructor <;> simp_all
  | poll =>
    obtain _ | child := child
    · cases hs
    · cases child <;> cases hs <;> constructor <;> simp_all
  | reaped code =>
    cases code <;> cases shouldRun <;> cases hs <;> constructor <;> simp_all
  | exited code =>
    cases hs
    by_cases hf : code = serverExitFatal <;> constructor <;> simp_all
  | wait =>
    simp only [Supervisor.main] at hs
    split at hs <;> cases hs
    constructor <;> simp_all
  | gone => cases hs

theorem Supervises.handleStop {s s' : State} (h : Supervises s) (hs : handleStop s = .ok s') :
    Supervises s' := by
  unfold Supervisor.handleStop at hs
  split at hs
  · cases hs
  · cases hs
    constructor <;> simp
  · next hgone hboot =>
    cases hs
    exact ⟨fun hp ↦ absurd hp hboot, h.booted, h.created, h.polled, fun _ _ ↦ rfl⟩

theorem Supervises.childEnds {s s' : State} {ending : Child} (h : Supervises s)
    (hs : childEnds s ending = .ok s') : Supervises s' := by
  unfold Supervisor.childEnds at hs
  split at hs
  · cases hs
    refine ⟨h.booting, h.booted, fun n hn ↦ ⟨(h.created n hn).1, ?_⟩, ?_, ?_⟩ <;> simp
  · cases hs

theorem Supervises.step {s s' : State} {e : Event} (h : Supervises s) (hs : step s e = .ok s') :
    Supervises s' := by
  cases e with
  | stop => exact h.handleStop hs
  | childExits code => exact h.childEnds hs
  | childDies => exact h.childEnds hs
  | main forked => exact h.main hs

/-- Only the steps at line 167 and at lines 196 and 206 make a call. -/
theorem calls_of_main {s s' : State} {forked : ℕ} (hs : main s forked = .ok s') :
    s'.calls = s.calls ∨
      (s.place = .boot ∨ s.place = .create) ∧ s'.calls = s.calls ++ [s.shouldRun] := by
  unfold main at hs
  split at hs
  case h_1 hp =>
    cases hs
    exact .inr ⟨.inl hp, rfl⟩
  case h_2 hp =>
    cases hs
    exact .inr ⟨.inr hp, rfl⟩
  case h_6 => split at hs <;> cases hs <;> exact .inl rfl
  case h_10 =>
    split at hs <;> cases hs
    exact .inl rfl
  all_goals cases hs <;> exact .inl rfl

theorem shouldRun_of_main {s s' : State} {forked : ℕ} (hs : main s forked = .ok s') :
    s'.shouldRun = s.shouldRun := by
  unfold main at hs
  split at hs
  case h_6 => split at hs <;> cases hs <;> rfl
  case h_10 =>
    split at hs <;> cases hs
    rfl
  all_goals cases hs <;> rfl

/-- After a stop request a step of main does not start on a way to a restart. -/
theorem restarting_of_main {s s' : State} {forked : ℕ} (hs : main s forked = .ok s')
    (hstop : s.shouldRun = false) (hr : Restarting s') : Restarting s := by
  obtain ⟨shouldRun, serverInstance, place, child, calls, interrupted⟩ := s
  cases hstop
  cases place with
  | boot | created newInstance | loop =>
    cases hs
    by_cases hf : forked = 0 <;> simp [createInstance, hf, Restarting] at hr
  | create => trivial
  | sleep =>
    cases hs
    exact hr
  | poll =>
    obtain _ | child := child
    · cases hs
    · cases child <;> cases hs <;> first | rfl | cases hr
  | reaped code =>
    cases code with
    | none => trivial
    | some code =>
      cases hs
      cases hr
  | exited code =>
    cases hs
    by_cases hf : code = serverExitFatal
    · simp [hf, Restarting] at hr
    · exact hf
  | wait =>
    simp only [main] at hs
    split at hs <;> cases hs
    cases hr
  | gone => cases hs

theorem Settled.main {s s' : State} {forked : ℕ} (h : Settled s) (hs : main s forked = .ok s') :
    Settled s' := by
  have hrun := shouldRun_of_main hs
  refine ⟨h.toSupervises.main hs, ?_, ?_⟩
  · rcases calls_of_main hs with hc | ⟨hp, hc⟩
    · rw [NoCallAfterStop, hc]
      exact h.noCall
    · have hcall : s.shouldRun = true := by
        rcases hp with hp | hp
        · exact h.booting hp
        · by_contra hstop
          exact h.notRestarting (by simpa using hstop) (by simp [Restarting, hp])
      rw [NoCallAfterStop, hc, hcall]
      simpa using show false ∉ s.calls from h.noCall
  · intro hstop hr
    exact h.notRestarting (hrun ▸ hstop) (restarting_of_main hs (hrun ▸ hstop) hr)

/-- A harmless event keeps the state settled. -/
theorem Settled.step {s s' : State} {e : Event} (h : Settled s) (hharm : Harmless s e)
    (hs : step s e = .ok s') : Settled s' := by
  have hsup := h.toSupervises.step hs
  cases e with
  | stop =>
    change handleStop s = .ok s' at hs
    unfold handleStop at hs
    split at hs
    · cases hs
    · cases hs
      exact ⟨hsup, h.noCall, fun _ hr ↦ hr⟩
    · cases hs
      exact ⟨hsup, h.noCall, fun _ ↦ hharm⟩
  | childExits code =>
    change childEnds s _ = .ok s' at hs
    unfold childEnds at hs
    split at hs <;> cases hs
    refine ⟨hsup, h.noCall, fun hstop hr ↦ h.notRestarting hstop ?_⟩
    unfold Restarting at hr ⊢
    split at hr <;> simp_all
  | childDies =>
    change childEnds s _ = .ok s' at hs
    unfold childEnds at hs
    split at hs <;> cases hs
    next hchild =>
    refine ⟨hsup, h.noCall, fun hstop hr ↦ h.notRestarting hstop ?_⟩
    obtain ⟨hsleep, hpoll⟩ := hharm hchild hstop
    unfold Restarting at hr ⊢
    split at hr <;> simp_all
  | main forked => exact h.main hs

theorem harmless_of_stuck {s : State} {e : Event} {reason : Stuck} (hs : step s e = .error reason) :
    Harmless s e := by
  cases e with
  | stop =>
    change handleStop s = .error reason at hs
    unfold handleStop at hs
    split at hs
    · next hp => simp [Harmless, Restarting, hp]
    · cases hs
    · cases hs
  | childExits code => trivial
  | childDies =>
    change childEnds s _ = .error reason at hs
    unfold childEnds at hs
    split at hs
    · cases hs
    · next hchild => exact fun hr ↦ absurd hr hchild
  | main forked => trivial

/-- The main process comes to a call with the flag already false by itself. -/
def CallsAgain (s : State) : Prop :=
  ∃ (forks : List ℕ) (s' : State),
    exec step s (forks.map Event.main) = .ok s' ∧ ¬ NoCallAfterStop s'

theorem callsAgain_of_main {s s' : State} {forked : ℕ} (hs : main s forked = .ok s')
    (h : CallsAgain s') : CallsAgain s := by
  obtain ⟨forks, t, ht, hcall⟩ := h
  refine ⟨forked :: forks, t, ?_, hcall⟩
  rw [List.map_cons, exec, List.foldlM_cons]
  change main s forked >>= _ = _
  rw [hs]
  exact ht

theorem callsAgain_of_create {s : State} (hp : s.place = .create) (hstop : s.shouldRun = false) :
    CallsAgain s := by
  refine ⟨[0], createInstance s 0 (.created 0), ?_, ?_⟩
  · simp [exec, step, main, hp]
  · simp [NoCallAfterStop, createInstance, hstop]

theorem callsAgain_of_reaped {s : State} (hp : s.place = .reaped none)
    (hinst : s.serverInstance ≠ 0) (hstop : s.shouldRun = false) : CallsAgain s := by
  have hs : main s 0 = .ok { s with place := .create } := by simp [main, hp, hinst]
  exact callsAgain_of_main hs (callsAgain_of_create rfl hstop)

theorem callsAgain_of_poll {s : State} (hp : s.place = .poll) (hchild : s.child = some .killed)
    (hinst : s.serverInstance ≠ 0) (hstop : s.shouldRun = false) : CallsAgain s := by
  have hs : main s 0 = .ok { s with place := .reaped none, child := none } := by
    simp [main, hp, hchild]
  exact callsAgain_of_main hs (callsAgain_of_reaped rfl hinst hstop)

/-- After a stop request a main process on its way to a restart makes the call by itself. -/
theorem callsAgain_of_restarting {s : State} (h : Supervises s) (hstop : s.shouldRun = false)
    (hr : Restarting s) : CallsAgain s := by
  have hinst : s.place ≠ .boot → s.place ≠ .gone → s.serverInstance ≠ 0 := h.booted
  unfold Restarting at hr
  split at hr
  · next hp => exact callsAgain_of_create hp hstop
  · next hp => exact callsAgain_of_reaped hp (hinst (by simp [hp]) (by simp [hp])) hstop
  · next code hp =>
    have hs : main s 0 = .ok { s with place := .create } := by simp [main, hp, hr]
    exact callsAgain_of_main hs (callsAgain_of_create rfl hstop)
  · next hp =>
    have hs : main s 0 = .ok { s with place := .poll } := by simp [main, hp]
    apply callsAgain_of_main hs
    exact callsAgain_of_poll rfl hr (hinst (by simp [hp]) (by simp [hp])) hstop
  · next hp => exact callsAgain_of_poll hp hr (hinst (by simp [hp]) (by simp [hp])) hstop
  · cases hr

/-- An event that is not harmless leaves main on its way to a call. -/
theorem Settled.callsAgain {s s' : State} {e : Event} (h : Settled s)
    (hs : Supervisor.step s e = .ok s') (hharm : ¬ Harmless s e) : CallsAgain s' := by
  have hsup := h.toSupervises.step hs
  cases e with
  | stop =>
    have hr : Restarting s := by simpa [Harmless] using hharm
    change handleStop s = .ok s' at hs
    unfold handleStop at hs
    split at hs
    · cases hs
    · next hp => simp [Restarting, hp] at hr
    · cases hs
      exact callsAgain_of_restarting hsup rfl hr
  | childDies =>
    simp only [Harmless, Classical.not_imp, not_and_or, not_not] at hharm
    obtain ⟨hchild, hstop, hp⟩ := hharm
    simp only [Supervisor.step, childEnds, hchild, if_true] at hs
    cases hs
    apply callsAgain_of_restarting hsup hstop
    rcases hp with hp | hp <;> simp [Restarting, hp]
  | childExits code => exact absurd trivial hharm
  | main forked => exact absurd trivial hharm

/-- `server_createInstance` is not called after a stop request exactly when every event of
the run is harmless. -/
theorem neverRestarts_iff (events : List Event) :
    NeverRestarts events ↔ Guarded step Harmless start events := by
  rw [← throughout_iff_guarded_of (P := Settled)
    (Q := fun s ↦ ∀ forks : List ℕ, Throughout step NoCallAfterStop s (forks.map Event.main))
    settled_start ?_ (fun _ _ _ h hharm hs ↦ h.step hharm hs) ?_
    (fun _ _ _ _ hs ↦ harmless_of_stuck hs)]
  · exact ⟨fun h done s hd he forks ↦ h done s forks hd he,
      fun h done s forks hd he ↦ h done s hd he forks⟩
  · intro s h forks
    have hmain : Guarded step Harmless s (forks.map Event.main) := by
      intro mains e t hd _
      obtain ⟨forked, -, rfl⟩ := List.mem_map.mp (hd.subset (by simp) : e ∈ forks.map Event.main)
      trivial
    have hset := hmain.throughout h (fun _ _ _ h hharm hs ↦ h.step hharm hs)
    exact fun mains t hd ht ↦ (hset mains t hd ht).noCall
  · intro s e s' h hs hharm hall
    obtain ⟨forks, t, ht, hcall⟩ := h.callsAgain hs hharm
    exact hcall (hall forks _ t (List.prefix_refl _) ht)

/-- A stop request arrives in the sleep, then the child dies by a signal: main polls it and
forks a server that no handler has told to stop. -/
theorem not_neverRestarts_of_crash :
    let events := [Event.main 7, .main 0, .stop, .childDies, .main 0, .main 0, .main 0, .main 8,
      .main 0]
    exec step start events = .ok ⟨false, 8, .loop, some .running, [true, false], [7]⟩ ∧
      ¬ Throughout step NoCallAfterStop start events ∧ ¬ NeverRestarts events := by
  intro events
  have hrun : exec step start events =
      .ok ⟨false, 8, .loop, some .running, [true, false], [7]⟩ := rfl
  have hcall : ¬ NoCallAfterStop ⟨false, 8, .loop, some .running, [true, false], [7]⟩ := by
    simp [NoCallAfterStop]
  refine ⟨hrun, fun h ↦ hcall ?_, fun h ↦ hcall ?_⟩
  · exact h events _ (List.prefix_refl _) hrun
  · exact h events _ [] (List.prefix_refl _) hrun [] _ (List.prefix_refl _) rfl

end Wsic.Supervisor
