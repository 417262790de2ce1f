import Wsic.Lib.Transition
import Wsic.Server.OwnershipSteps

/-!
# Runs of a server instance

All interleavings of the events of `Wsic.Server.Instance`: for which runs every number that a
thread uses names the file that it was opened for, that the streams of a script are the pipes of
its process, and which descriptors stay open for ever.
-/

open CMemory Descriptors Transition

namespace Wsic.Instance

open WorkerPool Cgi MessageQueueT

variable {n : ℕ} {base : Multiset Descriptor} {s s' : State n} {queued : List (Option Connection)}

/-! ### The start -/

theorem listen_spec (s : State n) (port : Listening) :
    (listen s port).pool = s.pool ∧ (listen s port).accepted = s.accepted ∧
      (listen s port).connection = s.connection ∧ (listen s port).activity = s.activity ∧
      Change s.table (s.sockets.map Slot.held).sum s.lost (listen s port).table
        ((listen s port).sockets.map Slot.held).sum (listen s port).lost := by
  unfold listen
  have hopens := Change.opens s.table (s.sockets.map Slot.held).sum s.lost (.listening s.count)
  split
  · refine ⟨rfl, rfl, rfl, rfl, .of_eq ?_⟩
    simp
  · dsimp only
    split
    · refine ⟨rfl, rfl, rfl, rfl, ?_⟩
      simpa [← Multiset.singleton_add, add_comm] using hopens
    · refine ⟨rfl, rfl, rfl, rfl, ?_⟩
      simpa using hopens.trans (.loses _ _ _ _)

/-- In the beginning the process holds what it was forked with, and its sockets. -/
theorem start_spec (inherited : Table File) (ports : List Listening) :
    Tidy (start inherited ports : State n) [] ∧
      Balanced (start inherited ports : State n).table
        ((start inherited ports : State n).held ↑inherited.opened [])
        (start inherited ports : State n).lost := by
  suffices h : ∀ s : State n, Tidy s [] → Balanced s.table (s.held ↑inherited.opened []) s.lost →
      Tidy (ports.foldl listen s) [] ∧ Balanced (ports.foldl listen s).table
        ((ports.foldl listen s).held ↑inherited.opened []) (ports.foldl listen s).lost by
    refine h _ ⟨ListT.holds_create, fun w ↦ rfl, nofun⟩ ?_
    have hheld := balanced_opened inherited
    simpa [State.held, heldOf, heldByQueue, State.heldBy, Activity.held] using hheld
  induction ports with
  | nil => exact fun s htidy hbalanced ↦ ⟨htidy, hbalanced⟩
  | cons port ports ih =>
    intro s htidy hbalanced
    obtain ⟨hpool, haccepted, hconnection, hactivity, hchange⟩ := listen_spec s port
    refine ih (listen s port) ⟨?_, ?_, ?_⟩ ?_
    · rw [hpool]
      exact htidy.holds
    · rw [hpool, hconnection]
      exact htidy.agrees
    · rw [hactivity]
      exact htidy.planned
    · have hframe := hchange.frame
        (↑inherited.opened + heldOf s.accepted + heldByQueue [] + ∑ w, s.heldBy w)
      have hsplit (t : State n) : t.held ↑inherited.opened [] = (t.sockets.map Slot.held).sum +
          (↑inherited.opened + heldOf t.accepted + heldByQueue [] + ∑ w, t.heldBy w) := by
        rw [State.held]
        ac_rfl
      rw [hsplit] at hbalanced
      rw [hsplit, haccepted, heldBy_congr hconnection hactivity]
      exact hframe.balanced hbalanced

/-! ### Every number names its file -/

/-- Every number that a thread uses names the file that it was opened for. -/
def Owns (base : Multiset Descriptor) (s : State n) : Prop :=
  ∃ queued, s.pool.system.queue.list.Holds queued ∧ Sound s.table (s.held base queued)

/-- No thread uses the number of a stray close. -/
def Harmless (base : Multiset Descriptor) (s : State n) (e : Event n) : Prop :=
  ∀ number, stray s e = some number →
    ∀ queued, s.pool.system.queue.list.Holds queued → number ∉ numbers (s.held base queued)

/-- A harmless event leaves every number with its file. -/
theorem Tidy.sound {e : Event n} (htidy : Tidy s queued)
    (hsound : Sound s.table (s.held base queued)) (hharmless : Harmless base s e)
    (hs : Instance.step s e = .ok s') :
    ∃ queued', Tidy s' queued' ∧ Sound s'.table (s'.held base queued') := by
  obtain ⟨queued', htidy', hfollows⟩ := htidy.step base hs
  refine ⟨queued', htidy', ?_⟩
  cases hstray : Instance.stray s e with
  | none =>
    rw [hstray] at hfollows
    exact hfollows.sound hsound
  | some number =>
    rw [hstray] at hfollows
    obtain ⟨htable, hheld, -⟩ := hfollows
    rw [htable, hheld]
    exact (hsound.close_iff number).mpr (hharmless number hstray queued htidy.holds)

theorem sound_start (inherited : Table File) (ports : List Listening) :
    ∃ queued, Tidy (start inherited ports : State n) queued ∧
      Sound (start inherited ports : State n).table
        ((start inherited ports : State n).held ↑inherited.opened queued) := by
  obtain ⟨htidy, hbalanced⟩ := start_spec (n := n) inherited ports
  exact ⟨[], htidy, hbalanced.sound.of_le (Multiset.le_add_right _ _)⟩

/-- In a run of the server every number that a thread uses names the file that it was opened for
exactly as long as no stray close hits one: a worker that frees its process closes numbers that
it has closed before or that were never set, and the shutdown closes the number 0 for each entry
that was left zero. -/
theorem runs_own_iff (inherited : Table File) (ports : List Listening) (events : List (Event n)) :
    Throughout step (Owns ↑inherited.opened) (start inherited ports) events ↔
      Guarded step (Harmless ↑inherited.opened) (start inherited ports) events := by
  refine throughout_iff_guarded_of
    (P := fun s ↦ ∃ queued, Tidy s queued ∧ Sound s.table (s.held ↑inherited.opened queued))
    (sound_start inherited ports) ?_ ?_ ?_ ?_ events
  · rintro s ⟨queued, htidy, hsound⟩
    exact ⟨queued, htidy.holds, hsound⟩
  · rintro s e s' ⟨queued, htidy, hsound⟩ hharmless hs
    exact htidy.sound hsound hharmless hs
  · rintro s e s' ⟨queued, htidy, hsound⟩ hs hharmless ⟨queued', hholds', hsound'⟩
    apply hharmless
    intro number hstray ws hws
    rw [hws.unique htidy.holds]
    obtain ⟨htidy', htable, hheld, -⟩ := htidy.stray ↑inherited.opened hs hstray
    rw [htable, hholds'.unique htidy'.holds, hheld] at hsound'
    exact (hsound.close_iff number).mp hsound'
  · rintro s e halted - hs number hstray
    obtain ⟨s', hs'⟩ := step_of_stray hstray
    rw [hs] at hs'
    cases hs'

/-- A connection that is accepted while a script runs, and gets a number that its worker has
closed. -/
def acceptedMeanwhile : List (Event 1) :=
  [.accept, .push ∅, .work (.pop 0), .work (.test 0), .begin 0 (some fun _ ↦ 0)] ++
    List.replicate 5 (.call 0 true) ++ [.accept] ++ List.replicate 7 (.call 0 true)

example : ¬ Throughout step (Owns 0) (start ⟨[]⟩ []) acceptedMeanwhile := by
  intro h
  obtain ⟨s, hs, haccepted, hfile⟩ : ∃ s, exec step (start ⟨[]⟩ []) acceptedMeanwhile = .ok s ∧
      s.accepted = some ⟨1, 4⟩ ∧ s.table.file 1 = none := ⟨_, rfl, rfl, rfl⟩
  obtain ⟨queued, -, hsound⟩ := h _ s (List.prefix_refl _) hs
  have hmem : (1, File.connection 4) ∈ s.held 0 queued := by
    rw [held_eq_accepted, haccepted]
    exact Multiset.mem_add.mpr (.inl (Multiset.mem_singleton_self _))
  have hopen := hsound.file _ hmem
  rw [hfile] at hopen
  cases hopen

/-! ### The streams of a script -/

/-- The numbers of a process, as the child finds them. -/
def ends (process : Process) (stream : Stream) (side : Side) : ℕ := (process (stream, side)).number

/-- A worker that forks starts a script whose standard streams are the pipes of its process. -/
def Connects (s : State n) : Prop :=
  ∀ w process todo, s.activity w = .cgi process (.fork :: todo) →
    ∃ pipes table, redirect s.table (ends process) = some table ∧ Connected table pipes ∧
      ∀ stream side, (process (stream, side)).file = some (pipes stream side) ∧
        ∃ id, pipes stream side = .pipe id stream side

/-- What a process has open is held beside the descriptors from the start. -/
theorem mem_held_of_process (base : Multiset Descriptor) (queued : List (Option Connection))
    {w : Fin n} {process : Process} {todo : List Call}
    (hactivity : s.activity w = .cgi process todo) {e : Stream × Side} {file : File}
    (hfile : (process e).file = some file) :
    ∃ others, s.held base queued = base + others ∧ ((process e).number, file) ∈ others := by
  refine ⟨(s.sockets.map Slot.held).sum + heldOf s.accepted + heldByQueue queued +
    ∑ w, s.heldBy w, by simp only [State.held, add_assoc], ?_⟩
  apply Multiset.mem_add.mpr
  right
  rw [Multiset.mem_sum]
  refine ⟨w, Finset.mem_univ w, ?_⟩
  rw [State.heldBy, hactivity]
  apply Multiset.mem_add.mpr
  right
  rw [Activity.held, heldByProcess, Multiset.mem_sum]
  refine ⟨e, Finset.mem_univ e, ?_⟩
  rw [Slot.held, hfile]
  exact Multiset.mem_singleton_self _

/-- A server that was started with its own standard streams open connects every script to its
pipes, as long as no stray close has hit a number in use. -/
theorem runs_connect (inherited : Table File)
    (hstandard : ∀ number < 3, inherited.file number ≠ none) (ports : List Listening)
    (events : List (Event n))
    (hharmless : Guarded step (Harmless ↑inherited.opened) (start inherited ports) events) :
    Throughout step Connects (start inherited ports) events := by
  have hinvariant := hharmless.throughout
    (P := fun s ↦ ∃ queued, Tidy s queued ∧ Sound s.table (s.held ↑inherited.opened queued))
    (sound_start inherited ports)
    (fun s e s' ⟨queued, htidy, hsound⟩ he hs ↦ htidy.sound hsound he hs)
  intro done s hdone hs w process todo hactivity
  obtain ⟨queued, htidy, hsound⟩ := hinvariant done s hdone hs
  have hplanned := htidy.planned w _ _ hactivity
  have hpipes (stream : Stream) : Call.pipe stream ∉ Call.fork :: todo := by
    intro hm
    obtain ⟨-, stream', hhead⟩ := plan_pipes _ hplanned.plan ⟨stream, hm⟩
    cases hhead
  have hopen := fun stream ↦ hplanned.piped List.mem_cons_self stream (hpipes stream)
  choose id hid using hopen
  let pipes : Stream → Side → File := fun stream side ↦ .pipe (id stream side) stream side
  have hpiped : Piped s.table (ends process) pipes := by
    refine ⟨fun stream side ↦ ?_, ?_⟩
    · obtain ⟨others, hheld, hmem⟩ := mem_held_of_process ↑inherited.opened queued
        hactivity (hid stream side)
      exact hsound.file _ (hheld ▸ Multiset.mem_add.mpr (.inr hmem))
    · intro stream side stream' side' he
      exact (File.pipe.inj he).2
  have hlarge (stream : Stream) (side : Side) : 2 < ends process stream side := by
    obtain ⟨others, hheld, hmem⟩ := mem_held_of_process ↑inherited.opened queued
      hactivity (hid stream side)
    by_contra hsmall
    obtain ⟨file, hfile⟩ := Option.ne_none_iff_exists'.mp
      (hstandard (ends process stream side) (by omega))
    have hbase : ends process stream side ∈ numbers (inherited.opened : Multiset Descriptor) :=
      Multiset.mem_map_of_mem Prod.fst (Multiset.mem_coe.mpr (Table.mem_opened.mpr hfile))
    have hothers : ends process stream side ∈ numbers others :=
      Multiset.mem_map_of_mem Prod.fst hmem
    have hnodup := hsound.nodup
    rw [hheld, numbers_add, Multiset.nodup_add] at hnodup
    exact Multiset.disjoint_left.mp hnodup.2.2 hbase hothers
  obtain ⟨table, hredirect, hconnected, -⟩ := hpiped.connected
    (fun side ↦ ⟨by have := hlarge .stdin side; omega, by have := hlarge .stdout side; omega,
      hlarge .stderr side⟩)
  exact ⟨pipes, table, hredirect, hconnected, fun stream side ↦ ⟨hid stream side, _, rfl⟩⟩

/-- The descriptors of a process that was started from a terminal. -/
def terminal : Table File := ⟨[some (.inherited 0), some (.inherited 1), some (.inherited 2)]⟩

/-- A request for a script, and the first calls of its process. -/
def scriptRun (calls : ℕ) : List (Event 1) :=
  [.accept, .setUp ⟨true, true, false, [], true⟩, .push ∅, .work (.pop 0), .work (.test 0),
    .begin 0 (some fun _ ↦ 0)] ++ List.replicate calls (.call 0 true)

theorem runs_connect_fork : Throughout step Connects (start terminal [.listens]) (scriptRun 3) := by
  apply runs_connect terminal (by decide) [.listens] (scriptRun 3)
  iterate 9 refine (guarded_cons_ok rfl).mpr ⟨fun _ h ↦ (by cases h), ?_⟩
  exact guarded_nil

/-! ### One script at a time -/

/-- The worker has a process. -/
def Activity.IsScript : Activity → Prop
  | .cgi _ _ => True
  | _ => False

/-- No descriptor is opened while another worker has a process, no pipe fails, and the shutdown
closes no open number for an entry that was left zero. -/
def Exclusive (s : State n) : Event n → Prop
  | .accept => ∀ v, ¬ (s.activity v).IsScript
  | .begin _ none => ∀ v, ¬ (s.activity v).IsScript
  | .call w succeeds => ∀ process stream todo, s.activity w = .cgi process (.pipe stream :: todo) →
      succeeds = true ∧ ∀ v, v ≠ w → ¬ (s.activity v).IsScript
  | .close shutdown => ∀ number, stray s (.close shutdown) = some number →
      s.table.file number = none
  | _ => True

/-- The numbers that are not open in a process any more are free. -/
def Spent (s : State n) : Prop :=
  ∀ w process todo, s.activity w = .cgi process todo → ∀ stream side,
    (process (stream, side)).file = none → .pipe stream ∈ todo ∨
      s.table.file (process (stream, side)).number = none

/-- Nothing is opened. -/
def Shrinks (t t' : Table File) : Prop := ∀ number, t.file number = none → t'.file number = none

theorem Shrinks.refl (t : Table File) : Shrinks t t := fun _ h ↦ h

theorem shrinks_close (t : Table File) (number : ℕ) : Shrinks t (t.close number) := by
  intro m h
  rw [Table.file_close]
  split
  · rfl
  · exact h

theorem shrinks_connectionClose (s : State n) (connection : Connection) (shutdown : Bool) :
    Shrinks s.table (s.connectionClose connection shutdown).table := by
  unfold State.connectionClose
  split
  · exact shrinks_close _ _
  · exact .refl _

/-- The workers' processes stay, while nothing is opened. -/
theorem Spent.of_shrinks (h : Spent s) (htable : Shrinks s.table s'.table)
    (hactivity : s'.activity = s.activity) : Spent s' := by
  intro w process todo hw stream side hf
  rw [hactivity] at hw
  exact (h w process todo hw stream side hf).imp_right (htable _)

/-- One worker goes on, while nothing is opened. -/
theorem Spent.setActivity {w : Fin n} {activity : Activity} {table : Table File} (count : ℕ)
    (h : Spent s) (htable : Shrinks s.table table)
    (hends : ∀ process todo, activity = .cgi process todo → ∀ stream side,
      (process (stream, side)).file = none → .pipe stream ∈ todo ∨
        table.file (process (stream, side)).number = none) :
    Spent ({ s with table := table, count := count }.setActivity w activity) := by
  intro v process todo hv stream side hf
  by_cases hvw : v = w
  · subst hvw
    exact hends process todo ((Function.update_self _ _ _).symm.trans hv) stream side hf
  · exact (h v process todo ((Function.update_of_ne hvw _ _).symm.trans hv) stream side
      hf).imp_right (htable _)

/-- A file is opened while only one worker may have a process. -/
theorem Spent.opens {w : Fin n} {activity : Activity} {table : Table File} {count : ℕ}
    (hothers : ∀ v, v ≠ w → ¬ (s.activity v).IsScript)
    (hends : ∀ process todo, activity = .cgi process todo → ∀ stream side,
      (process (stream, side)).file = none → .pipe stream ∈ todo) :
    Spent ({ s with table := table, count := count }.setActivity w activity) := by
  intro v process todo hv stream side hf
  by_cases hvw : v = w
  · subst hvw
    exact .inl (hends process todo ((Function.update_self _ _ _).symm.trans hv) stream side hf)
  · have hscript := hothers v hvw
    rw [(Function.update_of_ne hvw _ _).symm.trans hv] at hscript
    exact absurd trivial hscript

/-- Behind its pipes the numbers that a process has closed are free. -/
theorem Spent.free {w : Fin n} {process : Process} {c : Call} {todo : List Call} (h : Spent s)
    (htidy : Tidy s queued) (hactivity : s.activity w = .cgi process (c :: todo))
    (hpipe : ∀ stream, c ≠ .pipe stream) {stream : Stream} {side : Side}
    (hf : (process (stream, side)).file = none) :
    s.table.file (process (stream, side)).number = none := by
  refine (h w process _ hactivity stream side hf).resolve_left (fun hm ↦ ?_)
  obtain ⟨-, stream', hhead⟩ := plan_pipes _ (htidy.planned w _ _ hactivity).plan ⟨stream, hm⟩
  exact hpipe stream' (Option.some.inj hhead)

theorem Spent.call {w : Fin n} {succeeds : Bool} (h : Spent s) (htidy : Tidy s queued)
    (he : Exclusive s (.call w succeeds)) (hs : s.call w succeeds = .ok s') : Spent s' := by
  have hnext {process : Process} {c : Call} {todo : List Call} (todo' : List Call)
      (hactivity : s.activity w = .cgi process (c :: todo)) (hpipe : ∀ stream, c ≠ .pipe stream) :
      Spent (s.setActivity w (.cgi process todo')) := by
    refine h.setActivity s.count (.refl _) ?_
    rintro process' todo'' heq stream side hf
    cases heq
    exact .inr (h.free htidy hactivity hpipe hf)
  unfold State.call at hs
  split at hs
  · next process stream todo hactivity =>
    obtain ⟨rfl, hothers⟩ := he process stream todo hactivity
    have hplanned := htidy.planned w _ _ hactivity
    rw [if_pos rfl] at hs
    cases hs
    apply Spent.opens hothers
    intro process' todo' heq stream' side' hf
    cases heq
    have hfork := (plan_pipes _ hplanned.plan ⟨stream, List.mem_cons_self⟩).1
    exact (hplanned.pipe _ _ _).pipe_mem ((List.mem_cons.mp hfork).resolve_left nofun) hf
  · next process todo hactivity =>
    cases hs
    exact hnext _ hactivity nofun
  · next process stream side todo hactivity =>
    cases hs
    refine h.setActivity s.count (shrinks_close _ _) ?_
    rintro process' todo' heq stream' side' hf
    cases heq
    right
    rw [Table.file_close]
    by_cases hend : (stream', side') = (stream, side)
    · rw [hend, Function.update_self]
      exact if_pos rfl
    · rw [Function.update_of_ne hend] at hf ⊢
      split
      · rfl
      · exact h.free htidy hactivity nofun hf
  · next process todo hactivity =>
    cases hs
    exact hnext _ hactivity nofun
  · next process todo hactivity =>
    cases hs
    exact hnext _ hactivity nofun
  · next process todo hactivity =>
    cases hs
    exact hnext _ hactivity nofun
  · next process todo hactivity =>
    cases hs
    exact hnext _ hactivity nofun
  · cases hs
  · cases hs
    exact h.setActivity s.count (.refl _) nofun
  · cases hs
    exact h.setActivity s.count (shrinks_close _ _) nofun
  · cases hs

theorem Spent.accept (he : Exclusive s .accept) (hs : s.accept = .ok s') : Spent s' := by
  unfold State.accept at hs
  split at hs
  · cases hs
    intro w process todo hw
    have hscript := he w
    rw [show s.activity w = .cgi process todo from hw] at hscript
    exact absurd trivial hscript
  · cases hs

theorem Spent.setUp {answers : SetUp} (h : Spent s) (hs : s.setUp answers = .ok s') :
    Spent s' := by
  unfold State.setUp at hs
  repeat' split at hs
  all_goals cases hs
  · exact h.of_shrinks (shrinks_close _ _) rfl
  · exact h.of_shrinks (.refl _) rfl
  · exact h.of_shrinks (shrinks_connectionClose _ _ _) (connectionClose_activity _ _ _)
  · exact h
  · exact h

theorem Spent.push {signalled : Finset (Option (Fin n))} (h : Spent s)
    (hs : s.push signalled = .ok s') : Spent s' := by
  unfold State.push at hs
  repeat' split at hs
  all_goals cases hs
  exact h.of_shrinks (.refl _) rfl

theorem Spent.work {a : Action n Connection} (h : Spent s) (hs : s.work a = .ok s') :
    Spent s' := by
  cases a <;> simp only [State.work, State.pop] at hs <;> repeat' split at hs
  all_goals cases hs
  all_goals exact h.of_shrinks (.refl _) rfl

theorem Spent.begin {w : Fin n} {script : Option (Stream × Side → ℕ)} (h : Spent s)
    (he : Exclusive s (.begin w script)) (hs : s.begin w script = .ok s') : Spent s' := by
  unfold State.begin at hs
  split at hs
  · cases hs
    exact Spent.opens (fun v _ ↦ he v) (fun _ _ heq ↦ by cases heq)
  · cases hs
    refine h.setActivity s.count (.refl _) ?_
    intro process todo heq stream side _
    cases heq
    left
    -- all pipes are still to be made
    clear * -
    revert stream
    decide
  · cases hs

theorem Spent.finish {w : Fin n} {shutdown : Bool} (h : Spent s)
    (hs : s.finish w shutdown = .ok s') : Spent s' := by
  unfold State.finish at hs
  repeat' split at hs
  all_goals cases hs
  intro v process todo hv stream side hf
  by_cases hvw : v = w
  · subst hvw
    cases (Function.update_self _ _ _).symm.trans hv
  · exact (h v process todo ((Function.update_of_ne hvw _ _).symm.trans hv) stream side
      hf).imp_right (shrinks_connectionClose _ _ _ _)

theorem Spent.close {shutdown : Bool} (h : Spent s) (hs : s.close shutdown = .ok s') :
    Spent s' := by
  unfold State.close State.closePool at hs
  repeat' split at hs
  all_goals cases hs
  · exact h.of_shrinks (.refl _) rfl
  · exact h.of_shrinks (shrinks_close _ _) rfl
  · exact h.of_shrinks (shrinks_connectionClose _ _ _) (connectionClose_activity _ _ _)
  all_goals exact h.of_shrinks (.refl _) rfl

theorem Spent.step {e : Event n} (h : Spent s) (htidy : Tidy s queued) (he : Exclusive s e)
    (hs : step s e = .ok s') : Spent s' := by
  cases e with
  | accept => exact .accept he hs
  | setUp answers => exact h.setUp hs
  | push signalled => exact h.push hs
  | work a => exact h.work hs
  | begin w script => exact h.begin he hs
  | call w succeeds => exact h.call htidy he hs
  | finish w shutdown => exact h.finish hs
  | close shutdown => exact h.close hs

/-- A stray number is free then. -/
theorem Spent.stray {e : Event n} {number : ℕ} (h : Spent s) (htidy : Tidy s queued)
    (he : Exclusive s e) (hstray : Instance.stray s e = some number) :
    s.table.file number = none := by
  cases e with
  | call w succeeds =>
    simp only [Instance.stray] at hstray
    split at hstray
    · next hactivity =>
      split at hstray
      · next hf =>
        cases hstray
        exact h.free htidy hactivity (fun _ heq ↦ by cases heq) hf
      · cases hstray
    · cases hstray
  | close shutdown => exact he number hstray
  | _ => cases hstray

/-- A socket of the process: that of a connection, or one for a port. -/
def IsSocket (descriptor : Descriptor) : Prop :=
  (∃ connection : Connection, descriptor = connection.descriptor) ∨
    ∃ number id, descriptor = (number, .listening id)

/-- Nothing has been closed in the beginning, and only sockets for ports are lost. -/
theorem spent_start (inherited : Table File) (ports : List Listening) :
    Spent (start inherited ports : State n) ∧
      ∀ descriptor ∈ (start inherited ports : State n).lost, IsSocket descriptor := by
  suffices h : ∀ s : State n, s.activity = (fun _ ↦ .request) →
      (∀ descriptor ∈ s.lost, IsSocket descriptor) →
        Spent (ports.foldl listen s) ∧
          ∀ descriptor ∈ (ports.foldl listen s).lost, IsSocket descriptor from
    h _ rfl (fun _ hm ↦ absurd hm (Multiset.notMem_zero _))
  induction ports with
  | nil =>
    intro s hactivity hlost
    refine ⟨fun w process todo hw ↦ ?_, hlost⟩
    rw [List.foldl_nil, hactivity] at hw
    cases hw
  | cons port ports ih =>
    intro s hactivity hlost
    refine ih (listen s port) ((listen_spec s port).2.2.2.1.trans hactivity) ?_
    intro descriptor hm
    unfold listen at hm
    dsimp only at hm
    split at hm
    · exact hlost descriptor hm
    · split at hm
      · exact hlost descriptor hm
      · rcases Multiset.mem_cons.mp hm with rfl | hm
        · exact .inr ⟨_, _, rfl⟩
        · exact hlost descriptor hm

/-- An event loses the descriptor of a connection, or none. -/
theorem step_lost {e : Event n} (hs : step s e = .ok s') :
    s'.lost = s.lost ∨ ∃ connection : Connection, s'.lost = connection.descriptor ::ₘ s.lost := by
  have hclose (t : State n) (connection : Connection) (shutdown : Bool) :
      (t.connectionClose connection shutdown).lost = t.lost ∨
        ∃ c : Connection,
          (t.connectionClose connection shutdown).lost = c.descriptor ::ₘ t.lost := by
    unfold State.connectionClose
    split
    · exact .inl rfl
    · exact .inr ⟨connection, rfl⟩
  cases e with
  | accept =>
    simp only [step, State.accept] at hs
    repeat' split at hs
    all_goals cases hs
    exact .inl rfl
  | setUp answers =>
    simp only [step, State.setUp] at hs
    repeat' split at hs
    all_goals cases hs
    · exact .inl rfl
    · exact .inr ⟨_, rfl⟩
    · exact hclose _ _ _
    · exact .inl rfl
    · exact .inl rfl
  | push signalled =>
    simp only [step, State.push] at hs
    repeat' split at hs
    all_goals cases hs
    exact .inl rfl
  | work a =>
    cases a <;> simp only [step, State.work, State.pop] at hs <;> repeat' split at hs
    all_goals cases hs
    all_goals exact .inl rfl
  | begin w script =>
    simp only [step, State.begin] at hs
    repeat' split at hs
    all_goals cases hs
    all_goals exact .inl rfl
  | call w succeeds =>
    simp only [step, State.call] at hs
    repeat' split at hs
    all_goals cases hs
    all_goals exact .inl rfl
  | finish w shutdown =>
    simp only [step, State.finish] at hs
    repeat' split at hs
    all_goals cases hs
    exact hclose _ _ _
  | close shutdown =>
    simp only [step, State.close, State.closePool] at hs
    repeat' split at hs
    all_goals cases hs
    all_goals first | exact .inl rfl | exact hclose _ _ _

/-- The open descriptors of the process are those that are held, and sockets that are lost. -/
structure Accounts (base : Multiset Descriptor) (s : State n) : Prop where
  balanced : ∃ queued, s.pool.system.queue.list.Holds queued ∧
    Balanced s.table (s.held base queued) s.lost
  lost : ∀ descriptor ∈ s.lost, IsSocket descriptor

/-- When no descriptor is opened while another worker has a process, and no stray close of the
shutdown or behind a failed pipe hits one, the open descriptors of the server are those that it was
started with, its listening sockets, the connections that are set up, queued or handled, the files
and pipes of the requests, and the sockets of connections and ports that were lost. -/
theorem runs_account (inherited : Table File) (ports : List Listening) (events : List (Event n))
    (hexclusive : Guarded step Exclusive (start inherited ports) events) :
    Throughout step (Accounts ↑inherited.opened) (start inherited ports) events := by
  obtain ⟨htidy, hbalanced⟩ := start_spec (n := n) inherited ports
  obtain ⟨hspent, hlost⟩ := spent_start (n := n) inherited ports
  have hinvariant := hexclusive.throughout
    (P := fun s ↦ Spent s ∧ (∀ descriptor ∈ s.lost, IsSocket descriptor) ∧
      ∃ queued, Tidy s queued ∧ Balanced s.table (s.held ↑inherited.opened queued) s.lost)
    ⟨hspent, hlost, [], htidy, hbalanced⟩ ?_
  · intro done s hdone hs
    obtain ⟨-, hlost, queued, htidy, hbalanced⟩ := hinvariant done s hdone hs
    exact ⟨⟨queued, htidy.holds, hbalanced⟩, hlost⟩
  · rintro s e s' ⟨hspent, hlost, queued, htidy, hbalanced⟩ he hs
    obtain ⟨queued', htidy', hfollows⟩ := htidy.step ↑inherited.opened hs
    refine ⟨hspent.step htidy he hs, ?_, queued', htidy', ?_⟩
    · intro descriptor hd
      rcases step_lost hs with hsame | ⟨c, hc⟩
      · exact hlost descriptor (hsame ▸ hd)
      · rw [hc] at hd
        exact (Multiset.mem_cons.mp hd).elim (fun he ↦ .inl ⟨c, he⟩) (hlost descriptor)
    · cases hstray : stray s e with
      | none =>
        rw [hstray] at hfollows
        exact hfollows.balanced hbalanced
      | some number =>
        rw [hstray] at hfollows
        obtain ⟨htable, hheld, hlost'⟩ := hfollows
        rw [htable, hheld, hlost']
        exact hbalanced.close_free (hspent.stray htidy he hstray)

/-- The only worker is alone with its process. -/
theorem exclusive_calls (s : State 1) (calls : ℕ) :
    Guarded step Exclusive s (List.replicate calls (.call 0 true)) := by
  induction calls generalizing s with
  | zero => exact guarded_nil
  | succ calls ih =>
    refine guarded_cons.mpr ⟨fun _ _ _ _ ↦ ⟨rfl, fun v hv ↦ ?_⟩, fun s' _ ↦ ih s'⟩
    exact absurd (Subsingleton.elim v 0) hv

theorem runs_account_script : Throughout step (Accounts ↑terminal.opened)
    (start terminal [.fails, .listens]) (scriptRun 18) := by
  refine runs_account terminal [.fails, .listens] (scriptRun 18) ?_
  refine (guarded_cons_ok rfl).mpr ⟨fun _ ↦ id, ?_⟩
  iterate 5 refine guarded_cons.mpr ⟨trivial, fun _ _ ↦ ?_⟩
  exact exclusive_calls _ 18

end Wsic.Instance
