import Wsic.Server.Ownership

/-!
# What an event does to the descriptors

One lemma for each function of `Wsic.Server.Instance`. An event other than a stray close opens,
closes, passes on or loses what its own thread has.
-/

open CMemory Descriptors

namespace Wsic.Instance

open WorkerPool Cgi MessageQueueT

variable {n : ℕ} {base : Multiset Descriptor} {s s' : State n} {queued : List (Option Connection)}

/-! ### The pool -/

theorem queueStep_spec {V : Type} {pool pool' : Pool n V} {queued : List (Option V)}
    (h : pool.system.queue.list.Holds queued) {l : Label (Option (Fin n)) V}
    (hs : pool.queueStep l = .ok pool') :
    ∃ queued', pool'.system.queue.list.Holds queued' ∧
      pool.system.StepOn queued pool'.system queued' l ∧ pool'.workers = pool.workers := by
  obtain ⟨system, queued', he, hh, hon⟩ := System.step_spec h l
  unfold Pool.queueStep at hs
  rw [he] at hs
  split at hs
  · cases hs
    exact ⟨queued', hh, hon, rfl⟩
  · cases hs

/-- A round of a pop takes the first connection of the queue, or none; nobody else notices. -/
theorem popStep_spec {pool pool' : Pool n Connection} {queued : List (Option Connection)}
    (h : pool.system.queue.list.Holds queued) {w : Fin n}
    (hs : pool.popStep w pool.system.queue.popRound = .ok pool') :
    ∃ connection queued', pool'.system.queue.list.Holds queued' ∧
      heldByQueue queued = heldOf connection + heldByQueue queued' ∧
      (((pool'.workers w).place = .popped connection) ∨
        ((pool'.workers w).place = .popping ∧ connection = none)) ∧
      ∀ v, v ≠ w → pool'.workers v = pool.workers v := by
  obtain ⟨round, queue, queued', he, hh, -, hcase⟩ := popRound_spec h
  rw [he] at hs
  cases hs
  refine ⟨round.value, queued', hh, ?_, ?_, fun v hv ↦ Function.update_of_ne hv _ _⟩
  · rcases hcase with ⟨-, rfl, rfl⟩ | ⟨-, rfl, rfl⟩
    · exact (zero_add _).symm
    · exact heldByQueue_tail queued
  · by_cases hw : round.waits
    · refine .inr ⟨by simp [Pool.set, hw], ?_⟩
      cases round with
      | unlocked => cases hw
      | removed taken => exact Option.isNone_iff_eq_none.mp hw
    · exact .inl (by simp [Pool.set, hw])

/-! ### The accept loop -/

/-- The connection that is set up, beside everything else. -/
theorem held_eq_accepted (base : Multiset Descriptor) (s : State n)
    (queued : List (Option Connection)) :
    s.held base queued = heldOf s.accepted +
      (base + (s.sockets.map Slot.held).sum + heldByQueue queued + ∑ w, s.heldBy w) := by
  rw [State.held]
  ac_rfl

/-- A change of the connection that is set up is one of what is held. -/
theorem change_held_accepted (hworkers : s'.heldBy = s.heldBy) (hsockets : s'.sockets = s.sockets)
    (h : Change s.table (heldOf s.accepted) s.lost s'.table (heldOf s'.accepted) s'.lost) :
    Change s.table (s.held base queued) s.lost s'.table (s'.held base queued) s'.lost := by
  rw [held_eq_accepted, held_eq_accepted, hsockets, hworkers]
  exact h.frame _

/-- The event leaves the process tidy, and closes only what its thread has open. -/
def Proper (base : Multiset Descriptor) (s : State n) (queued : List (Option Connection))
    (s' : State n) : Prop :=
  ∃ queued', Tidy s' queued' ∧
    Change s.table (s.held base queued) s.lost s'.table (s'.held base queued') s'.lost

theorem Tidy.accept (h : Tidy s queued) (hs : s.accept = .ok s') : Proper base s queued s' := by
  unfold State.accept at hs
  split at hs
  · next haccepted =>
    cases hs
    refine ⟨queued, ⟨h.holds, h.agrees, h.planned⟩, change_held_accepted rfl rfl ?_⟩
    rw [haccepted]
    exact change_alloc _ _ _
  · cases hs

theorem Tidy.setUp {answers : SetUp} (h : Tidy s queued) (hs : s.setUp answers = .ok s') :
    Proper base s queued s' := by
  unfold State.setUp at hs
  split at hs
  · next socket _ haccepted =>
    have hclose := change_connectionClose s socket
    split at hs
    · cases hs
      refine ⟨queued, ⟨h.holds, h.agrees, h.planned⟩, change_held_accepted rfl rfl ?_⟩
      rw [haccepted]
      exact hclose true
    · split at hs
      · cases hs
        refine ⟨queued, ⟨h.holds, h.agrees, h.planned⟩, change_held_accepted rfl rfl ?_⟩
        rw [haccepted]
        exact hclose false
      · split at hs
        · split at hs
          · cases hs
          · cases hs
            refine ⟨queued, ⟨?_, ?_, ?_⟩, change_held_accepted ?_ ?_ ?_⟩
            · simpa using h.holds
            · simpa using h.agrees
            · simpa using h.planned
            · exact heldBy_congr (by simp) (by simp)
            · simp
            · rw [haccepted]
              exact hclose answers.shutdown
          · cases hs
            exact ⟨queued, h, .none _ _ _⟩
        · cases hs
          exact ⟨queued, h, .none _ _ _⟩
  · cases hs

theorem Tidy.push {signalled : Finset (Option (Fin n))} (h : Tidy s queued)
    (hs : s.push signalled = .ok s') : Proper base s queued s' := by
  unfold State.push at hs
  split at hs
  · next connection _ haccepted =>
    split at hs
    · next pool hpool =>
      cases hs
      obtain ⟨queued', hh, ⟨rfl, -⟩, hworkers⟩ := queueStep_spec h.holds hpool
      refine ⟨_, ⟨hh, fun w ↦ ?_, h.planned⟩, ?_⟩
      · rw [hworkers]
        exact h.agrees w
      · rw [State.held, State.held, heldByQueue_concat, haccepted]
        apply Change.of_eq
        simp only [heldOf, State.heldBy]
        ac_rfl
    · cases hs
  · cases hs

/-! ### The workers -/

/-- A worker that calls or goes on with its pop makes a round of it. -/
theorem popStep_of_step {V : Type} {pool pool' : Pool n V} {w : Fin n} {a : Action n V}
    (ha : a = .pop w ∨ a = .resume w) (hs : pool.step a = .ok pool') :
    (pool.workers w).place = .popping ∧
      pool.popStep w pool.system.queue.popRound = .ok pool' := by
  rcases ha with rfl | rfl
  all_goals
    simp only [Pool.step, pop_eq_popRound] at hs
    split at hs
    · next hp =>
      split at hs
      · exact ⟨hp, hs⟩
      · cases hs
    · cases hs

theorem Tidy.pop {w : Fin n} {a : Action n Connection} (h : Tidy s queued)
    (ha : a = .pop w ∨ a = .resume w) (hs : s.pop w a = .ok s') : Proper base s queued s' := by
  unfold State.pop at hs
  split at hs
  · next pool hpool =>
    obtain ⟨hp, hstep⟩ := popStep_of_step ha hpool
    have hnone : s.connection w = none := by
      have hw := h.agrees w
      rwa [hp] at hw
    obtain ⟨connection, queued', hh, hqueue, hplace, hothers⟩ := popStep_spec h.holds hstep
    rcases hplace with hplace | ⟨hplace, rfl⟩
    · simp only [hplace] at hs
      cases hs
      refine ⟨queued', ⟨hh, fun v ↦ ?_, h.planned⟩, ?_⟩
      · by_cases hv : v = w
        · subst hv
          rw [hplace]
          exact Function.update_self _ _ _
        · rw [hothers v hv]
          dsimp only
          rw [Function.update_of_ne hv]
          exact h.agrees v
      · obtain ⟨others, hsum, hsum'⟩ := sum_eq_of_ne (f := s.heldBy)
          (g := State.heldBy { s with
            pool := pool
            connection := Function.update s.connection w connection }) (i := w)
          (fun v hv ↦ by simp only [State.heldBy, Function.update_of_ne hv])
        apply Change.of_eq
        rw [State.held, State.held, hsum, hsum', hqueue, State.heldBy, State.heldBy, hnone]
        simp only [Function.update_self, heldOf]
        ac_rfl
    · simp only [hplace] at hs
      cases hs
      refine ⟨queued', ⟨hh, fun v ↦ ?_, h.planned⟩, ?_⟩
      · by_cases hv : v = w
        · subst hv
          rw [hplace]
          exact hnone
        · rw [hothers v hv]
          exact h.agrees v
      · apply Change.of_eq
        rw [State.held, State.held, hqueue, heldOf, zero_add]
        rfl
  · cases hs

theorem Tidy.test {w : Fin n} (h : Tidy s queued) {pool : Pool n Connection}
    (hs : s.pool.step (.test w) = .ok pool) : Tidy { s with pool := pool } queued := by
  simp only [Pool.step] at hs
  split at hs
  · next connection hp =>
    cases hs
    have hw := h.agrees w
    rw [hp] at hw
    have hset (worker : Worker Connection) (hplace : Agrees (s.connection w) worker.place) :
        Tidy { s with pool := s.pool.set w worker } queued := by
      refine ⟨h.holds, fun v ↦ ?_, h.planned⟩
      by_cases hv : v = w
      · subst hv
        simpa [Pool.set] using hplace
      · simpa [Pool.set, hv] using h.agrees v
    unfold Pool.testStep
    dsimp only
    split
    · exact hset _ trivial
    · cases connection with
      | none => exact hset _ hw
      | some c => exact hset _ hw
  · cases hs

theorem Tidy.work {a : Action n Connection} (h : Tidy s queued) (hs : s.work a = .ok s') :
    Proper base s queued s' := by
  cases a with
  | pop w => exact h.pop (.inl rfl) hs
  | resume w => exact h.pop (.inr rfl) hs
  | spurious w =>
    simp only [State.work] at hs
    split at hs
    · next pool hpool =>
      cases hs
      obtain ⟨queued', hh, ⟨rfl, -⟩, hworkers⟩ := queueStep_spec h.holds hpool
      refine ⟨_, ⟨hh, fun w ↦ ?_, h.planned⟩, .none _ _ _⟩
      rw [hworkers]
      exact h.agrees w
    · cases hs
  | test w =>
    simp only [State.work] at hs
    split at hs
    · next pool hpool =>
      cases hs
      exact ⟨queued, h.test hpool, .none _ _ _⟩
    · cases hs
  | push connection signalled => cases hs
  | finish w => cases hs
  | close => cases hs

theorem Tidy.setActivity {w : Fin n} {activity : Activity} {table : Table File} (count : ℕ)
    (h : Tidy s queued)
    (hplanned : ∀ process todo, activity = .cgi process todo → Planned process todo) :
    Tidy ({ s with table := table, count := count }.setActivity w activity) queued := by
  refine ⟨h.holds, h.agrees, fun v process todo hv ↦ ?_⟩
  by_cases hvw : v = w
  · subst hvw
    exact hplanned process todo ((Function.update_self _ _ _).symm.trans hv)
  · exact h.planned v process todo ((Function.update_of_ne hvw _ _).symm.trans hv)

/-- What the other workers hold stays when one goes on with its activity. -/
theorem heldBy_setActivity_of_ne {w v : Fin n} (hv : v ≠ w) (activity : Activity)
    (table : Table File) (count : ℕ) :
    ({ s with table := table, count := count }.setActivity w activity).heldBy v = s.heldBy v := by
  simp only [State.heldBy, State.setActivity, Function.update_of_ne hv]

/-- A worker that begins, goes on with or ends the activity that its request needs. -/
theorem Tidy.activity {w : Fin n} {activity : Activity} {table : Table File} (count : ℕ)
    (h : Tidy s queued)
    (hplanned : ∀ process todo, activity = .cgi process todo → Planned process todo)
    (hchange : Change s.table (s.activity w).held s.lost table activity.held s.lost) :
    Proper base s queued
      ({ s with table := table, count := count }.setActivity w activity) := by
  refine ⟨queued, h.setActivity count hplanned, ?_⟩
  refine change_held_worker (fun v hv ↦ heldBy_setActivity_of_ne hv activity table count) rfl rfl ?_
  simp only [State.heldBy, State.setActivity, Function.update_self]
  rw [add_comm, add_comm (heldOf (s.connection w))]
  exact hchange.frame _

theorem Tidy.begin {w : Fin n} {script : Option (Stream × Side → ℕ)} (h : Tidy s queued)
    (hs : s.begin w script = .ok s') : Proper base s queued s' := by
  unfold State.begin at hs
  split at hs
  · next hactivity =>
    cases hs
    apply h.activity _ (fun _ _ he ↦ by cases he)
    rw [hactivity]
    exact change_alloc _ _ _
  · next fresh _ hactivity =>
    cases hs
    refine h.activity s.count ?_ ?_
    · intro process todo he
      cases he
      exact .start fresh
    · have hnone : heldByProcess (fun e ↦ ⟨fresh e, none⟩) = 0 :=
        Finset.sum_eq_zero (fun e _ ↦ rfl)
      rw [hactivity]
      exact .of_eq hnone.symm
  · cases hs

/-- Both ends of a new pipe are held by its process. -/
theorem change_openPipe (table : Table File) (lost : Multiset Descriptor) {process : Process}
    (stream : Stream) (hfresh : ∀ side, (process (stream, side)).file = none) (read write : File) :
    Change table (heldByProcess process) lost ((table.alloc read).alloc write)
      (heldByProcess (Function.update (Function.update process (stream, .read)
        ⟨table.lowest, some read⟩) (stream, .write) ⟨(table.alloc read).lowest, some write⟩))
      lost := by
  obtain ⟨others, hheld, hread⟩ := heldByProcess_update process (stream, .read)
  obtain ⟨others', hheld', hwrite⟩ := heldByProcess_update
    (Function.update process (stream, .read) ⟨table.lowest, some read⟩) (stream, .write)
  rw [Slot.held_of_file_none (hfresh .read), zero_add] at hheld
  rw [hread, Function.update_of_ne (by simp), Slot.held_of_file_none (hfresh .write),
    zero_add] at hheld'
  rw [hwrite, hheld, ← hheld']
  exact (Change.opens table others lost read).trans (.opens _ _ lost write)

/-- Closing an end that is open. -/
theorem change_closeEnd (table : Table File) (lost : Multiset Descriptor) {process : Process}
    {e : Stream × Side} {file : File} (hfile : (process e).file = some file) :
    Change table (heldByProcess process) lost (table.close (process e).number)
      (heldByProcess (Function.update process e (process e).closed)) lost := by
  obtain ⟨others, hheld, hupdate⟩ := heldByProcess_update process e
  have hslot : process e = ⟨(process e).number, some file⟩ := by rw [← hfile]
  rw [hheld, hupdate, Slot.held_closed, zero_add, hslot]
  exact .closes table ((process e).number, file) others lost

/-- A call of a process that neither opens nor closes. -/
theorem Tidy.skip {w : Fin n} {process : Process} {todo todo' : List Call} (h : Tidy s queued)
    (hactivity : s.activity w = .cgi process todo) (hplanned : Planned process todo') :
    Proper base s queued (s.setActivity w (.cgi process todo')) := by
  refine h.activity s.count ?_ ?_
  · intro process' todo'' he
    cases he
    exact hplanned
  · rw [hactivity]
    exact .none _ _ _

/-- Closing an end that is not open changes nothing of what is held. -/
theorem heldByProcess_closed {process : Process} {e : Stream × Side}
    (hfile : (process e).file = none) :
    heldByProcess (Function.update process e (process e).closed) = heldByProcess process := by
  obtain ⟨others, hheld, hupdate⟩ := heldByProcess_update process e
  rw [hupdate, hheld, Slot.held_closed, Slot.held_of_file_none hfile]

/-- A call closes a file of the process itself, unless the number is a stray one. -/
theorem Tidy.call {w : Fin n} {succeeds : Bool} (h : Tidy s queued)
    (hs : s.call w succeeds = .ok s') (hstray : stray s (.call w succeeds) = none) :
    Proper base s queued s' := by
  unfold State.call at hs
  split at hs
  · next process stream todo hactivity =>
    have hplanned := h.planned w _ _ hactivity
    split at hs
    · cases hs
      refine h.activity _ ?_ ?_
      · intro process' todo' he
        cases he
        exact hplanned.pipe _ _ _
      · rw [hactivity]
        exact change_openPipe _ _ _ (hplanned.fresh stream List.mem_cons_self) _ _
    · cases hs
      exact h.skip hactivity (.failed process (by simp))
  · next process todo hactivity =>
    have hplanned := h.planned w _ _ hactivity
    cases hs
    split
    · exact h.skip hactivity (hplanned.skip nofun nofun)
    · exact h.skip hactivity (.failed process (by simp))
  · next process stream side todo hactivity =>
    have hplanned := h.planned w _ _ hactivity
    cases hs
    have hfile : (process (stream, side)).file ≠ none := by
      simpa [stray, hactivity] using hstray
    obtain ⟨file, hfile⟩ := Option.ne_none_iff_exists'.mp hfile
    refine h.activity s.count ?_ ?_
    · intro process' todo' he
      cases he
      exact hplanned.close
    · rw [hactivity]
      exact change_closeEnd _ _ hfile
  · next process todo hactivity =>
    have hplanned := h.planned w _ _ hactivity
    cases hs
    split
    · exact h.skip hactivity (hplanned.skip nofun nofun)
    · exact h.skip hactivity (.failed process (by simp))
  · next process todo hactivity =>
    cases hs
    exact h.skip hactivity ((h.planned w _ _ hactivity).skip nofun nofun)
  · next process todo hactivity =>
    cases hs
    exact h.skip hactivity ((h.planned w _ _ hactivity).skip nofun nofun)
  · next process todo hactivity =>
    cases hs
    exact h.skip hactivity ((h.planned w _ _ hactivity).skip nofun nofun)
  · cases hs
  · next process hactivity =>
    cases hs
    refine h.activity s.count (fun _ _ he ↦ by cases he) ?_
    rw [hactivity]
    exact .of_eq (h.planned w _ _ hactivity).held_nil
  · next file hactivity =>
    cases hs
    refine h.activity s.count (fun _ _ he ↦ by cases he) ?_
    rw [hactivity]
    exact .closes s.table file 0 s.lost
  · cases hs

/-- A worker without a file or a process open frees its connection. -/
theorem change_held_free {w : Fin n} {connection : Connection} (shutdown : Bool)
    (hconnection : s.connection w = some connection)
    (hheld : s'.heldBy w = (s.activity w).held)
    (hothers : ∀ v, v ≠ w → s'.heldBy v = s.heldBy v) (hsockets : s'.sockets = s.sockets)
    (haccepted : s'.accepted = s.accepted)
    (htable : s'.table = (s.connectionClose connection shutdown).table)
    (hlost : s'.lost = (s.connectionClose connection shutdown).lost) :
    Change s.table (s.held base queued) s.lost s'.table (s'.held base queued) s'.lost := by
  refine change_held_worker hothers hsockets haccepted ?_
  rw [hheld, htable, hlost, State.heldBy, hconnection, heldOf]
  simpa using (change_connectionClose s connection shutdown).frame (s.activity w).held

theorem Tidy.finish {w : Fin n} {shutdown : Bool} (h : Tidy s queued)
    (hs : s.finish w shutdown = .ok s') : Proper base s queued s' := by
  unfold State.finish at hs
  split at hs
  · cases hs
  · cases hs
  · next connection pool hconnection hpool hcgi hdocument =>
    cases hs
    have hnone : (s.activity w).held = 0 := by
      cases ha : s.activity w with
      | request => rfl
      | document file => exact absurd ha (hdocument file)
      | cgi process todo => exact absurd ha (hcgi process todo)
      | answered => rfl
    simp only [Pool.step] at hpool
    split at hpool
    · cases hpool
      refine ⟨queued, ⟨h.holds, fun v ↦ ?_, fun v process todo hv ↦ ?_⟩, ?_⟩
      · by_cases hv : v = w
        · subst hv
          simp [Pool.set, Agrees]
        · simpa [Pool.set, hv] using h.agrees v
      · by_cases hvw : v = w
        · subst hvw
          cases (Function.update_self _ _ _).symm.trans hv
        · exact h.planned v process todo ((Function.update_of_ne hvw _ _).symm.trans hv)
      · refine change_held_free shutdown hconnection ?_ ?_ (by simp) (by simp) rfl rfl
        · rw [hnone]
          simp only [State.heldBy, Function.update_self, heldOf, Activity.held, add_zero]
        · intro v hv
          simp only [State.heldBy, Function.update_of_ne hv]
    · cases hpool
  · cases hs
  · cases hs

/-! ### The shutdown -/

/-- The step of the pool leaves the queue and the places of the workers as they are. -/
theorem Tidy.poolClose {pool : Pool n Connection} (h : Tidy s queued)
    (hpool : s.pool.step .close = .ok pool) : Tidy { s with pool := pool } queued := by
  have hset (phase : Phase) (w : Fin n) (worker : Worker Connection)
      (hplace : worker.place = (s.pool.workers w).place) :
      Tidy { s with pool := ({ s.pool with phase := phase }.set w worker) } queued := by
    refine ⟨h.holds, fun v ↦ ?_, h.planned⟩
    by_cases hv : v = w
    · subst hv
      simpa [Pool.set, hplace] using h.agrees v
    · simpa [Pool.set, hv] using h.agrees v
  simp only [Pool.step, Pool.closeStep] at hpool
  split at hpool
  · cases hpool
    exact ⟨h.holds, h.agrees, h.planned⟩
  · split at hpool
    · cases hpool
      exact hset _ _ _ rfl
    · obtain ⟨queued', hh, ⟨rfl, -⟩, hworkers⟩ :=
        @queueStep_spec _ _ { s.pool with phase := .joining 0 } _ _ h.holds _ hpool
      refine ⟨hh, fun v ↦ ?_, h.planned⟩
      rw [hworkers]
      exact h.agrees v
  · split at hpool
    · split at hpool
      · cases hpool
        exact hset _ _ _ rfl
      · cases hpool
    · cases hpool
      exact ⟨h.holds, h.agrees, h.planned⟩
  · cases hpool

/-- Only a worker that has exited is freed. -/
theorem place_of_joining {pool pool' : Pool n Connection} {i : ℕ} (hp : pool.phase = .joining i)
    (hi : i < n) (hs : pool.step .close = .ok pool') :
    (pool'.workers ⟨i, hi⟩).place = .exited := by
  simp only [Pool.step, Pool.closeStep, hp, dif_pos hi] at hs
  split at hs
  · next hexited =>
    cases hs
    simpa [Pool.set] using hexited
  · cases hs

theorem Tidy.closePool {shutdown : Bool} (h : Tidy s queued)
    (hs : s.closePool shutdown = .ok s') : Proper base s queued s' := by
  unfold State.closePool at hs
  split at hs
  · cases hs
  · next pool hpool =>
    have htidy := h.poolClose hpool
    have hkeep : Proper base s queued { s with pool := pool } := ⟨queued, htidy, .none _ _ _⟩
    split at hs
    · next i hphase =>
      split at hs
      · next hi =>
        split at hs
        · next connection hconnection =>
          cases hs
          have hexited := place_of_joining hphase hi hpool
          refine ⟨queued, ⟨htidy.holds, fun v ↦ ?_, by simpa using h.planned⟩, ?_⟩
          · by_cases hv : v = ⟨i, hi⟩
            · subst hv
              rw [hexited]
              trivial
            · simpa [hv] using htidy.agrees v
          · refine change_held_free shutdown hconnection ?_ ?_ (by simp) (by simp) rfl rfl
            · simp [State.heldBy, heldOf]
            · intro v hv
              simp [State.heldBy, Function.update_of_ne hv]
        · cases hs
          exact hkeep
      · cases hs
        exact hkeep
    · cases hs
      exact hkeep

/-- The socket at a position, beside the others. -/
theorem heldBySockets_set {sockets : List (Slot File)} {i : ℕ} {socket : Slot File}
    (h : sockets[i]? = some socket) : ∃ others,
      (sockets.map Slot.held).sum = socket.held + others ∧
        ((sockets.set i socket.closed).map Slot.held).sum = others := by
  obtain ⟨hi, rfl⟩ := List.getElem?_eq_some_iff.mp h
  obtain ⟨before, after, hsockets, -, hset⟩ := List.exists_of_set hi
  refine ⟨(before.map Slot.held).sum + (after.map Slot.held).sum, ?_, ?_⟩
  · conv_lhs => rw [hsockets]
    simp only [List.map_append, List.sum_append, List.map_cons, List.sum_cons]
    ac_rfl
  · rw [hset]
    simp

/-- A listening socket of the server is closed, unless the number is a stray one. -/
theorem Tidy.close {shutdown : Bool} (h : Tidy s queued) (hs : s.close shutdown = .ok s')
    (hstray : stray s (.close shutdown) = none) : Proper base s queued s' := by
  unfold State.close at hs
  split at hs
  · cases hs
    exact ⟨queued, ⟨h.holds, h.agrees, h.planned⟩, .none _ _ _⟩
  · next i hclosing =>
    split at hs
    · next hi =>
      split at hs
      · next socket hsocket =>
        cases hs
        have hfile : socket.file ≠ none := by simpa [stray, hclosing, hi, hsocket] using hstray
        obtain ⟨file, hfile⟩ := Option.ne_none_iff_exists'.mp hfile
        obtain ⟨others, hheld, hset⟩ := heldBySockets_set hsocket
        refine ⟨queued, ⟨h.holds, h.agrees, h.planned⟩, ?_⟩
        have hslot : socket.held = {(socket.number, file)} := by rw [Slot.held, hfile]
        simp only [State.held, hheld, hset, hslot]
        have hchange := (Change.closes s.table (socket.number, file) 0 s.lost).frame
          (base + others + heldOf s.accepted + heldByQueue queued + ∑ w, s.heldBy w)
        convert hchange using 1
        · simp only [← Multiset.singleton_add]
          ac_rfl
        · exact (zero_add _).symm
      · cases hs
    · exact h.closePool hs

/-- A stray number is closed, and nothing else happens to what is held. -/
theorem Tidy.stray (base : Multiset Descriptor) {e : Event n} {number : ℕ} (h : Tidy s queued)
    (hs : step s e = .ok s') (hstray : Instance.stray s e = some number) :
    Tidy s' queued ∧ s'.table = s.table.close number ∧
      s'.held base queued = s.held base queued ∧ s'.lost = s.lost := by
  cases e with
  | call w succeeds =>
    simp only [Instance.stray] at hstray
    split at hstray
    · next process stream side todo hactivity =>
      split at hstray
      · next hfile =>
        cases hstray
        simp only [step, State.call, hactivity] at hs
        cases hs
        refine ⟨h.setActivity s.count ?_, rfl, ?_, rfl⟩
        · intro process' todo' he
          cases he
          exact (h.planned w _ _ hactivity).close
        · have hsame (v : Fin n) : ({ s with
              table := s.table.close (process (stream, side)).number }.setActivity w
                (.cgi (Function.update process (stream, side)
                  (process (stream, side)).closed) todo)).heldBy v = s.heldBy v := by
            by_cases hv : v = w
            · subst hv
              simp only [State.heldBy, State.setActivity, Function.update_self, hactivity,
                Activity.held, heldByProcess_closed hfile]
            · exact heldBy_setActivity_of_ne hv _ _ s.count
          rw [State.held, State.held, Finset.sum_congr rfl (fun v _ ↦ hsame v)]
          rfl
      · cases hstray
    · cases hstray
  | close shutdown =>
    simp only [Instance.stray] at hstray
    split at hstray
    · next i hclosing =>
      split at hstray
      · next hi =>
        split at hstray
        · next socket hsocket =>
          split at hstray
          · next hfile =>
            cases hstray
            simp only [step, State.close, hclosing, if_pos hi, hsocket] at hs
            cases hs
            obtain ⟨others, hheld, hset⟩ := heldBySockets_set hsocket
            rw [Slot.held_of_file_none hfile, zero_add] at hheld
            refine ⟨⟨h.holds, h.agrees, h.planned⟩, rfl, ?_, rfl⟩
            simp only [State.held, hheld, hset]
            rfl
          · cases hstray
        · cases hstray
      · cases hstray
    · cases hstray
  | _ => cases hstray

/-- What an event does, with the stray close that it may be. -/
theorem Tidy.step (base : Multiset Descriptor) {e : Event n} (h : Tidy s queued)
    (hs : step s e = .ok s') :
    ∃ queued', Tidy s' queued' ∧ Follows base s queued s' queued' (Instance.stray s e) := by
  cases hstray : Instance.stray s e with
  | some number => exact ⟨queued, h.stray base hs hstray⟩
  | none =>
    cases e with
    | accept => exact h.accept hs
    | setUp answers => exact h.setUp hs
    | push signalled => exact h.push hs
    | work a => exact h.work hs
    | begin w script => exact h.begin hs
    | call w succeeds => exact h.call hs hstray
    | finish w shutdown => exact h.finish hs
    | close shutdown => exact h.close hs hstray

/-- An event with a stray close happens. -/
theorem step_of_stray {e : Event n} {number : ℕ} (h : stray s e = some number) :
    ∃ s', step s e = .ok s' := by
  cases e with
  | call w succeeds =>
    simp only [stray] at h
    split at h
    · next process stream side todo hactivity =>
      simp only [step, State.call, hactivity]
      exact ⟨_, rfl⟩
    · cases h
  | close shutdown =>
    simp only [stray] at h
    split at h
    · next i hclosing =>
      split at h
      · next hi =>
        split at h
        · next socket hsocket =>
          simp only [step, State.close, hclosing, if_pos hi, hsocket]
          exact ⟨_, rfl⟩
        · cases h
      · cases h
    · cases h
  | _ => cases h

end Wsic.Instance
