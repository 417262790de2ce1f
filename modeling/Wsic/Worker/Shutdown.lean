import Wsic.Lib.Transition
import Wsic.DataStructures.MessageQueueRuns

/-!
# The worker pool and its shutdown

Model of the pool-mode loop of `worker_entryPoint`, `src/worker/worker.c:85–114`, run by any
number of workers on one message queue, and of the part of `server_closeGracefully` that
stops them, `src/server/server.c:381–403`. The flag `shouldRun` of a worker is written
outside the mutex of the queue, and the worker looks at it only after its pop has returned.
The second half says for which interleavings every connection that a worker was given is
handled before the worker exits.
-/

open CMemory Transition

namespace Wsic.WorkerPool

open MessageQueueT

/-- Where a worker stands in its loop. -/
inductive Place (V : Type) where
  /-- Line 90, at or inside `message_queue_pop`. -/
  | popping
  /-- Line 93, with what the pop has returned. -/
  | popped (connection : Option V)
  /-- Line 108, inside `worker_handleConnection`. -/
  | handling (connection : V)
  /-- The thread has exited, line 95. -/
  | exited

/-- What the worker still has to hand over. -/
def Place.pending {V : Type} : Place V → List V
  | .popped connection => connection.toList
  | _ => []

/-- The parts of `worker_t`, `worker.h`, that the shutdown is about, with the connections
that the worker has passed to `worker_handleConnection` so far. -/
structure Worker (V : Type) where
  place : Place V
  shouldRun : Bool
  handled : List V
  freed : Bool

/-- How far the server has come with its shutdown: it has not begun, it clears the flag of
worker `i` next, it joins worker `i` next, or it is done. -/
inductive Phase where
  | serving
  | closing (i : ℕ)
  | joining (i : ℕ)
  | closed

/-- The queue with its threads, `none` being the server, and the `n` workers. -/
structure Pool (n : ℕ) (V : Type) where
  system : System (Option (Fin n)) V
  workers : Fin n → Worker V
  phase : Phase

/-- What a thread does next. -/
inductive Action (n : ℕ) (V : Type) where
  | push (connection : V) (signalled : Finset (Option (Fin n)))
  | pop (w : Fin n)
  | spurious (w : Fin n)
  | resume (w : Fin n)
  | test (w : Fin n)
  | finish (w : Fin n)
  | close

/-- Why an action is not taken: the thread is not there, or the code faults. -/
inductive Halted where
  | disabled
  | fault (reason : Fault)

variable {n : ℕ} {V : Type}

/-- The pool before the first connection. -/
def create : Pool n V := ⟨System.create, fun _ ↦ ⟨.popping, true, [], false⟩, .serving⟩

namespace Pool

/-- Replace one worker. -/
def set (s : Pool n V) (w : Fin n) (worker : Worker V) : Pool n V :=
  { s with workers := Function.update s.workers w worker }

/-- A step of the queue alone. -/
def queueStep (s : Pool n V) (l : Label (Option (Fin n)) V) : Except Halted (Pool n V) :=
  if s.system.Enabled l then
    match s.system.step l with
    | .ok system => .ok { s with system := system }
    | .error reason => .error (.fault reason)
  else .error .disabled

/-- A round of the pop of a worker: it blocks again or returns to the loop. -/
def popStep (s : Pool n V) (w : Fin n) (result : Checked (Round V × MessageQueueT V)) :
    Except Halted (Pool n V) :=
  match result with
  | .ok (round, queue) =>
    .ok ({ s with system := s.system.afterRound (some w) (round, queue) }.set w
      { s.workers w with
        place := if round.waits then .popping else .popped round.value })
  | .error reason => .error (.fault reason)

/-- `worker.c:93–108`: exit when the flag is cleared, go back when there is no connection,
otherwise handle it. -/
def testStep (s : Pool n V) (w : Fin n) (connection : Option V) : Pool n V :=
  let worker := s.workers w
  if !worker.shouldRun then s.set w { worker with place := .exited }
  else
    match connection with
    | none => s.set w { worker with place := .popping }
    | some c => s.set w { worker with place := .handling c, handled := worker.handled ++ [c] }

/-- The next step of the shutdown, `server.c:385–403`: the first loop with
`worker_closeGracefully`, `message_queue_unlock` after it, and the second loop with
`worker_waitForExit` and `worker_free`. -/
def closeStep (s : Pool n V) : Except Halted (Pool n V) :=
  match s.phase with
  | .serving => .ok { s with phase := .closing 0 }
  | .closing i =>
    if h : i < n then
      .ok ({ s with phase := .closing (i + 1) }.set ⟨i, h⟩
        { s.workers ⟨i, h⟩ with shouldRun := false })
    else { s with phase := .joining 0 }.queueStep (.unlock none)
  | .joining i =>
    if h : i < n then
      match (s.workers ⟨i, h⟩).place with
      | .exited => .ok ({ s with phase := .joining (i + 1) }.set ⟨i, h⟩
          { s.workers ⟨i, h⟩ with freed := true })
      | _ => .error .disabled
    else .ok { s with phase := .closed }
  | .closed => .error .disabled

/-- One action. A worker resumes inside the pop that it has called. -/
def step (s : Pool n V) : Action n V → Except Halted (Pool n V)
  | .push connection signalled => s.queueStep (.push none (some connection) signalled)
  | .pop w =>
    match (s.workers w).place with
    | .popping =>
      if s.system.Enabled (.pop (some w)) then s.popStep w s.system.queue.pop
      else .error .disabled
    | _ => .error .disabled
  | .spurious w => s.queueStep (.spurious (some w))
  | .resume w =>
    match (s.workers w).place with
    | .popping =>
      if s.system.Enabled (.resume (some w)) then s.popStep w s.system.queue.popRound
      else .error .disabled
    | _ => .error .disabled
  | .test w =>
    match (s.workers w).place with
    | .popped connection => .ok (s.testStep w connection)
    | _ => .error .disabled
  | .finish w =>
    match (s.workers w).place with
    | .handling _ => .ok (s.set w { s.workers w with place := .popping })
    | _ => .error .disabled
  | .close => s.closeStep

end Pool

/-! ### No abandoned connection -/

/-- The connections that `message_queue_pop` has returned to a worker, in order. -/
def returnedTo (w : Fin n) (log : List (Event (Option (Fin n)) V)) : List V :=
  (returns log).filterMap (fun p ↦ if p.1 = some w then p.2 else none)

/-- A worker that has exited or is freed has handled every connection that it was given. -/
def NotAbandoned (s : Pool n V) : Prop :=
  ∀ w, (s.workers w).place = .exited ∨ (s.workers w).freed = true →
    returnedTo w s.system.log = (s.workers w).handled

/-- In no state of the run has a connection been abandoned, nor do the workers abandon one
when they look at their flags in any of them. -/
def HandsOver (actions : List (Action n V)) : Prop :=
  ∀ done s (ws : List (Fin n)), done <+: actions → exec Pool.step create done = .ok s →
    Throughout Pool.step NotAbandoned s (ws.map Action.test)

/-- A worker whose flag is cleared takes nothing from the queue any more, and the flag of a
worker is not cleared between the return of its pop with a connection and its look at it. -/
def Careful (s : Pool n V) (a : Action n V) : Prop :=
  (s.step a).isOk = true →
    match a with
    | .pop w | .resume w => (s.workers w).shouldRun = true ∨
        s.system.queue.unlocked = true ∨ s.system.queue.list.length = 0
    | .close => ∀ i (h : i < n), s.phase = .closing i →
        ∀ c, (s.workers ⟨i, h⟩).place ≠ .popped (some c)
    | _ => True

/-- What a worker was given it has handled, except for the connection that it holds with
its flag still set; only exited workers are freed. -/
structure Accounted (log : List (Event (Option (Fin n)) V)) (w : Fin n) (worker : Worker V) :
    Prop where
  returned : returnedTo w log = worker.handled ++ worker.place.pending
  running : ∀ c, worker.place = .popped (some c) → worker.shouldRun = true
  freed : worker.freed = true → worker.place = .exited

/-- The queue holds connections, and every worker can account for what it was given. -/
structure Settled (s : Pool n V) (vs : List (Option V)) : Prop where
  holds : s.system.queue.list.Holds vs
  values : none ∉ vs
  accounted : ∀ w, Accounted s.system.log w (s.workers w)

theorem settled_create : Settled (create : Pool n V) [] := by
  refine ⟨ListT.holds_create, List.not_mem_nil, fun w ↦ ⟨rfl, ?_, ?_⟩⟩ <;> simp [create]

theorem Settled.notAbandoned {s : Pool n V} {vs : List (Option V)} (h : Settled s vs) :
    NotAbandoned s := by
  intro w hw
  have hexited : (s.workers w).place = .exited := hw.elim id (h.accounted w).freed
  rw [(h.accounted w).returned, hexited]
  exact List.append_nil _

theorem returnedTo_concat (w : Fin n) (log : List (Event (Option (Fin n)) V))
    (e : Event (Option (Fin n)) V) :
    returnedTo w (log ++ [e]) = returnedTo w log ++ returnedTo w [e] := by
  simp only [returnedTo, returns, List.filterMap_append]

/-- A round of a pop returns to its own worker only. -/
theorem returnedTo_round (w v : Fin n) (round : Round V) :
    returnedTo w [.round (some v) round] =
      if v = w then (if round.waits then [] else round.value.toList) else [] := by
  cases hw : round.waits
  · by_cases hv : v = w
    · cases hval : round.value <;> simp [returnedTo, returns, hw, hv, hval]
    · simp [returnedTo, returns, hw, hv]
  · simp [returnedTo, returns, hw]

theorem Settled.set {s : Pool n V} {vs : List (Option V)} (h : Settled s vs) {w : Fin n}
    {worker : Worker V} (hw : Accounted s.system.log w worker) : Settled (s.set w worker) vs := by
  refine ⟨h.holds, h.values, ?_⟩
  exact (Function.forall_update_iff s.workers
    (fun v k ↦ Accounted s.system.log v k)).mpr ⟨hw, fun v _ ↦ h.accounted v⟩

/-- A step of the queue that is not a pop leaves the workers and what they were given. -/
theorem Settled.queueStep {s s' : Pool n V} {vs : List (Option V)} (h : Settled s vs)
    {l : Label (Option (Fin n)) V} (hs : s.queueStep l = .ok s') (hl : l.PushesValue)
    (hpop : ∀ t, l ≠ .pop t ∧ l ≠ .resume t) : ∃ vs', Settled s' vs' := by
  obtain ⟨system, vs', he, hh, hon⟩ := System.step_spec h.holds l
  unfold Pool.queueStep at hs
  rw [he] at hs
  split at hs
  · cases hs
    cases l with
    | push t value signalled =>
      obtain ⟨rfl, -, -, -, hlog⟩ := hon
      refine ⟨vs ++ [value], hh, ?_, fun w ↦ ?_⟩
      · simpa [h.values] using fun hv ↦ hl hv.symm
      · obtain ⟨hret, hrun, hfreed⟩ := h.accounted w
        refine ⟨?_, hrun, hfreed⟩
        rw [← hret, hlog, returnedTo_concat]
        exact List.append_nil _
    | spurious t =>
      obtain ⟨rfl, rfl⟩ := hon
      exact ⟨vs', hh, h.values, h.accounted⟩
    | unlock t =>
      obtain ⟨rfl, -, -, hlog⟩ := hon
      refine ⟨vs', hh, h.values, fun w ↦ ?_⟩
      obtain ⟨hret, hrun, hfreed⟩ := h.accounted w
      refine ⟨?_, hrun, hfreed⟩
      rw [← hret, hlog, returnedTo_concat]
      exact List.append_nil _
    | pop t => exact absurd rfl (hpop t).1
    | resume t => exact absurd rfl (hpop t).2
  · cases hs

/-- What the loop of a worker does with a round of its pop that took nothing (it found the
queue unlocked or empty) or the first connection of the queue. -/
theorem Settled.popStep_cases {s s' : Pool n V} {vs : List (Option V)} (h : Settled s vs)
    {w : Fin n} (hs : s.popStep w s.system.queue.popRound = .ok s') :
    (∃ round, (s.system.queue.unlocked = true ∨ vs = []) ∧ round.value = none ∧
      s'.system.queue.list.Holds vs ∧
      s'.system.log = s.system.log ++ [.round (some w) round] ∧
      s'.workers = Function.update s.workers w
        { s.workers w with place := if round.waits then .popping else .popped none }) ∨
    ∃ c rest, s.system.queue.unlocked = false ∧ vs = some c :: rest ∧
      s'.system.queue.list.Holds rest ∧
      s'.system.log = s.system.log ++ [.round (some w) (.removed (some (some c)))] ∧
      s'.workers = Function.update s.workers w { s.workers w with place := .popped (some c) } := by
  obtain ⟨round, queue, vs', he, hh, -, hcase⟩ := popRound_spec h.holds
  rw [he] at hs
  cases hs
  rcases hcase with ⟨hu, rfl, rfl⟩ | ⟨hu, rfl, rfl⟩
  · exact .inl ⟨.unlocked, .inl hu, rfl, hh, rfl, rfl⟩
  · cases vs with
    | nil => exact .inl ⟨.removed none, .inr rfl, rfl, hh, rfl, rfl⟩
    | cons v rest =>
      obtain ⟨c, rfl⟩ : ∃ c, v = some c := Option.ne_none_iff_exists'.mp
        (fun hv ↦ h.values (hv ▸ List.mem_cons_self))
      exact .inr ⟨c, rest, hu, rfl, hh, rfl, rfl⟩

/-- The other workers do not notice a round of a pop. -/
theorem Accounted.round_of_ne {log : List (Event (Option (Fin n)) V)} {w v : Fin n}
    {worker : Worker V} (h : Accounted log w worker) (hv : w ≠ v) (round : Round V) :
    Accounted (log ++ [.round (some v) round]) w worker := by
  refine ⟨?_, h.running, h.freed⟩
  rw [returnedTo_concat, returnedTo_round, if_neg hv.symm, List.append_nil]
  exact h.returned

theorem Settled.popStep {s s' : Pool n V} {vs : List (Option V)} (h : Settled s vs) {w : Fin n}
    (hp : (s.workers w).place = .popping)
    (hs : s.popStep w s.system.queue.popRound = .ok s')
    (hc : (s.workers w).shouldRun = true ∨
      s.system.queue.unlocked = true ∨ s.system.queue.list.length = 0) :
    ∃ vs', Settled s' vs' := by
  obtain ⟨hret, -, hfreed⟩ := h.accounted w
  have hnotFreed : (s.workers w).freed ≠ true := by
    intro hf
    rw [hfreed hf] at hp
    cases hp
  rw [hp] at hret
  rcases h.popStep_cases hs with ⟨round, -, hval, hh, hlog, hworkers⟩ |
    ⟨c, rest, hu, rfl, hh, hlog, hworkers⟩
  · refine ⟨vs, hh, h.values, ?_⟩
    rw [hlog, hworkers]
    refine (Function.forall_update_iff s.workers _).mpr
      ⟨⟨?_, ?_, fun hf ↦ absurd hf hnotFreed⟩, fun v hv ↦ (h.accounted v).round_of_ne hv round⟩
    · rw [returnedTo_concat, returnedTo_round, hret, hval]
      cases round.waits <;> simp [Place.pending]
    · cases round.waits <;> simp
  · have hrun : (s.workers w).shouldRun = true := by
      rcases hc with hc | hc | hc
      · exact hc
      · rw [hu] at hc
        cases hc
      · rw [h.holds.length_eq] at hc
        cases hc
    refine ⟨rest, hh, fun hm ↦ h.values (List.mem_cons_of_mem _ hm), ?_⟩
    rw [hlog, hworkers]
    refine (Function.forall_update_iff s.workers _).mpr
      ⟨⟨?_, fun _ _ ↦ hrun, fun hf ↦ absurd hf hnotFreed⟩,
        fun v hv ↦ (h.accounted v).round_of_ne hv _⟩
    rw [returnedTo_concat, returnedTo_round, hret, if_pos rfl]
    simp [Place.pending, Round.waits, Round.value, Round.taken]

theorem Settled.testStep {s : Pool n V} {vs : List (Option V)} (h : Settled s vs) {w : Fin n}
    {connection : Option V} (hp : (s.workers w).place = .popped connection) :
    Settled (s.testStep w connection) vs := by
  obtain ⟨hret, hrun, hfreed⟩ := h.accounted w
  have hnotFreed : (s.workers w).freed ≠ true := by
    intro hf
    rw [hfreed hf] at hp
    cases hp
  rw [hp] at hret
  unfold Pool.testStep
  dsimp only
  split
  · next hr =>
    cases connection with
    | none => exact h.set ⟨hret, fun _ hc ↦ (by cases hc), fun _ ↦ rfl⟩
    | some c => simp [hrun c hp] at hr
  · cases connection with
    | none => exact h.set ⟨hret, fun _ hc ↦ (by cases hc), fun hf ↦ absurd hf hnotFreed⟩
    | some c =>
      refine h.set ⟨?_, fun _ hc ↦ (by cases hc), fun hf ↦ absurd hf hnotFreed⟩
      rw [hret]
      simp [Place.pending]

theorem Settled.closeStep {s s' : Pool n V} {vs : List (Option V)} (h : Settled s vs)
    (hs : s.closeStep = .ok s')
    (hc : ∀ i (hi : i < n), s.phase = .closing i →
      ∀ c, (s.workers ⟨i, hi⟩).place ≠ .popped (some c)) : ∃ vs', Settled s' vs' := by
  have hphase (phase : Phase) : Settled { s with phase := phase } vs :=
    ⟨h.holds, h.values, h.accounted⟩
  unfold Pool.closeStep at hs
  split at hs
  · cases hs
    exact ⟨vs, hphase _⟩
  · next i hp =>
    split at hs
    · next hi =>
      cases hs
      obtain ⟨hret, -, hfreed⟩ := h.accounted ⟨i, hi⟩
      exact ⟨vs, (hphase _).set ⟨hret, fun c hpop ↦ absurd hpop (hc i hi hp c), hfreed⟩⟩
    · exact (hphase _).queueStep hs trivial (fun t ↦ ⟨nofun, nofun⟩)
  · split at hs
    · next i _ hi =>
      split at hs
      · next hexited =>
        cases hs
        obtain ⟨hret, hrun, -⟩ := h.accounted ⟨i, hi⟩
        exact ⟨vs, (hphase _).set ⟨hret, hrun, fun _ ↦ hexited⟩⟩
      · cases hs
    · cases hs
      exact ⟨vs, hphase _⟩
  · cases hs

/-- A careful action keeps the pool settled. -/
theorem Settled.step {s s' : Pool n V} {vs : List (Option V)} {a : Action n V} (h : Settled s vs)
    (hc : Careful s a) (hs : s.step a = .ok s') : ∃ vs', Settled s' vs' := by
  have hcond := hc (by rw [hs]; rfl)
  cases a with
  | push connection signalled =>
    exact h.queueStep hs (Option.some_ne_none connection) (fun t ↦ ⟨nofun, nofun⟩)
  | spurious w => exact h.queueStep hs trivial (fun t ↦ ⟨nofun, nofun⟩)
  | pop w =>
    simp only [Pool.step, pop_eq_popRound] at hs
    split at hs
    · next hp =>
      split at hs
      · exact h.popStep hp hs hcond
      · cases hs
    · cases hs
  | resume w =>
    simp only [Pool.step] at hs
    split at hs
    · next hp =>
      split at hs
      · exact h.popStep hp hs hcond
      · cases hs
    · cases hs
  | test w =>
    simp only [Pool.step] at hs
    split at hs
    · next hp =>
      cases hs
      exact ⟨vs, h.testStep hp⟩
    · cases hs
  | finish w =>
    simp only [Pool.step] at hs
    split at hs
    · next hp =>
      cases hs
      obtain ⟨hret, -, hfreed⟩ := h.accounted w
      rw [hp] at hret hfreed
      exact ⟨vs, h.set ⟨hret, fun _ hpop ↦ (by cases hpop), fun hf ↦ (by cases hfreed hf)⟩⟩
    · cases hs
  | close => exact h.closeStep hs hcond

/-- A worker that holds a connection with its flag cleared abandons it. -/
theorem abandons_of_popped {s : Pool n V} {w : Fin n} {c : V}
    (hp : (s.workers w).place = .popped (some c)) (hr : (s.workers w).shouldRun = false)
    (hret : returnedTo w s.system.log = (s.workers w).handled ++ [c]) :
    ¬ Throughout Pool.step NotAbandoned s ([w].map Action.test) := by
  intro h
  let s' := s.set w { s.workers w with place := .exited }
  have hs : exec Pool.step s [.test w] = .ok s' := by
    simp [exec, Pool.step, hp, Pool.testStep, hr, s']
  have hw : s'.workers w = { s.workers w with place := .exited } := Function.update_self _ _ _
  have habandoned := h [.test w] s' (List.prefix_refl _) hs w (.inl (by rw [hw]))
  rw [hw, show s'.system = s.system from rfl, hret] at habandoned
  simp at habandoned

theorem Settled.popStep_abandons {s s' : Pool n V} {vs : List (Option V)} (h : Settled s vs)
    {w : Fin n} (hp : (s.workers w).place = .popping)
    (hs : s.popStep w s.system.queue.popRound = .ok s')
    (hc : ¬ ((s.workers w).shouldRun = true ∨
      s.system.queue.unlocked = true ∨ s.system.queue.list.length = 0)) :
    ¬ Throughout Pool.step NotAbandoned s' ([w].map Action.test) := by
  obtain ⟨hr, hu, hlen⟩ : (s.workers w).shouldRun = false ∧ s.system.queue.unlocked = false ∧
      vs ≠ [] := by
    rw [h.holds.length_eq] at hc
    simpa using hc
  have hret := (h.accounted w).returned
  rw [hp] at hret
  rcases h.popStep_cases hs with ⟨round, hempty, -⟩ | ⟨c, rest, -, -, -, hlog, hworkers⟩
  · exfalso
    simp [hu, hlen] at hempty
  · have hw : s'.workers w = { s.workers w with place := .popped (some c) } := by
      rw [hworkers]
      exact Function.update_self _ _ _
    apply abandons_of_popped (c := c)
    · rw [hw]
    · rw [hw]
      exact hr
    · rw [hw, hlog, returnedTo_concat, hret, returnedTo_round, if_pos rfl]
      simp [Place.pending, Round.waits, Round.value, Round.taken]

/-- An action that is not careful leaves a worker that abandons a connection. -/
theorem Settled.abandons {s s' : Pool n V} {vs : List (Option V)} {a : Action n V}
    (h : Settled s vs) (hc : ¬ Careful s a) (hs : s.step a = .ok s') :
    ∃ ws : List (Fin n), ¬ Throughout Pool.step NotAbandoned s' (ws.map Action.test) := by
  unfold Careful at hc
  rw [Classical.not_imp] at hc
  obtain ⟨-, hc⟩ := hc
  cases a with
  | push connection signalled => exact absurd trivial hc
  | spurious w => exact absurd trivial hc
  | test w => exact absurd trivial hc
  | finish w => exact absurd trivial hc
  | pop w =>
    simp only [Pool.step, pop_eq_popRound] at hs
    split at hs
    · next hp =>
      split at hs
      · exact ⟨[w], h.popStep_abandons hp hs hc⟩
      · cases hs
    · cases hs
  | resume w =>
    simp only [Pool.step] at hs
    split at hs
    · next hp =>
      split at hs
      · exact ⟨[w], h.popStep_abandons hp hs hc⟩
      · cases hs
    · cases hs
  | close =>
    simp only [not_forall, not_not] at hc
    obtain ⟨i, hi, hp, c, hpop⟩ := hc
    have hret := (h.accounted ⟨i, hi⟩).returned
    rw [hpop] at hret
    simp only [Pool.step, Pool.closeStep, hp, hi, dite_true] at hs
    cases hs
    refine ⟨[⟨i, hi⟩], abandons_of_popped (c := c) ?_ ?_ ?_⟩ <;>
      simp only [Pool.set, Function.update_self]
    · exact hpop
    · exact hret

theorem careful_of_halted {s : Pool n V} {a : Action n V} {reason : Halted}
    (hs : s.step a = .error reason) : Careful s a := by
  intro hok
  rw [hs] at hok
  cases hok

/-- Every connection that a pop returned to a worker is handled before the worker exits or
is freed, exactly when every action of the run is careful. -/
theorem handsOver_iff (actions : List (Action n V)) :
    HandsOver actions ↔ Guarded Pool.step Careful create actions := by
  have hkeep (s : Pool n V) (a : Action n V) (s' : Pool n V) (h : ∃ vs, Settled s vs)
      (hc : Careful s a) (hs : s.step a = .ok s') : ∃ vs, Settled s' vs := by
    obtain ⟨vs, h⟩ := h
    exact h.step hc hs
  rw [← throughout_iff_guarded_of (P := fun s ↦ ∃ vs, Settled s vs)
    (Q := fun s ↦ ∀ ws : List (Fin n), Throughout Pool.step NotAbandoned s (ws.map Action.test))
    ⟨[], settled_create⟩ ?_ hkeep ?_ (fun _ _ _ _ ↦ careful_of_halted)]
  · exact ⟨fun h done s hd he ws ↦ h done s ws hd he, fun h done s ws hd he ↦ h done s hd he ws⟩
  · intro s h ws
    have htests : Guarded Pool.step Careful s (ws.map Action.test) := by
      intro tests a t hd _
      obtain ⟨w, -, rfl⟩ := List.mem_map.mp (hd.subset (by simp) : a ∈ ws.map Action.test)
      exact fun _ ↦ trivial
    intro tests t hd ht
    obtain ⟨vs, ht⟩ := htests.throughout h hkeep tests t hd ht
    exact ht.notAbandoned
  · intro s a s' h hs hc hall
    obtain ⟨vs, h⟩ := h
    obtain ⟨ws, hws⟩ := h.abandons hc hs
    exact hws (hall ws)

/-- The flag of a worker is cleared between the return of its pop and its look at the flag:
the worker exits, is joined and freed, and its connection was never handled. -/
theorem not_handsOver_of_cleared :
    let actions : List (Action 1 ℕ) :=
      [.push 7 ∅, .pop 0, .close, .close, .test 0, .close, .close, .close]
    (∃ s, exec Pool.step create actions = .ok s ∧ returnedTo 0 s.system.log = [7] ∧
      (s.workers 0).handled = [] ∧ (s.workers 0).freed = true) ∧
      ¬ Throughout Pool.step NotAbandoned create actions ∧ ¬ HandsOver actions := by
  intro actions
  have hrun : ∃ s, exec Pool.step create actions = .ok s ∧ returnedTo 0 s.system.log = [7] ∧
      (s.workers 0).handled = [] ∧ (s.workers 0).freed = true := ⟨_, rfl, rfl, rfl, rfl⟩
  refine ⟨hrun, ?_, ?_⟩
  · obtain ⟨s, he, hret, hhandled, hfreed⟩ := hrun
    intro h
    have habandoned := h actions s (List.prefix_refl _) he 0 (.inr hfreed)
    rw [hret, hhandled] at habandoned
    cases habandoned
  · obtain ⟨s, he, hret, hhandled, hfreed⟩ := hrun
    intro h
    have habandoned := h actions s [] (List.prefix_refl _) he [] s (List.prefix_refl _) rfl 0
      (.inr hfreed)
    rw [hret, hhandled] at habandoned
    cases habandoned

end Wsic.WorkerPool
