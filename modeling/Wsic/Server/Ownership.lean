import Wsic.Server.Instance

/-!
# Who owns a descriptor

The variables of the accept loop, of the queued connections and of the workers of
`Wsic.Server.Instance` own the descriptors of the process. Every event opens a file for one of
them, closes a file of its own, passes a descriptor on, loses it, or closes a number that is not
its own any more.
-/

open CMemory Descriptors

namespace Wsic.Instance

open WorkerPool Cgi MessageQueueT

variable {n : ℕ}

/-! ### What is held -/

/-- The descriptor of a connection, if there is one. -/
def heldOf : Option Connection → Multiset Descriptor
  | some connection => {connection.descriptor}
  | none => 0

/-- The descriptors of a process. -/
def heldByProcess (process : Process) : Multiset Descriptor := ∑ e, (process e).held

/-- The descriptors of a request. -/
def Activity.held : Activity → Multiset Descriptor
  | .document file => {file}
  | .cgi process _ => heldByProcess process
  | _ => 0

/-- The descriptors of the queued connections. -/
def heldByQueue (connections : List (Option Connection)) : Multiset Descriptor :=
  (connections.map heldOf).sum

namespace State

/-- The descriptors of a worker. -/
def heldBy (s : State n) (w : Fin n) : Multiset Descriptor :=
  heldOf (s.connection w) + (s.activity w).held

/-- All descriptors that are held, when these connections are queued and the process holds
`base` from its start. -/
def held (base : Multiset Descriptor) (s : State n) (queued : List (Option Connection)) :
    Multiset Descriptor :=
  base + (s.sockets.map Slot.held).sum + heldOf s.accepted + heldByQueue queued +
    ∑ w, s.heldBy w

end State

/-- What a worker has popped is its connection, until it is freed. -/
def Agrees (connection : Option Connection) : Place Connection → Prop
  | .popping => connection = none
  | .popped c => connection = c
  | .handling c => connection = some c
  | .exited => True

/-! ### The plan of a script -/

/-- The lists of calls that a worker can have before it. -/
def plans : List (List Call) := returnCGI.tails ++ spawnFailed.tails

/-- How a process is left by the calls that were made: a pipe that is still to be made is not
open, what is open will be closed, and before the fork all pipes that were made are open. -/
structure Planned (process : Process) (todo : List Call) : Prop where
  plan : todo ∈ plans
  fresh : ∀ stream, .pipe stream ∈ todo → ∀ side, (process (stream, side)).file = none
  closed : ∀ stream side, (process (stream, side)).file ≠ none → .close stream side ∈ todo
  piped : .fork ∈ todo → ∀ stream, .pipe stream ∉ todo → ∀ side,
    ∃ id, (process (stream, side)).file = some (.pipe id stream side)

theorem plan_of_cons {c : Call} {todo : List Call} (h : c :: todo ∈ plans) : todo ∈ plans := by
  have htails (l : List Call) (hl : c :: todo ∈ l.tails) : todo ∈ l.tails := by
    rw [List.mem_tails] at hl ⊢
    exact (List.suffix_cons c todo).trans hl
  rw [plans, List.mem_append] at h ⊢
  exact h.imp (htails _) (htails _)

/-- A pipe is made once, and both of its ends are closed in the end. -/
theorem plan_pipe : ∀ todo ∈ plans, ∀ stream, todo.head? = some (.pipe stream) →
    .pipe stream ∉ todo.tail ∧ ∀ stream side, .close stream side ∈ todo.tail := by
  decide

/-- Nothing is closed before the fork. -/
theorem plan_close : ∀ todo ∈ plans, ∀ stream side, todo.head? = some (.close stream side) →
    .fork ∉ todo.tail ∧ ∀ stream, .pipe stream ∉ todo.tail := by
  decide

/-- The pipes are made first, and before the fork. -/
theorem plan_pipes : ∀ todo ∈ plans, (∃ stream, .pipe stream ∈ todo) →
    .fork ∈ todo ∧ ∃ stream, todo.head? = some (.pipe stream) := by
  decide

theorem plan_failed : ∀ todo ∈ [spawnFailed, readFailed], todo ∈ plans ∧ .fork ∉ todo ∧
    ∀ stream, .pipe stream ∉ todo ∧ ∀ side, .close stream side ∈ todo := by
  decide

namespace Planned

variable {process : Process} {todo : List Call}

theorem start (fresh : Stream × Side → ℕ) : Planned (fun e ↦ ⟨fresh e, none⟩) returnCGI := by
  refine ⟨by decide, fun _ _ _ ↦ rfl, fun _ _ h ↦ absurd rfl h, fun _ stream h ↦ absurd ?_ h⟩
  revert stream
  decide

theorem failed (process : Process) (h : todo ∈ [spawnFailed, readFailed]) :
    Planned process todo := by
  obtain ⟨hplan, hfork, hcalls⟩ := plan_failed todo h
  exact ⟨hplan, fun stream hm ↦ absurd hm (hcalls stream).1,
    fun stream side _ ↦ (hcalls stream).2 side, fun hm ↦ absurd hm hfork⟩

/-- A call that neither opens nor closes. -/
theorem skip {c : Call} (h : Planned process (c :: todo)) (hpipe : ∀ stream, c ≠ .pipe stream)
    (hclose : ∀ stream side, c ≠ .close stream side) : Planned process todo where
  plan := plan_of_cons h.plan
  fresh stream hm := h.fresh stream (List.mem_cons_of_mem _ hm)
  closed stream side hf :=
    (List.mem_cons.mp (h.closed stream side hf)).resolve_left (hclose stream side).symm
  piped hm stream hn := h.piped (List.mem_cons_of_mem _ hm) stream
    (fun hp ↦ (List.mem_cons.mp hp).elim (fun he ↦ hpipe stream he.symm) hn)

theorem pipe {stream : Stream} (h : Planned process (.pipe stream :: todo)) (read write id : ℕ) :
    Planned (Function.update (Function.update process (stream, .read)
      ⟨read, some (.pipe id stream .read)⟩) (stream, .write)
      ⟨write, some (.pipe id stream .write)⟩) todo := by
  obtain ⟨honce, hclosed⟩ := plan_pipe _ h.plan stream rfl
  have hother (stream' : Stream) (hne : stream' ≠ stream) (side : Side) :
      Function.update (Function.update process (stream, .read)
        ⟨read, some (.pipe id stream .read)⟩) (stream, .write)
        ⟨write, some (.pipe id stream .write)⟩ (stream', side) = process (stream', side) := by
    rw [Function.update_of_ne (fun he ↦ hne (congrArg Prod.fst he)),
      Function.update_of_ne (fun he ↦ hne (congrArg Prod.fst he))]
  refine ⟨plan_of_cons h.plan, fun stream' hm side ↦ ?_, fun stream' side _ ↦ hclosed stream' side,
    fun hm stream' hn side ↦ ?_⟩
  · have hne : stream' ≠ stream := by
      rintro rfl
      exact honce hm
    rw [hother stream' hne]
    exact h.fresh stream' (List.mem_cons_of_mem _ hm) side
  · by_cases hs : stream' = stream
    · subst hs
      refine ⟨id, ?_⟩
      cases side
      · rw [Function.update_of_ne (by simp), Function.update_self]
      · rw [Function.update_self]
    · rw [hother stream' hs]
      refine h.piped (List.mem_cons_of_mem _ hm) stream' (fun hp ↦ ?_) side
      rcases List.mem_cons.mp hp with hp | hp
      · exact hs (Call.pipe.inj hp)
      · exact hn hp

theorem close {stream : Stream} {side : Side} (h : Planned process (.close stream side :: todo)) :
    Planned (Function.update process (stream, side) (process (stream, side)).closed) todo := by
  obtain ⟨hfork, hpipes⟩ := plan_close _ h.plan stream side rfl
  refine ⟨plan_of_cons h.plan, fun stream' hm ↦ absurd hm (hpipes stream'), ?_,
    fun hm ↦ absurd hm hfork⟩
  intro stream' side' hf
  by_cases he : (stream', side') = (stream, side)
  · rw [he, Function.update_self] at hf
    exact absurd rfl hf
  · rw [Function.update_of_ne he] at hf
    refine (List.mem_cons.mp (h.closed stream' side' hf)).resolve_left (fun hc ↦ he ?_)
    cases hc
    rfl

/-- Before the fork a pipe that is not open is still to be made. -/
theorem pipe_mem (h : Planned process todo) (hfork : .fork ∈ todo) {stream : Stream} {side : Side}
    (hfile : (process (stream, side)).file = none) : .pipe stream ∈ todo := by
  by_contra hmem
  obtain ⟨id, hid⟩ := h.piped hfork stream hmem side
  rw [hfile] at hid
  cases hid

/-- In the end nothing is open. -/
theorem held_nil (h : Planned process []) : heldByProcess process = 0 := by
  apply Finset.sum_eq_zero
  rintro ⟨stream, side⟩ -
  apply Slot.held_of_file_none
  by_contra hf
  cases h.closed stream side hf

end Planned

/-- The queue holds these connections, the workers agree with the pool on theirs, and their
processes are as the calls so far have left them. -/
structure Tidy (s : State n) (queued : List (Option Connection)) : Prop where
  holds : s.pool.system.queue.list.Holds queued
  agrees : ∀ w, Agrees (s.connection w) (s.pool.workers w).place
  planned : ∀ w process todo, s.activity w = .cgi process todo → Planned process todo

/-- The number that an event closes although its thread has no file open on it. -/
def stray (s : State n) : Event n → Option ℕ
  | .call w _ =>
    match s.activity w with
    | .cgi process (.close stream side :: _) =>
      if (process (stream, side)).file = none then some (process (stream, side)).number else none
    | _ => none
  | .close _ =>
    match s.closing with
    | some i =>
      if i < s.socketCount then
        match s.sockets[i]? with
        | some socket => if socket.file = none then some socket.number else none
        | none => none
      else none
    | none => none
  | _ => none

/-- What an event does to the table and to what is held and lost. -/
def Follows (base : Multiset Descriptor) (s : State n) (queued : List (Option Connection))
    (s' : State n) (queued' : List (Option Connection)) : Option ℕ → Prop
  | none => Change s.table (s.held base queued) s.lost s'.table (s'.held base queued') s'.lost
  | some number => s'.table = s.table.close number ∧ s'.held base queued' = s.held base queued ∧
      s'.lost = s.lost

/-! ### The parts of what is held -/

theorem heldByQueue_concat (queued : List (Option Connection)) (connection : Option Connection) :
    heldByQueue (queued ++ [connection]) = heldOf connection + heldByQueue queued := by
  simp [heldByQueue, add_comm]

theorem heldByQueue_tail (queued : List (Option Connection)) :
    heldByQueue queued = heldOf queued.head?.join + heldByQueue queued.tail := by
  cases queued with
  | nil => rfl
  | cons connection queued => simp [heldByQueue]

theorem heldByProcess_update (process : Process) (e : Stream × Side) :
    ∃ others, heldByProcess process = (process e).held + others ∧
      ∀ slot, heldByProcess (Function.update process e slot) = slot.held + others := by
  obtain ⟨others, h, -⟩ := sum_eq_of_ne (f := fun e ↦ (process e).held)
    (g := fun e ↦ (process e).held) (i := e) (fun _ _ ↦ rfl)
  refine ⟨others, h, fun slot ↦ ?_⟩
  obtain ⟨others', h', hslot⟩ := sum_eq_of_ne (f := fun e ↦ (process e).held)
    (g := fun e' ↦ (Function.update process e slot e').held) (i := e)
    (fun e' he ↦ by rw [Function.update_of_ne he])
  rw [h] at h'
  rw [heldByProcess, hslot, Function.update_self, add_left_cancel h']

variable {base : Multiset Descriptor} {s s' : State n} {queued : List (Option Connection)}

/-- A change of what one worker holds is one of what is held. -/
theorem change_held_worker {w : Fin n} (hothers : ∀ v, v ≠ w → s'.heldBy v = s.heldBy v)
    (hsockets : s'.sockets = s.sockets) (haccepted : s'.accepted = s.accepted)
    (h : Change s.table (s.heldBy w) s.lost s'.table (s'.heldBy w) s'.lost) :
    Change s.table (s.held base queued) s.lost s'.table (s'.held base queued) s'.lost := by
  obtain ⟨others, hs, hs'⟩ := sum_eq_of_ne hothers
  rw [State.held, State.held, hs, hs', hsockets, haccepted, add_left_comm,
    add_left_comm _ (s'.heldBy w)]
  exact h.frame _

/-- closing a connection -/
theorem change_connectionClose (s : State n) (connection : Connection) (shutdown : Bool) :
    Change s.table {connection.descriptor} s.lost (s.connectionClose connection shutdown).table 0
      (s.connectionClose connection shutdown).lost := by
  unfold State.connectionClose
  split
  · exact .closes s.table connection.descriptor 0 s.lost
  · exact .loses s.table connection.descriptor 0 s.lost

@[simp] theorem connectionClose_pool (s : State n) (connection : Connection) (shutdown : Bool) :
    (s.connectionClose connection shutdown).pool = s.pool := by
  unfold State.connectionClose
  split <;> rfl

@[simp] theorem connectionClose_connection (s : State n) (connection : Connection)
    (shutdown : Bool) : (s.connectionClose connection shutdown).connection = s.connection := by
  unfold State.connectionClose
  split <;> rfl

@[simp] theorem connectionClose_activity (s : State n) (connection : Connection)
    (shutdown : Bool) : (s.connectionClose connection shutdown).activity = s.activity := by
  unfold State.connectionClose
  split <;> rfl

@[simp] theorem connectionClose_sockets (s : State n) (connection : Connection)
    (shutdown : Bool) : (s.connectionClose connection shutdown).sockets = s.sockets := by
  unfold State.connectionClose
  split <;> rfl

@[simp] theorem connectionClose_accepted (s : State n) (connection : Connection)
    (shutdown : Bool) : (s.connectionClose connection shutdown).accepted = s.accepted := by
  unfold State.connectionClose
  split <;> rfl

theorem heldBy_congr {s s' : State n} (hconnection : s'.connection = s.connection)
    (hactivity : s'.activity = s.activity) : s'.heldBy = s.heldBy := by
  funext w
  rw [State.heldBy, State.heldBy, hconnection, hactivity]

theorem change_alloc (t : Table File) (f : File) (lost : Multiset Descriptor) :
    Change t 0 lost (t.alloc f) {(t.lowest, f)} lost := .opens t 0 lost f

end Wsic.Instance
