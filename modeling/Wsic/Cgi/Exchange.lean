import Wsic.Lib.Interaction
import Wsic.Lib.Transition

/-!
# The exchange with a script

`worker_returnCGI` writes the whole body and a NUL to the script, `src/worker/worker.c:657–666`,
and only then reads the response, `cgi_read`, `src/cgi/cgi.c:131–189`; it never reads the errors.
All three go through pipes of a bounded capacity whose writes block. This is the exchange of a
worker with any script, in any order of their steps, one byte written at a time: what the worker
reads, and for which scripts the two of them come to an end. No other process is taken to have
the ends of these pipes.
-/

open Interaction Transition

namespace Wsic.Cgi

/-- Where the worker stands. -/
inductive Place where
  /-- `cgi_write` and `cgi_flushStdin` with the bytes that are left. -/
  | sending (bytes : List UInt8)
  /-- The loop of `cgi_read` with its counter and what each `read` has got. -/
  | reading (timeouts : ℕ) (reads : List (List UInt8))
  /-- `cgi_read` has returned null. -/
  | failed
  /-- `cgi_read` has returned all that was read. -/
  | answered (reads : List (List UInt8))
deriving DecidableEq

/-- The worker, what is in the three pipes, and the script until it exits. The worker has the
end of the input open as long as it sends. -/
structure Exchange where
  worker : Place
  stdin : List UInt8
  stdout : List UInt8
  stderr : List UInt8
  script : Option (Program UInt8)

/-- Who makes a step, or that `poll` times out. -/
inductive Turn where
  | worker
  | timeout
  | script
deriving DecidableEq

/-- The party has to wait. -/
inductive Waits where
  | waits
deriving DecidableEq

namespace Exchange

/-- A step of the worker. A write to a script that has exited fails, and the end is closed. -/
def workerStep (e : Exchange) (capacity : ℕ) : Except Waits Exchange :=
  match e.worker with
  | .sending [] => .ok { e with worker := .reading 0 [] }
  | .sending (b :: bytes) =>
    match e.script with
    | none => .ok { e with worker := .reading 0 [] }
    | some _ =>
      if e.stdin.length < capacity then
        .ok { e with worker := .sending bytes, stdin := e.stdin ++ [b] }
      else .error .waits
  | .reading timeouts reads =>
    match e.stdout, e.script with
    | [], none => .ok { e with worker := .answered reads }
    | [], some _ => .error .waits
    | b :: bytes, _ =>
      .ok { e with worker := .reading timeouts (reads ++ [b :: bytes]), stdout := [] }
  | _ => .error .waits

/-- `poll` of the worker times out, `cgi.c:154–158`. -/
def timeoutStep (e : Exchange) : Except Waits Exchange :=
  match e.worker, e.stdout, e.script with
  | .reading timeouts reads, [], some _ =>
    if timeouts > 5 then .ok { e with worker := .failed }
    else .ok { e with worker := .reading (timeouts + 1) reads }
  | _, _, _ => .error .waits

/-- A step of the script. -/
def scriptStep (e : Exchange) (capacity : ℕ) : Except Waits Exchange :=
  match e.script with
  | none => .error .waits
  | some .exit => .ok { e with script := none }
  | some (.write b next) =>
    if e.stdout.length < capacity then
      .ok { e with stdout := e.stdout ++ [b], script := some next }
    else .error .waits
  | some (.error b next) =>
    if e.stderr.length < capacity then
      .ok { e with stderr := e.stderr ++ [b], script := some next }
    else .error .waits
  | some (.read next) =>
    match e.stdin, e.worker with
    | b :: bytes, _ => .ok { e with stdin := bytes, script := some (next (some b)) }
    | [], .sending _ => .error .waits
    | [], _ => .ok { e with script := some (next none) }

/-- One step. -/
def step (capacity : ℕ) (e : Exchange) : Turn → Except Waits Exchange
  | .worker => e.workerStep capacity
  | .timeout => e.timeoutStep
  | .script => e.scriptStep capacity

end Exchange

/-- The exchange when the worker begins to write the body. The NUL of `cgi_flushStdin` follows
it. -/
def Exchange.start (body : List UInt8) (script : Program UInt8) : Exchange :=
  ⟨.sending (body ++ [0]), [], [], [], some script⟩

/-! ### What is read -/

/-- The input that the script has not read. -/
def Exchange.unread (e : Exchange) : List UInt8 :=
  match e.worker with
  | .sending bytes => e.stdin ++ bytes
  | _ => e.stdin

/-- The output that is still to come. -/
def Exchange.rest (e : Exchange) : List UInt8 :=
  match e.script with
  | some script => script.output e.unread
  | none => []

/-- What was read, what is in the pipe and what is still to come are the output of the script.
No read is empty. -/
def Consistent (output : List UInt8) (e : Exchange) : Prop :=
  match e.worker with
  | .sending _ => e.stdout ++ e.rest = output
  | .reading _ reads => reads.flatten ++ e.stdout ++ e.rest = output ∧ [] ∉ reads
  | .failed => True
  | .answered reads => reads.flatten = output ∧ [] ∉ reads

theorem Consistent.step {capacity : ℕ} {output : List UInt8} {e e' : Exchange} {turn : Turn}
    (h : Consistent output e) (hs : e.step capacity turn = .ok e') : Consistent output e' := by
  obtain ⟨worker, stdin, stdout, stderr, script⟩ := e
  cases turn with
  | worker =>
    simp only [Exchange.step, Exchange.workerStep] at hs
    repeat' split at hs
    all_goals cases hs
    all_goals simp_all [Consistent, Exchange.rest, Exchange.unread]
  | timeout =>
    simp only [Exchange.step, Exchange.timeoutStep] at hs
    repeat' split at hs
    all_goals cases hs
    all_goals simp_all [Consistent, Exchange.rest, Exchange.unread]
  | script =>
    simp only [Exchange.step, Exchange.scriptStep] at hs
    repeat' split at hs
    all_goals cases hs
    all_goals cases worker
    all_goals simp_all [Consistent, Exchange.rest, Exchange.unread, Program.output]

/-! ### What becomes of the script -/

/-- The fate of the script from here on. Only what it writes while the worker sends can fill the
pipe of its output. -/
def Exchange.fate (capacity : ℕ) (e : Exchange) : Fate :=
  match e.script with
  | some script => script.fate capacity e.stdout.length e.stderr.length e.unread
  | none => .finishes

/-- The script comes to this end, and the input that was sent fits in its pipe. -/
structure Fated (capacity : ℕ) (fate : Fate) (e : Exchange) : Prop where
  fate_eq : e.fate capacity = fate
  length_le : e.stdin.length ≤ capacity
  script_eq : ∀ reads, e.worker = .answered reads → e.script = none

theorem Fated.step {capacity : ℕ} {fate : Fate} {e e' : Exchange} {turn : Turn}
    (h : Fated capacity fate e) (hs : e.step capacity turn = .ok e') : Fated capacity fate e' := by
  obtain ⟨worker, stdin, stdout, stderr, script⟩ := e
  obtain ⟨hfate, hlength, hscript⟩ := h
  cases turn with
  | worker =>
    simp only [Exchange.step, Exchange.workerStep] at hs
    repeat' split at hs
    all_goals cases hs
    · exact ⟨by simpa [Exchange.fate, Exchange.unread] using hfate, hlength, fun _ he ↦ by cases he⟩
    · exact ⟨by simpa [Exchange.fate, Exchange.unread] using hfate, hlength, fun _ he ↦ by cases he⟩
    · refine ⟨by simpa [Exchange.fate, Exchange.unread] using hfate, ?_, fun _ he ↦ by cases he⟩
      rw [List.length_append]
      assumption
    · exact ⟨by simpa [Exchange.fate, Exchange.unread] using hfate, hlength, fun _ _ ↦ rfl⟩
    · refine ⟨?_, hlength, fun _ he ↦ by cases he⟩
      rw [← hfate]
      cases script with
      | none => rfl
      | some script => exact Program.fate_congr hlength script _ _ _
  | timeout =>
    simp only [Exchange.step, Exchange.timeoutStep] at hs
    repeat' split at hs
    all_goals cases hs
    all_goals refine ⟨?_, hlength, fun _ he ↦ by cases he⟩
    all_goals simpa [Exchange.fate, Exchange.unread] using hfate
  | script =>
    simp only [Exchange.step, Exchange.scriptStep] at hs
    repeat' split at hs
    all_goals cases hs
    · exact ⟨hfate, hlength, fun _ _ ↦ rfl⟩
    · next b next hroom =>
      refine ⟨?_, hlength, fun reads he ↦ by cases hscript reads he⟩
      rw [← hfate]
      simp [Exchange.fate, Exchange.unread, Program.fate, Nat.not_le.mpr hroom]
    · next b next hroom =>
      refine ⟨?_, hlength, fun reads he ↦ by cases hscript reads he⟩
      rw [← hfate]
      simp [Exchange.fate, Exchange.unread, Program.fate, Nat.not_le.mpr hroom]
    · next next b bytes =>
      refine ⟨?_, Nat.le_of_succ_le hlength, fun reads he ↦ by cases hscript reads he⟩
      rw [← hfate]
      cases worker <;> rfl
    · next next hworker =>
      refine ⟨?_, hlength, fun reads he ↦ by cases hscript reads he⟩
      rw [← hfate]
      cases worker with
      | sending bytes => exact absurd rfl (hworker bytes)
      | _ => rfl

/-! ### The end of a run -/

/-- The steps that the script has still to make. -/
def steps : Program UInt8 → List UInt8 → ℕ
  | .exit, _ => 1
  | .write _ next, input => steps next input + 1
  | .error _ next, input => steps next input + 1
  | .read next, [] => steps (next none) [] + 1
  | .read next, b :: input => steps (next (some b)) input + 1

/-- What is left of the work of the worker, without what it reads. -/
def Place.left : Place → ℕ
  | .sending bytes => bytes.length + 9
  | .reading timeouts _ => 7 - timeouts + 1
  | _ => 0

/-- A bound of the steps that are left. -/
def Exchange.left (e : Exchange) : ℕ :=
  e.worker.left + e.stdout.length + 2 * (e.script.elim 0 (fun script ↦ steps script e.unread))

theorem left_lt_of_step {capacity : ℕ} {e e' : Exchange} {turn : Turn}
    (hs : e.step capacity turn = .ok e') : e'.left < e.left := by
  obtain ⟨worker, stdin, stdout, stderr, script⟩ := e
  cases turn with
  | worker =>
    simp only [Exchange.step, Exchange.workerStep] at hs
    repeat' split at hs
    all_goals cases hs
    all_goals simp_all [Exchange.left, Place.left, Exchange.unread]
  | timeout =>
    simp only [Exchange.step, Exchange.timeoutStep] at hs
    repeat' split at hs
    all_goals cases hs
    all_goals simp_all [Exchange.left, Place.left, Exchange.unread]
    all_goals omega
  | script =>
    simp only [Exchange.step, Exchange.scriptStep] at hs
    repeat' split at hs
    all_goals cases hs
    all_goals cases worker
    all_goals simp_all [Exchange.left, Exchange.unread, steps]
    all_goals omega

/-- The counter of `cgi_read` counts the timeouts, and the seventh one ends it. -/
def Counted (turns : List Turn) (e : Exchange) : Prop :=
  match e.worker with
  | .sending _ => turns.count .timeout = 0
  | .reading timeouts _ => turns.count .timeout = timeouts ∧ timeouts ≤ 6
  | .failed => turns.count .timeout = 7
  | .answered _ => turns.count .timeout ≤ 6

theorem Counted.step {capacity : ℕ} {turns : List Turn} {e e' : Exchange} {turn : Turn}
    (h : Counted turns e) (hs : e.step capacity turn = .ok e') : Counted (turns ++ [turn]) e' := by
  obtain ⟨worker, stdin, stdout, stderr, script⟩ := e
  rw [Counted, List.count_append]
  cases turn with
  | worker =>
    simp only [Exchange.step, Exchange.workerStep] at hs
    repeat' split at hs
    all_goals cases hs
    all_goals simp_all [Counted]
  | timeout =>
    simp only [Exchange.step, Exchange.timeoutStep] at hs
    repeat' split at hs
    all_goals cases hs
    all_goals simp_all [Counted]
    all_goals omega
  | script =>
    simp only [Exchange.step, Exchange.scriptStep] at hs
    repeat' split at hs
    all_goals cases hs
    all_goals simpa [Counted] using h

/-- What holds of every exchange that a run from the start reaches. -/
structure Followed (capacity : ℕ) (body : List UInt8) (script : Program UInt8)
    (turns : List Turn) (e : Exchange) : Prop where
  consistent : Consistent (script.output (body ++ [0])) e
  fated : Fated capacity (script.fate capacity 0 0 (body ++ [0])) e
  counted : Counted turns e

theorem followed {capacity : ℕ} {body : List UInt8} {script : Program UInt8} {turns : List Turn}
    {e : Exchange} (h : exec (Exchange.step capacity) (.start body script) turns = .ok e) :
    Followed capacity body script turns e := by
  refine exec_induction h ⟨rfl, ⟨rfl, Nat.zero_le _, nofun⟩, rfl⟩ ?_
  intro turns e turn e' he hs
  exact ⟨he.consistent.step hs, he.fated.step hs, he.counted.step hs⟩

section Stopped

variable {capacity : ℕ} {fate : Fate} {e : Exchange} (hcapacity : 0 < capacity)
  (hworker : ∀ e', e.step capacity .worker ≠ .ok e')
  (hscript : ∀ e', e.step capacity .script ≠ .ok e')

include hcapacity hworker hscript

/-- A worker that sends waits for a script that waits for the worker. -/
theorem Fated.jams (h : Fated capacity fate e) {bytes : List UInt8}
    (hsending : e.worker = .sending bytes) : bytes ≠ [] ∧ fate = .jams := by
  obtain ⟨worker, stdin, stdout, stderr, script⟩ := e
  obtain ⟨hfate, -, -⟩ := h
  cases hsending
  simp only [Exchange.step] at hworker hscript
  cases bytes with
  | nil => exact absurd rfl (hworker _)
  | cons b bytes =>
    refine ⟨List.cons_ne_nil b bytes, ?_⟩
    cases script with
    | none => exact absurd rfl (hworker _)
    | some script =>
      have hfull : capacity ≤ stdin.length :=
        Nat.le_of_not_lt (fun hroom ↦ hworker _ (if_pos hroom))
      rw [← hfate]
      cases script with
      | exit => exact absurd rfl (hscript _)
      | write c next =>
        have hstdout : capacity ≤ stdout.length :=
          Nat.le_of_not_lt (fun hroom ↦ hscript _ (if_pos hroom))
        refine if_pos ⟨hstdout, ?_⟩
        change capacity < (stdin ++ b :: bytes).length
        rw [List.length_append, List.length_cons]
        omega
      | error c next =>
        have hstderr : capacity ≤ stderr.length :=
          Nat.le_of_not_lt (fun hroom ↦ hscript _ (if_pos hroom))
        refine (if_pos hstderr).trans (if_pos ?_)
        change capacity < (stdin ++ b :: bytes).length
        rw [List.length_append, List.length_cons]
        omega
      | read next =>
        cases stdin with
        | nil => exact absurd hfull (Nat.not_le.mpr hcapacity)
        | cons c stdin => exact absurd rfl (hscript _)

/-- A worker that reads waits for a script whose errors have no room. -/
theorem Fated.starves (h : Fated capacity fate e) {timeouts : ℕ} {reads : List (List UInt8)}
    (hreading : e.worker = .reading timeouts reads) : fate = .starves := by
  obtain ⟨worker, stdin, stdout, stderr, script⟩ := e
  obtain ⟨hfate, hlength, -⟩ := h
  cases hreading
  simp only [Exchange.step] at hworker hscript
  cases stdout with
  | cons b bytes => exact absurd rfl (hworker _)
  | nil =>
    cases script with
    | none => exact absurd rfl (hworker _)
    | some script =>
      cases script with
      | exit => exact absurd rfl (hscript _)
      | write c next => exact absurd (if_pos hcapacity) (hscript _)
      | error c next =>
        have hstderr : capacity ≤ stderr.length :=
          Nat.le_of_not_lt (fun hroom ↦ hscript _ (if_pos hroom))
        rw [← hfate]
        exact (if_pos hstderr).trans (if_neg (Nat.not_lt.mpr hlength))
      | read next =>
        cases stdin with
        | nil => exact absurd rfl (hscript _)
        | cons c stdin => exact absurd rfl (hscript _)

end Stopped

/-- A worker that has given up has sent everything. -/
theorem Fated.ne_jams {capacity : ℕ} {fate : Fate} {e : Exchange} (h : Fated capacity fate e)
    (hfailed : e.worker = .failed) : fate ≠ .jams := by
  obtain ⟨worker, stdin, stdout, stderr, script⟩ := e
  obtain ⟨hfate, hlength, -⟩ := h
  cases hfailed
  rw [← hfate]
  cases script with
  | none => exact nofun
  | some script => exact Program.fate_ne_jams hlength script _ _

/-- A worker that has an answer has it from a script that has exited. -/
theorem Fated.finishes {capacity : ℕ} {fate : Fate} {e : Exchange} (h : Fated capacity fate e)
    {reads : List (List UInt8)} (hanswered : e.worker = .answered reads) : fate = .finishes := by
  have hfate := h.fate_eq
  rw [Exchange.fate, h.script_eq reads hanswered] at hfate
  exact hfate.symm

/-- How the worker ends for a script of this fate and output, behind so many timeouts. -/
def Ends (output : List UInt8) (timeouts : ℕ) (place : Place) : Fate → Prop
  | .jams => ∃ b bytes, place = .sending (b :: bytes)
  | .starves => place = .failed ∧ timeouts = 7
  | .finishes => (∃ reads, place = .answered reads ∧ reads.flatten = output ∧ timeouts ≤ 6) ∨
      place = .failed ∧ timeouts = 7

/-- In every order of the steps, the worker gets the output of a script that comes to its end or
gives up at the seventh timeout. It waits for ever in its write for one that waits for room while
more of the body is unread than its pipe holds, and always gives up on any other script whose errors
fill their pipe. -/
theorem complete_runs {capacity : ℕ} (hcapacity : 0 < capacity) {body : List UInt8}
    {script : Program UInt8} {turns : List Turn} {e : Exchange}
    (hrun : exec (Exchange.step capacity) (.start body script) turns = .ok e)
    (hstop : Stopped (Exchange.step capacity) (fun _ ↦ True) e) :
    Ends (script.output (body ++ [0])) (turns.count .timeout) e.worker
      (script.fate capacity 0 0 (body ++ [0])) := by
  obtain ⟨hconsistent, hfated, hcounted⟩ := followed hrun
  have hworker := fun e' ↦ hstop .worker e' trivial
  have hscript := fun e' ↦ hstop .script e' trivial
  cases hplace : e.worker with
  | sending bytes =>
    obtain ⟨hne, hfate⟩ := hfated.jams hcapacity hworker hscript hplace
    rw [hfate]
    exact ⟨bytes.head hne, bytes.tail, by rw [List.cons_head_tail]⟩
  | reading timeouts reads =>
    -- the script waits, and `poll` can time out once more
    obtain ⟨worker, stdin, stdout, stderr, script⟩ := e
    cases hplace
    have htimeout := fun e' ↦ hstop .timeout e' trivial
    cases stdout with
    | cons b bytes => exact absurd rfl (hworker _)
    | nil =>
      cases script with
      | none => exact absurd rfl (hworker _)
      | some script =>
        by_cases htimeouts : timeouts > 5
        · exact absurd (if_pos htimeouts) (htimeout _)
        · exact absurd (if_neg htimeouts) (htimeout _)
  | failed =>
    rw [Counted, hplace] at hcounted
    have hne := hfated.ne_jams hplace
    cases hfate : script.fate capacity 0 0 (body ++ [0]) with
    | jams => exact absurd hfate hne
    | starves => exact ⟨rfl, hcounted⟩
    | finishes => exact .inr ⟨rfl, hcounted⟩
  | answered reads =>
    rw [Counted, hplace] at hcounted
    rw [Consistent, hplace] at hconsistent
    rw [hfated.finishes hplace]
    exact .inl ⟨reads, rfl, hconsistent.1, hcounted⟩

/-- A script that writes more than a pipe holds before it reads. -/
def writesFirst : Program UInt8 := .write 49 (.write 50 (.read fun _ ↦ .exit))

theorem complete_runs_writesFirst :
    Ends [49, 50] 0 (.sending [111, 0]) (writesFirst.fate 1 0 0 [104, 111, 0]) := by
  have hrun : exec (Exchange.step 1) (.start [104, 111] writesFirst) [.worker, .script] =
      .ok ⟨.sending [111, 0], [104], [49], [], some (.write 50 (.read fun _ ↦ .exit))⟩ := rfl
  refine complete_runs Nat.one_pos hrun ?_
  rintro (_ | _ | _) e' -
  all_goals exact nofun

/-- The worker of a script that is never behind for seven timeouts is sure to get its output, in
every order of the steps, exactly when the script neither fills the pipe of its errors nor is
stopped by a full pipe before the worker has written everything. -/
theorem timely_runs_answer_iff {capacity : ℕ} (hcapacity : 0 < capacity) (body : List UInt8)
    (script : Program UInt8) :
    (∀ turns e, exec (Exchange.step capacity) (.start body script) turns = .ok e →
      turns.count .timeout ≤ 6 → ∃ more e', .timeout ∉ more ∧
        exec (Exchange.step capacity) e more = .ok e' ∧
        ∃ reads, e'.worker = .answered reads ∧ reads.flatten = script.output (body ++ [0])) ↔
      script.fate capacity 0 0 (body ++ [0]) = .finishes := by
  constructor
  · intro h
    obtain ⟨turns, e, -, hrun, reads, hanswered, -⟩ := h [] _ rfl (Nat.zero_le _)
    exact (followed hrun).fated.finishes hanswered
  · intro hfate turns e hrun hcount
    obtain ⟨more, e', hmore, hrun', hstop⟩ :=
      exists_stopped Exchange.left (fun _ _ _ ↦ left_lt_of_step) (· ≠ Turn.timeout) e
    have htimely : Turn.timeout ∉ more := fun hmem ↦ hmore Turn.timeout hmem rfl
    have hwhole : exec (Exchange.step capacity) (.start body script) (turns ++ more) = .ok e' := by
      rw [exec_append, hrun]
      exact hrun'
    obtain ⟨hconsistent, hfated, hcounted⟩ := followed hwhole
    have hworker := fun e' ↦ hstop .worker e' nofun
    have hscript := fun e' ↦ hstop .script e' nofun
    have hcount' : (turns ++ more).count .timeout ≤ 6 := by
      rwa [List.count_append, List.count_eq_zero.mpr htimely]
    refine ⟨more, e', htimely, hrun', ?_⟩
    cases hplace : e'.worker with
    | sending bytes =>
      cases hfate.symm.trans (hfated.jams hcapacity hworker hscript hplace).2
    | reading timeouts reads =>
      cases hfate.symm.trans (hfated.starves hcapacity hworker hscript hplace)
    | failed =>
      rw [Counted, hplace] at hcounted
      omega
    | answered reads =>
      rw [Consistent, hplace] at hconsistent
      exact ⟨reads, rfl, hconsistent.1⟩

theorem timely_runs_answer_iff_writesFirst :
    ¬ ∀ turns e, exec (Exchange.step 1) (.start [104, 111] writesFirst) turns = .ok e →
      turns.count .timeout ≤ 6 → ∃ more e', .timeout ∉ more ∧
        exec (Exchange.step 1) e more = .ok e' ∧
        ∃ reads, e'.worker = .answered reads ∧
          reads.flatten = writesFirst.output ([104, 111] ++ [0]) :=
  fun h ↦ by cases (timely_runs_answer_iff Nat.one_pos [104, 111] writesFirst).mp h

end Wsic.Cgi
