import Mathlib.Data.Fintype.Prod
import Wsic.Lib.Descriptors

/-!
# CGI processes

Model of `cgi_process_t` and of the system calls that `cgi_spawn`, `cgi_flushStdin`, `cgi_read`,
`cgi_closeProcess` and their caller `worker_returnCGI` make, `src/cgi/cgi.c` and
`src/worker/worker.c:642–695`, and of what the child does to its copy of the descriptors before
it runs the script, `cgi.c:54–75`. The second half says for which numbers of the pipes the
script finds the right ends behind its standard streams.
-/

open Descriptors

namespace Wsic.Cgi

/-- The three pipes of a process. -/
inductive Stream where
  | stdin
  | stdout
  | stderr
deriving DecidableEq

/-- `PIPE_READ` and `PIPE_WRITE`, `cgi.c:14–15`. -/
inductive Side where
  | read
  | write
deriving DecidableEq

instance : Fintype Stream := ⟨{.stdin, .stdout, .stderr}, by rintro (_ | _ | _) <;> decide⟩

instance : Fintype Side := ⟨{.read, .write}, by rintro (_ | _) <;> decide⟩

/-- A system call of `worker_returnCGI` that can change descriptors or processes, or read and
write through them. -/
inductive Call where
  /-- `pipe`, `cgi.c:22`, `cgi.c:29` and `cgi.c:36`. -/
  | pipe (stream : Stream)
  /-- `fork`, `cgi.c:46`. -/
  | fork
  | close (stream : Stream) (side : Side)
  /-- The body and the NUL behind it, `cgi.c:192` and `cgi.c:206`. -/
  | write
  /-- The loop of `cgi_read`, `cgi.c:139–186`. -/
  | read
  /-- `cgi_waitForExit`, `cgi.c:219`. -/
  | wait
  /-- `kill`, `cgi.c:227`. -/
  | kill
  /-- The process that is null is followed, `worker.c:647`. -/
  | follow
deriving DecidableEq

/-- `cgi_closeProcess`, `cgi.c:226`. -/
def closeProcess : List Call :=
  [.kill, .close .stdin .read, .close .stdin .write, .close .stdout .read, .close .stdout .write,
    .close .stderr .read, .close .stderr .write]

/-- What is left of `worker_returnCGI` when a call of `cgi_spawn` has failed, `cgi.c:25–26` and
its siblings: the process is freed all the same. -/
def spawnFailed : List Call := closeProcess ++ [.follow]

/-- What is left of `worker_returnCGI` when nothing could be read, `worker.c:670–676`. -/
def readFailed : List Call := closeProcess

/-- The calls of `worker_returnCGI` when none of them fails. -/
def returnCGI : List Call :=
  [.pipe .stdin, .pipe .stdout, .pipe .stderr, .fork, .close .stdin .read, .close .stdout .write,
    .write, .close .stdin .write, .read, .wait] ++ closeProcess

/-! ### The child -/

variable {F : Type}

/-- The redirection of one stream, such as `cgi.c:57–61`: `dup2` of the end that the child uses,
unless it fails and the child exits, and `close` of both old ends. -/
def redirectStream (t : Table F) (ends : Side → ℕ) (used : Side) (target : ℕ) :
    Option (Table F) :=
  match t.file (ends used) with
  | none => none
  | some _ => some (((t.dup2 (ends used) target).close (ends .read)).close (ends .write))

/-- The descriptors that the script is run with, `cgi.c:56–75`, when the pipes have these
numbers. -/
def redirect (t : Table F) (ends : Stream → Side → ℕ) : Option (Table F) := do
  let t ← redirectStream t (ends .stdin) .read 0
  let t ← redirectStream t (ends .stdout) .write 1
  redirectStream t (ends .stderr) .write 2

/-- The pipes are open under these numbers, and no two ends are the same file. -/
structure Piped (t : Table F) (ends : Stream → Side → ℕ) (pipes : Stream → Side → F) : Prop where
  file : ∀ stream side, t.file (ends stream side) = some (pipes stream side)
  different : ∀ stream side stream' side', pipes stream side = pipes stream' side' →
    stream = stream' ∧ side = side'

/-- The standard streams are the ends of the pipes that are meant for the child. -/
def Connected (t : Table F) (pipes : Stream → Side → F) : Prop :=
  t.file 0 = some (pipes .stdin .read) ∧ t.file 1 = some (pipes .stdout .write) ∧
    t.file 2 = some (pipes .stderr .write)

/-- No pipe has a number that is overwritten before its own redirection or closed with it. -/
def Clear (ends : Stream → Side → ℕ) : Prop :=
  ∀ side, 0 < ends .stdin side ∧ 1 < ends .stdout side ∧ 2 < ends .stderr side

theorem redirectStream_eq {t : Table F} {ends : Side → ℕ} {used : Side} {f : F}
    (h : t.file (ends used) = some f) (target : ℕ) :
    ∃ t', redirectStream t ends used target = some t' ∧
      ∀ m, t'.file m = if m = ends .read ∨ m = ends .write then none
        else if m = target then some f else t.file m := by
  refine ⟨_, by rw [redirectStream, h], fun m ↦ ?_⟩
  rw [Table.file_close, Table.file_close, Table.file_dup2 h]
  by_cases hr : m = ends .read <;> by_cases hw : m = ends .write <;> simp [hr, hw]

/-- A number that is open behind a redirection is none of the old ends, and was open on the same
file unless the redirection has set it. -/
theorem file_of_redirectStream {t t' : Table F} {ends : Side → ℕ} {used : Side} {target : ℕ}
    (h : redirectStream t ends used target = some t') {m : ℕ} {f : F} (hm : t'.file m = some f) :
    (∀ side, m ≠ ends side) ∧ (m ≠ target → t.file m = some f) := by
  cases hf : t.file (ends used) with
  | none =>
    rw [redirectStream, hf] at h
    cases h
  | some g =>
    obtain ⟨t'', ht, hfile⟩ := redirectStream_eq hf target
    rw [h] at ht
    cases ht
    rw [hfile] at hm
    split at hm
    · cases hm
    · next hends =>
      refine ⟨?_, fun hne ↦ by rwa [if_neg hne] at hm⟩
      rintro (_ | _) rfl
      · exact hends (.inl rfl)
      · exact hends (.inr rfl)

theorem Piped.injective {t : Table F} {ends : Stream → Side → ℕ} {pipes : Stream → Side → F}
    (h : Piped t ends pipes) {s s' : Stream} {d d' : Side} (he : ends s d = ends s' d') :
    s = s' ∧ d = d' := by
  apply h.different
  have hfile := h.file s d
  rw [he, h.file] at hfile
  exact (Option.some.inj hfile).symm

/-- The redirections connect the script when none of them is in the way of another. -/
theorem Piped.connected {t : Table F} {ends : Stream → Side → ℕ} {pipes : Stream → Side → F}
    (h : Piped t ends pipes) (hc : Clear ends) :
    ∃ t', redirect t ends = some t' ∧ Connected t' pipes ∧
      ∀ m, 2 < m → (∀ stream side, m ≠ ends stream side) → t'.file m = t.file m := by
  have hfile := h.file
  have hends := @h.injective
  have hread := hc .read
  have hwrite := hc .write
  obtain ⟨t₁, hr₁, ht₁⟩ := redirectStream_eq (hfile .stdin .read) 0
  have hout : t₁.file (ends .stdout .write) = some (pipes .stdout .write) := by grind
  obtain ⟨t₂, hr₂, ht₂⟩ := redirectStream_eq hout 1
  have herr : t₂.file (ends .stderr .write) = some (pipes .stderr .write) := by grind
  obtain ⟨t₃, hr₃, ht₃⟩ := redirectStream_eq herr 2
  refine ⟨t₃, ?_, ⟨?_, ?_, ?_⟩, ?_⟩
  · rw [redirect, hr₁, Option.bind_eq_bind, Option.bind_some, hr₂, Option.bind_some, hr₃]
  · grind
  · grind
  · grind
  · intro m hm hne
    grind

/-- The script reads its input and writes its output and its errors through the pipes of its
process exactly when no pipe has a number that the redirections set or close on the way. -/
theorem redirect_connected_iff {t : Table F} {ends : Stream → Side → ℕ}
    {pipes : Stream → Side → F} (h : Piped t ends pipes) :
    (∃ t', redirect t ends = some t' ∧ Connected t' pipes) ↔ Clear ends := by
  constructor
  · rintro ⟨t₃, hr, h₀, h₁, h₂⟩ side
    simp only [redirect, Option.bind_eq_bind, Option.bind_eq_some_iff] at hr
    obtain ⟨t₁, hr₁, t₂, hr₂, hr₃⟩ := hr
    -- 0, 1 and 2 traced back from the end
    obtain ⟨herr₂, -⟩ := file_of_redirectStream hr₃ h₂
    obtain ⟨herr₁, hfile₁⟩ := file_of_redirectStream hr₃ h₁
    obtain ⟨herr₀, hfile₀⟩ := file_of_redirectStream hr₃ h₀
    obtain ⟨hout₁, -⟩ := file_of_redirectStream hr₂ (hfile₁ (by decide))
    obtain ⟨hout₀, hfile₀'⟩ := file_of_redirectStream hr₂ (hfile₀ (by decide))
    obtain ⟨hin₀, -⟩ := file_of_redirectStream hr₁ (hfile₀' (by decide))
    have hin := hin₀ side
    have hout := And.intro (hout₀ side) (hout₁ side)
    have herr := And.intro (herr₀ side) (And.intro (herr₁ side) (herr₂ side))
    omega
  · intro hc
    obtain ⟨t', hr, hconnected, -⟩ := h.connected hc
    exact ⟨t', hr, hconnected⟩

/-- The numbers of three pipes when the numbers from `first` on are free. -/
def consecutive (first : ℕ) : Stream → Side → ℕ
  | .stdin, .read => first
  | .stdin, .write => first + 1
  | .stdout, .read => first + 2
  | .stdout, .write => first + 3
  | .stderr, .read => first + 4
  | .stderr, .write => first + 5

theorem redirect_connected_iff_three :
    (∃ t', redirect (⟨(List.range 9).map some⟩ : Table ℕ) (consecutive 3) = some t' ∧
      Connected t' (consecutive 3)) ↔ Clear (consecutive 3) :=
  redirect_connected_iff ⟨by rintro (_ | _ | _) (_ | _) <;> rfl, by decide⟩

end Wsic.Cgi
