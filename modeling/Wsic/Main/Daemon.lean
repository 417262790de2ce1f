import Wsic.Lib.Descriptors
import Wsic.Server.Listening

/-!
# The daemon

Model of what a daemon does to its descriptors before it serves: `main` closes the standard
streams, `src/main.c:133–153`, the C library connects to the system log at the first message that
is logged, `src/logging/logging.h:52–68`, and the set-up loop of `server_start` creates the
listening sockets, `src/server/server.c:94–132`. Every descriptor gets the lowest number that is
free. A server process that `main` starts again, `main.c:184–213`, finds what `main` has opened
meanwhile. The results say which ports are served, and when the first client that is accepted,
`server.c:208–240`, gets the number of the standard error.
-/

open CMemory Descriptors

namespace Wsic.Daemon

open Server

/-! ### Logging -/

/-- `LOG_ERROR`, `logging.h:16`. -/
def logError : ℕ := 3

/-- `LOG_WARNING`, as `syslog.h` has it. -/
def logWarning : ℕ := 4

def logInfo : ℕ := 6

def logDebug : ℕ := 7

/-- `LOGGING_OUTPUT` behind `main.c:145–147`. -/
def disableConsole (output : UInt8) : UInt8 := (output &&& ~~~((0xFF : UInt8) <<< 1)) ||| 2

/-- What a descriptor of the process refers to. -/
inductive File where
  | inherited (number : ℕ)
  | syslog
  | listening (port : ℕ)
  | connection
deriving DecidableEq

/-- The descriptors of the process, whether the C library is connected to the system log, and how
many sockets were created. -/
structure State where
  table : Table File
  connected : Bool
  created : ℕ

section

-- `LOGGING_LEVEL`, and whether the system has a log to connect to.
variable (level : ℕ) (syslogd : Bool)

/-- A message at the level `l`: the first one connects. -/
def State.log (s : State) (l : ℕ) : State :=
  if l ≤ level ∧ syslogd = true ∧ s.connected = false then
    { s with table := s.table.alloc .syslog, connected := true }
  else s

/-- Several messages. -/
def State.logs (s : State) (ls : List ℕ) : State := ls.foldl (State.log level syslogd) s

/-- The messages of `server_listen`, `server.c:168–204`, and of the round behind it,
`server.c:124`, on a socket that was created. -/
def messages (answers : Answers) : List ℕ :=
  if answers.setsockopt < 0 then [logDebug, logError, logError]
  else if !setNonBlocking answers then [logDebug, logError, logError, logError]
  else if answers.bind < 0 then [logDebug, logError, logError]
  else if answers.listen < 0 then [logDebug, logDebug, logError, logError]
  else if answers.socket = 0 then [logDebug, logDebug, logInfo, logError]
  else [logDebug, logDebug, logInfo]

/-- A round of the set-up loop for the port at position `i`: what the system answers, with the
number that the socket gets. -/
def round (s : State) (i : ℕ) (outcome : Answers) : State × Answers :=
  let s := s.log level syslogd logDebug
  if outcome.socket < 0 then (s.logs level syslogd [logError, logError], outcome)
  else
    let answers := { outcome with socket := s.table.lowest }
    ({ s with
      table := s.table.alloc (.listening i)
      created := s.created + 1 }.logs level syslogd (messages answers), answers)

/-- The rounds from position `i` on. -/
def rounds : State → ℕ → List Answers → State × List Answers
  | s, _, [] => (s, [])
  | s, i, outcome :: outcomes =>
    let (s, answers) := round level syslogd s i outcome
    let (s, rest) := rounds s (i + 1) outcomes
    (s, answers :: rest)

/-- `main` with these descriptors, when it forks a server process after as many others: the
standard streams are closed, `main.c:149–152`, and of each process `main` has logged that it was
started, `server.c:68`, that it has ended, `main.c:290`, that this interrupts the sleep,
`main.c:186`, and that another one is started, `main.c:195` or `main.c:205`. -/
def detached (inherited : Table File) : ℕ → State
  | 0 => ⟨((inherited.close 0).close 1).close 2, false, 0⟩
  | restarts + 1 => (detached inherited restarts).logs level syslogd
      [logDebug, logWarning, logDebug, logWarning]

/-- The server process when its workers are set up, `server.c:94–110`. -/
def forked (inherited : Table File) (restarts : ℕ) : State :=
  (detached level syslogd inherited restarts).logs level syslogd [logDebug, logDebug]

/-- The set-up loop of the daemon. -/
def setUp (inherited : Table File) (restarts : ℕ) (outcomes : List Answers) :
    State × List Answers :=
  rounds level syslogd (forked level syslogd inherited restarts) 0 outcomes

end

/-! ### The lowest numbers -/

/-- Of the numbers of the standard streams the first `k` are taken, and none by a client. -/
structure Filled (t : Table File) (k : ℕ) : Prop where
  free : ∀ m, m < 3 → (t.file m = none ↔ k ≤ m)
  noClient : ∀ m, m < 3 → t.file m ≠ some .connection

namespace Filled

variable {t : Table File} {k : ℕ}

/-- The next file gets the first of them that is free, if there is one. -/
theorem lowest_eq (h : Filled t k) : min t.lowest 3 = min k 3 := by
  have hfree := t.file_lowest
  by_cases hk : k < 3
  · have hle : t.lowest ≤ k := Table.lowest_le ((h.free k hk).mpr (Nat.le_refl k))
    have hge := (h.free t.lowest (by omega)).mp hfree
    omega
  · have hge : 3 ≤ t.lowest := by
      by_contra hlt
      have := (h.free t.lowest (by omega)).mp hfree
      omega
    omega

theorem alloc (h : Filled t k) {f : File} (hf : f ≠ .connection) :
    Filled (t.alloc f) (k + 1) := by
  have hlowest := h.lowest_eq
  constructor
  · intro m hm
    rw [Table.alloc, Table.file_install]
    by_cases he : m = t.lowest
    · rw [if_pos he]
      exact iff_of_false (Option.some_ne_none f) (by omega)
    · rw [if_neg he, h.free m hm]
      omega
  · intro m hm
    rw [Table.alloc, Table.file_install]
    by_cases he : m = t.lowest
    · rw [if_pos he]
      exact fun hc ↦ hf (Option.some.inj hc)
    · rw [if_neg he]
      exact h.noClient m hm

/-- Nothing is taken when the standard streams are closed. -/
theorem closed (t : Table File) : Filled (((t.close 0).close 1).close 2) 0 := by
  have hnone (m : ℕ) (hm : m < 3) : (((t.close 0).close 1).close 2).file m = none := by
    rw [Table.file_close, Table.file_close, Table.file_close]
    split_ifs <;> first | rfl | omega
  refine ⟨fun m hm ↦ iff_of_true (hnone m hm) (Nat.zero_le m), fun m hm ↦ ?_⟩
  rw [hnone m hm]
  exact fun hc ↦ by cases hc

end Filled

/-- The number of descriptors that were opened since the standard streams were closed. -/
def State.opened (s : State) : ℕ := s.created + s.connected.toNat

section

variable (level : ℕ) (syslogd : Bool) {s : State}

theorem log_spec (h : Filled s.table s.opened) (l : ℕ) :
    Filled (s.log level syslogd l).table (s.log level syslogd l).opened ∧
      (s.log level syslogd l).created = s.created ∧
      s.opened ≤ (s.log level syslogd l).opened := by
  unfold State.log
  split
  · next hl =>
    have hopened : (⟨s.table.alloc .syslog, true, s.created⟩ : State).opened = s.opened + 1 := by
      simp [State.opened, hl.2.2]
    refine ⟨?_, rfl, ?_⟩
    · change Filled (s.table.alloc .syslog) (State.opened ⟨s.table.alloc .syslog, true, s.created⟩)
      rw [hopened]
      exact h.alloc (fun he ↦ by cases he)
    · omega
  · exact ⟨h, rfl, Nat.le_refl _⟩

theorem logs_spec (h : Filled s.table s.opened) (ls : List ℕ) :
    Filled (s.logs level syslogd ls).table (s.logs level syslogd ls).opened ∧
      (s.logs level syslogd ls).created = s.created ∧
      s.opened ≤ (s.logs level syslogd ls).opened := by
  induction ls generalizing s with
  | nil => exact ⟨h, rfl, Nat.le_refl _⟩
  | cons l ls ih =>
    obtain ⟨hfilled, hcreated, hle⟩ := log_spec level syslogd h l
    obtain ⟨hfilled', hcreated', hle'⟩ := ih hfilled
    exact ⟨hfilled', hcreated'.trans hcreated, hle.trans hle'⟩

/-! ### The rounds -/

/-- What the system answers when the socket gets this number. -/
def numbered (outcome : Answers) (number : ℕ) : Answers := { outcome with socket := number }

theorem listens_numbered {outcome : Answers} (h : 0 ≤ outcome.socket) (number : ℕ) :
    (numbered outcome number).Listens ↔ outcome.Listens :=
  and_congr_left (fun _ ↦ iff_of_true (Int.natCast_nonneg number) h)

/-- The state when the socket of a round has been created. -/
def socketCreated (s : State) (i : ℕ) : State :=
  { s with table := s.table.alloc (.listening i), created := s.created + 1 }

theorem filled_socketCreated (h : Filled s.table s.opened) (i : ℕ) :
    Filled (socketCreated s i).table (socketCreated s i).opened ∧
      (socketCreated s i).opened = s.opened + 1 := by
  have hopened : (socketCreated s i).opened = s.opened + 1 := by
    simp only [State.opened, socketCreated]
    omega
  rw [hopened]
  exact ⟨h.alloc (fun he ↦ by cases he), rfl⟩

/-- A round without a socket. -/
theorem round_noSocket (s : State) (i : ℕ) {outcome : Answers} (h : outcome.socket < 0) :
    round level syslogd s i outcome =
      ((s.log level syslogd logDebug).logs level syslogd [logError, logError], outcome) :=
  if_pos h

/-- A round whose socket gets the next number. -/
theorem round_socket (s : State) (i : ℕ) {outcome : Answers} (h : 0 ≤ outcome.socket) :
    round level syslogd s i outcome =
      ((socketCreated (s.log level syslogd logDebug) i).logs level syslogd
        (messages (numbered outcome (s.log level syslogd logDebug).table.lowest)),
        numbered outcome (s.log level syslogd logDebug).table.lowest) :=
  if_neg (Int.not_lt.mpr h)

/-- A round leaves the numbers in order. -/
theorem round_spec (h : Filled s.table s.opened) (i : ℕ) (outcome : Answers) :
    Filled (round level syslogd s i outcome).1.table (round level syslogd s i outcome).1.opened ∧
      (round level syslogd s i outcome).1.created =
        s.created + (if 0 ≤ outcome.socket then 1 else 0) ∧
      s.opened + (if 0 ≤ outcome.socket then 1 else 0) ≤
        (round level syslogd s i outcome).1.opened := by
  obtain ⟨hfilled, hcreated, hle⟩ := log_spec level syslogd h logDebug
  by_cases hsocket : 0 ≤ outcome.socket
  · obtain ⟨hnext, hopened⟩ := filled_socketCreated hfilled i
    rw [round_socket level syslogd s i hsocket, if_pos hsocket]
    obtain ⟨hfilled', hcreated', hle'⟩ := logs_spec level syslogd hnext
      (messages (numbered outcome (s.log level syslogd logDebug).table.lowest))
    dsimp only
    refine ⟨hfilled', hcreated'.trans ?_, by omega⟩
    rw [← hcreated]
    rfl
  · rw [round_noSocket level syslogd s i (Int.not_le.mp hsocket), if_neg hsocket]
    obtain ⟨hfilled', hcreated', hle'⟩ :=
      logs_spec level syslogd hfilled [logError, logError]
    exact ⟨hfilled', hcreated'.trans hcreated, hle.trans hle'⟩

theorem listens_round (s : State) (i : ℕ) (outcome : Answers) :
    (round level syslogd s i outcome).2.Listens ↔ outcome.Listens := by
  by_cases hsocket : 0 ≤ outcome.socket
  · rw [round_socket level syslogd s i hsocket]
    exact listens_numbered hsocket _
  · rw [round_noSocket level syslogd s i (Int.not_le.mp hsocket)]

/-- A socket has the number 0 only if no descriptor was opened before it. -/
theorem socket_round (h : Filled s.table s.opened) (i : ℕ) {outcome : Answers}
    (hsocket : 0 ≤ outcome.socket) :
    (round level syslogd s i outcome).2.socket = 0 ↔
      (s.log level syslogd logDebug).opened = 0 := by
  obtain ⟨hfilled, -, -⟩ := log_spec level syslogd h logDebug
  rw [round_socket level syslogd s i hsocket]
  have hlowest := hfilled.lowest_eq
  change ((s.log level syslogd logDebug).table.lowest : ℤ) = 0 ↔ _
  omega

/-- All rounds leave the numbers in order, and later ones do not get the number 0. -/
theorem rounds_spec (h : Filled s.table s.opened) (i : ℕ) (outcomes : List Answers) :
    Filled (rounds level syslogd s i outcomes).1.table
        (rounds level syslogd s i outcomes).1.opened ∧
      (rounds level syslogd s i outcomes).1.created =
        s.created + outcomes.countP (0 ≤ ·.socket) ∧
      (rounds level syslogd s i outcomes).2.map (decide ·.Listens) =
        outcomes.map (decide ·.Listens) ∧
      (0 < s.opened → ∀ answers ∈ (rounds level syslogd s i outcomes).2,
        answers.Listens → answers.socket ≠ 0) := by
  induction outcomes generalizing s i with
  | nil => exact ⟨h, rfl, rfl, fun _ _ hm ↦ absurd hm List.not_mem_nil⟩
  | cons outcome outcomes ih =>
    obtain ⟨hfilled, hcreated, hle⟩ :=
      round_spec level syslogd h i outcome
    obtain ⟨hfilled', hcreated', hlistens, hzero⟩ := ih hfilled (i + 1)
    have hhead : decide (round level syslogd s i outcome).2.Listens = decide outcome.Listens :=
      decide_eq_decide.mpr (listens_round level syslogd s i outcome)
    refine ⟨hfilled', ?_, congrArg₂ List.cons hhead hlistens, ?_⟩
    · change (rounds level syslogd (round level syslogd s i outcome).1 (i + 1)
        outcomes).1.created = _
      rw [hcreated', hcreated]
      simp only [List.countP_cons, decide_eq_true_eq]
      omega
    · intro hopened answers hm hl
      rcases List.mem_cons.mp hm with rfl | hm
      · have hsocket := ((listens_round level syslogd s i outcome).mp hl).1
        obtain ⟨-, -, hle⟩ := log_spec level syslogd h logDebug
        intro he
        have hnone := (socket_round level syslogd h i hsocket).mp he
        omega
      · exact hzero (by omega) answers hm hl

/-- Connected once, the process logs without opening anything. -/
theorem logs_connected (h : s.connected = true) (ls : List ℕ) : s.logs level syslogd ls = s := by
  induction ls with
  | nil => rfl
  | cons l ls ih =>
    have hlog : s.log level syslogd l = s := if_neg (fun hl ↦ by rw [h] at hl; cases hl.2.2)
    rw [State.logs, List.foldl_cons, hlog]
    exact ih

theorem log_connected (h : s.connected = true) (l : ℕ) : s.log level syslogd l = s :=
  logs_connected level syslogd h [l]

theorem connected_rounds (h : s.connected = true) (i : ℕ) (outcomes : List Answers) :
    (rounds level syslogd s i outcomes).1.connected = true := by
  induction outcomes generalizing s i with
  | nil => exact h
  | cons outcome outcomes ih =>
    have hround : (round level syslogd s i outcome).1.connected = true := by
      by_cases hsocket : 0 ≤ outcome.socket
      · have hcreated : (socketCreated s i).connected = true := h
        rw [round_socket level syslogd s i hsocket, log_connected level syslogd h,
          logs_connected level syslogd hcreated]
        exact hcreated
      · rw [round_noSocket level syslogd s i (Int.not_le.mp hsocket), log_connected level syslogd h,
          logs_connected level syslogd h]
        exact h
    exact ih hround (i + 1)

/-- Nor do rounds without a socket. -/
theorem rounds_noSocket (h : s.connected = true) (i : ℕ) {outcomes : List Answers}
    (hsockets : ∀ outcome ∈ outcomes, outcome.socket < 0) :
    rounds level syslogd s i outcomes = (s, outcomes) := by
  induction outcomes generalizing i with
  | nil => rfl
  | cons outcome outcomes ih =>
    obtain ⟨houtcome, hrest⟩ := List.forall_mem_cons.mp hsockets
    rw [rounds, round_noSocket level syslogd s i houtcome, log_connected level syslogd h,
      logs_connected level syslogd h]
    dsimp only
    rw [ih (i + 1) hrest]

/-! ### The set-up -/

/-- The first message that such a server process or `main` before it logs. -/
def earliest (restarts : ℕ) : ℕ := if restarts = 0 then logDebug else logWarning

theorem connected_log (l : ℕ) :
    (s.log level syslogd l).connected = (s.connected || decide (l ≤ level) && syslogd) := by
  unfold State.log
  cases hs : s.connected <;> cases syslogd <;> by_cases hl : l ≤ level <;> simp [hs, hl]

/-- `main` has connected to the system log if it has logged that a server process ended. -/
theorem detached_spec (inherited : Table File) (restarts : ℕ) :
    Filled (detached level syslogd inherited restarts).table
        (detached level syslogd inherited restarts).opened ∧
      (detached level syslogd inherited restarts).created = 0 ∧
      (detached level syslogd inherited restarts).connected =
        (decide (restarts ≠ 0 ∧ logWarning ≤ level) && syslogd) := by
  induction restarts with
  | zero => exact ⟨.closed inherited, rfl, rfl⟩
  | succ restarts ih =>
    obtain ⟨hfilled, hcreated, hconnected⟩ := ih
    obtain ⟨hfilled', hcreated', -⟩ :=
      logs_spec level syslogd hfilled [logDebug, logWarning, logDebug, logWarning]
    refine ⟨hfilled', hcreated'.trans hcreated, ?_⟩
    simp only [detached, State.logs, List.foldl_cons, List.foldl_nil, connected_log, hconnected]
    -- what is logged at the level of debugging is also logged at that of warnings
    have hdebug : logDebug ≤ level → logWarning ≤ level := le_trans (by decide)
    cases syslogd <;> by_cases hw : logWarning ≤ level <;> by_cases hd : logDebug ≤ level <;>
      simp_all

/-- The process begins with no descriptor of its own but the system log, if enough is logged. -/
theorem forked_spec (inherited : Table File) (restarts : ℕ) :
    Filled (forked level syslogd inherited restarts).table
        (forked level syslogd inherited restarts).opened ∧
      (forked level syslogd inherited restarts).created = 0 ∧
      (forked level syslogd inherited restarts).connected =
        (decide (earliest restarts ≤ level) && syslogd) := by
  obtain ⟨hdetached, hcreated, hconnected⟩ := detached_spec level syslogd inherited restarts
  obtain ⟨hfilled, hcreated', -⟩ := logs_spec level syslogd hdetached [logDebug, logDebug]
  refine ⟨hfilled, hcreated'.trans hcreated, ?_⟩
  simp only [forked, State.logs, List.foldl_cons, List.foldl_nil, connected_log, hconnected]
  have hdebug : logDebug ≤ level → logWarning ≤ level := le_trans (by decide)
  unfold earliest
  cases syslogd <;> by_cases hr : restarts = 0 <;> by_cases hw : logWarning ≤ level <;>
    by_cases hd : logDebug ≤ level <;> simp_all

/-- The loop makes a round for every port. -/
theorem length_setUp (inherited : Table File) (restarts : ℕ) (outcomes : List Answers) :
    (setUp level syslogd inherited restarts outcomes).2.length = outcomes.length := by
  obtain ⟨hforked, -, -⟩ := forked_spec level syslogd inherited restarts
  obtain ⟨-, -, hlistens, -⟩ := rounds_spec level syslogd hforked 0 outcomes
  rw [setUp, ← List.length_map (decide ·.Listens), hlistens, List.length_map]

theorem connected_forked (inherited : Table File) {restarts : ℕ}
    (hearly : earliest restarts ≤ level ∧ syslogd = true) :
    (forked level syslogd inherited restarts).connected = true := by
  rw [(forked_spec level syslogd inherited restarts).2.2, decide_eq_true hearly.1, hearly.2]
  rfl

/-- What the system answers in the set-up loop of the daemon. -/
def answering (answers : List Answers) (i : ℕ) (_ : UInt16) (_ : ℕ) : Answers :=
  answers.getD i ⟨-1, 0, 0, 0, 0, 0⟩

theorem answersFrom_answering (answers : List Answers) (backlog : ℕ) {values : List UInt64}
    (h : answers.length = values.length) :
    answersFrom (answering answers) backlog 0 values = answers := by
  apply List.ext_getElem
  · rw [answersFrom, List.length_mapIdx, h]
  · intro i hi hi'
    simp only [answersFrom, List.getElem_mapIdx, answering, Nat.zero_add]
    rw [List.getD_eq_getElem?_getD, List.getElem?_eq_getElem hi', Option.getD_some]

/-- Whether no failure comes before a port that listens depends on which ports do. -/
theorem pairwise_of_map_eq {l m : List Answers}
    (h : l.map (decide ·.Listens) = m.map (decide ·.Listens)) :
    l.Pairwise (fun a b ↦ b.Listens → a.Listens) ↔
      m.Pairwise (fun a b ↦ b.Listens → a.Listens) := by
  have hmap (l : List Answers) : l.Pairwise (fun a b ↦ b.Listens → a.Listens) ↔
      (l.map (decide ·.Listens)).Pairwise (fun a b ↦ b = true → a = true) := by
    rw [List.pairwise_map]
    simp only [decide_eq_true_eq]
  rw [hmap, hmap, h]

theorem listens_of_map_eq {l m : List Answers}
    (h : l.map (decide ·.Listens) = m.map (decide ·.Listens)) :
    (∀ a ∈ l, ¬ a.Listens) ↔ ∀ a ∈ m, ¬ a.Listens := by
  have hmap (l : List Answers) : (∀ a ∈ l, ¬ a.Listens) ↔
      ∀ b ∈ l.map (decide ·.Listens), b = false := by
    simp only [List.forall_mem_map, decide_eq_false_iff_not]
  rw [hmap, hmap, h]

/-- Unless the system log has it, the first socket gets the number 0. -/
theorem first_socket (inherited : Table File) (restarts : ℕ)
    (h : ¬ (earliest restarts ≤ level ∧ syslogd = true)) {outcome : Answers}
    (hsocket : 0 ≤ outcome.socket) :
    (round level syslogd (forked level syslogd inherited restarts) 0 outcome).2.socket = 0 := by
  obtain ⟨hforked, hcreated, hconnected⟩ := forked_spec level syslogd inherited restarts
  refine (socket_round level syslogd hforked 0 hsocket).mpr ?_
  have hnot : (forked level syslogd inherited restarts).connected = false := by
    rw [hconnected, Bool.and_eq_false_iff, decide_eq_false_iff_not]
    by_cases hl : earliest restarts ≤ level
    · exact .inr (Bool.eq_false_of_not_eq_true (fun hs ↦ h ⟨hl, hs⟩))
    · exact .inl hl
  have hdebug : earliest restarts ≤ logDebug := by
    unfold earliest
    split <;> decide
  rw [State.log, if_neg (fun hl ↦ h ⟨hdebug.trans hl.1, hl.2.1⟩), State.opened, hcreated, hnot]
  rfl

/-- A daemon serves all ports that it has bound if and only if it has bound none, or it was
connected to the system log before, and no port that could not be bound comes before one that
was. Otherwise the socket of the first port gets the number 0, which stands for a failure. -/
theorem setUp_pollsBound_iff (inherited : Table File) (restarts : ℕ) (outcomes : List Answers)
    (backlog : ℕ) {ports : ListT UInt64} {values : List UInt64} (h : ports.Holds values)
    (hlength : outcomes.length = values.length) :
    PollsBound (answering (setUp level syslogd inherited restarts outcomes).2) backlog ports
        values ↔
      ((earliest restarts ≤ level ∧ syslogd = true) ∨ ∀ outcome ∈ outcomes, ¬ outcome.Listens) ∧
        outcomes.Pairwise (fun a b ↦ b.Listens → a.Listens) := by
  obtain ⟨hforked, -, -⟩ := forked_spec level syslogd inherited restarts
  obtain ⟨-, -, hlistens, hzero⟩ := rounds_spec level syslogd hforked 0 outcomes
  rw [← setUp] at hlistens hzero
  have hsame := (length_setUp level syslogd inherited restarts outcomes).trans hlength
  rw [pollsBound_iff_entries _ backlog h, answersFrom_answering _ backlog hsame,
    polledEntries_iff, pairwise_of_map_eq hlistens]
  refine and_congr_left (fun hpairs ↦ ?_)
  constructor
  · intro hnonzero
    by_contra hnot
    obtain ⟨hearly, hsome⟩ := not_or.mp hnot
    cases outcomes with
    | nil => exact hsome (fun _ hm ↦ absurd hm List.not_mem_nil)
    | cons outcome outcomes =>
      -- no port listens unless the first one does
      have hfirst : outcome.Listens := by
        by_contra hfails
        refine hsome (fun a ha hl ↦ hfails ?_)
        rcases List.mem_cons.mp ha with rfl | ha
        · exact hl
        · exact (List.pairwise_cons.mp hpairs).1 a ha hl
      exact hnonzero _ List.mem_cons_self ((listens_round level syslogd _ 0 outcome).mpr hfirst)
        (first_socket level syslogd inherited restarts hearly hfirst.1)
  · rintro (hearly | hnone)
    · apply hzero
      rw [State.opened, connected_forked level syslogd inherited hearly]
      exact Nat.succ_pos _
    · exact fun answers ha hl ↦ absurd hl ((listens_of_map_eq hlistens).mpr hnone answers ha)

/-- A system that binds two ports. -/
def twoPorts : List Answers := [⟨0, 0, 0, 0, 0, 0⟩, ⟨0, 0, 0, 0, 0, 0⟩]

theorem setUp_pollsBound_iff_twoPorts : ∃ ports : ListT UInt64, ports.Holds [80, 443] ∧
    PollsBound (answering (setUp logDebug true ⟨[]⟩ 0 twoPorts).2) 128 ports [80, 443] ∧
    ¬ PollsBound (answering (setUp logInfo true ⟨[]⟩ 0 twoPorts).2) 128 ports [80, 443] ∧
    PollsBound (answering (setUp logInfo true ⟨[]⟩ 1 twoPorts).2) 128 ports [80, 443] := by
  obtain ⟨ports, hports⟩ := ListT.exists_holds ([80, 443] : List UInt64)
  refine ⟨ports, hports, ?_, ?_, ?_⟩
  · exact (setUp_pollsBound_iff logDebug true ⟨[]⟩ 0 twoPorts 128 hports rfl).mpr (by decide)
  · intro hpolls
    have hnot := (setUp_pollsBound_iff logInfo true ⟨[]⟩ 0 twoPorts 128 hports rfl).mp hpolls
    revert hnot
    decide
  · exact (setUp_pollsBound_iff logInfo true ⟨[]⟩ 1 twoPorts 128 hports rfl).mpr (by decide)

/-! ### The standard error -/

/-- What the text of a message is printed to when it is logged to the console,
`logging.h:57–58`. -/
def console (output : UInt8) (t : Table File) : Option File :=
  if output &&& 1 > 0 then t.file 2 else none

/-- The console is not disabled. -/
theorem disableConsole_console (output : UInt8) (t : Table File) :
    console (disableConsole output) t = console output t := by
  have hbit : disableConsole output &&& 1 = output &&& 1 := by
    rw [disableConsole, show ~~~((0xFF : UInt8) <<< 1) = 1 from rfl, ← UInt8.toBitVec_inj]
    simp only [UInt8.toBitVec_and, UInt8.toBitVec_or, BitVec.and_or_distrib_right,
      BitVec.and_assoc]
    exact BitVec.or_zero
  rw [console, console, hbit]

/-- The messages between the set-up loop and the first client, `server.c:134–135` and
`server.c:217–220`, for this number of ports. -/
def State.ready (s : State) (sockets : Sockets) (ports : ℕ) : State :=
  s.logs level syslogd
    ((if sockets.socketDescriptorCount ≠ ports then [logWarning] else []) ++ [logDebug])

/-- `accept`, `server.c:231`, on an entry that is polled: there are clients only at a listening
socket whose events are waited for. -/
def State.accept (s : State) (entry : Pollfd) : Option State :=
  match s.table.file entry.fd.toNat with
  | some (.listening _) =>
    if entry.pollin then some { s with table := s.table.alloc .connection } else none
  | _ => none

/-- There is a port at which the daemon accepts a first client, and what it logs then is printed to
this client. -/
def LogsToFirstClient (inherited : Table File) (restarts : ℕ) (outcomes : List Answers)
    (backlog : ℕ) (ports : ListT UInt64) : Prop :=
  ∃ sockets polled,
    Server.setUp (answering (setUp level syslogd inherited restarts outcomes).2) backlog ports =
      .ok sockets ∧ sockets.polled = .ok polled ∧ ∃ entry ∈ polled, ∃ s,
        ((setUp level syslogd inherited restarts outcomes).1.ready level syslogd sockets
          ports.length).accept entry = some s ∧
        console (disableConsole 1) s.table = some .connection

/-- The sockets that are stored have other numbers than 0, one each. -/
theorem countP_stored_rounds (h : Filled s.table s.opened) (i : ℕ) (outcomes : List Answers) :
    (rounds level syslogd s i outcomes).2.countP (Answers.Stored ·) + max s.opened 1 ≤
      max (rounds level syslogd s i outcomes).1.opened 1 := by
  induction outcomes generalizing s i with
  | nil => exact (Nat.zero_add _).le
  | cons outcome outcomes ih =>
    obtain ⟨hround, -, hle⟩ := round_spec level syslogd h i outcome
    have hrest := ih hround (i + 1)
    change ((round level syslogd s i outcome).2 :: (rounds level syslogd
        (round level syslogd s i outcome).1 (i + 1) outcomes).2).countP (Answers.Stored ·) +
      max s.opened 1 ≤ max (rounds level syslogd (round level syslogd s i outcome).1 (i + 1)
        outcomes).1.opened 1
    rw [List.countP_cons]
    by_cases hstored : (round level syslogd s i outcome).2.Stored
    · rw [if_pos (decide_eq_true hstored)]
      have hsocket := ((listens_round level syslogd s i outcome).mp hstored.1).1
      obtain ⟨hlogged, -, hopened⟩ := log_spec level syslogd h logDebug
      have hnonzero := mt (socket_round level syslogd h i hsocket).mpr hstored.2
      -- the socket comes after what is opened before it
      obtain ⟨hnext, hsucc⟩ := filled_socketCreated hlogged i
      obtain ⟨-, -, hlast⟩ := logs_spec level syslogd hnext
        (messages (numbered outcome (s.log level syslogd logDebug).table.lowest))
      have heq := congrArg (·.1.opened) (round_socket level syslogd s i hsocket)
      dsimp only at heq
      omega
    · rw [if_neg (by simpa using hstored)]
      omega

/-- A client that is accepted has the number of the standard error when two descriptors were opened
before. -/
theorem opened_accept {s s' : State} {entry : Pollfd} (h : Filled s.table s.opened)
    (haccept : s.accept entry = some s') :
    entry.pollin = true ∧ (console (disableConsole 1) s'.table = some .connection ↔
      s.opened = 2) := by
  have hlowest := h.lowest_eq
  unfold State.accept at haccept
  split at haccept
  · obtain ⟨hpollin, hs⟩ := Option.ite_none_right_eq_some.mp haccept
    cases hs
    refine ⟨hpollin, ?_⟩
    rw [disableConsole_console, console, if_pos (by decide), Table.alloc, Table.file_install]
    by_cases htwo : 2 = s.table.lowest
    · rw [if_pos htwo]
      exact iff_of_true rfl (by omega)
    · rw [if_neg htwo]
      exact iff_of_false (h.noClient 2 (by decide)) (by omega)
  · cases haccept

/-- When at most one socket was stored, only the one of the first port can be waited for. -/
theorem stored_of_polled {l : List Answers} {entry : Pollfd}
    (h : entry ∈ (l.map Answers.entry).take (l.countP (Answers.Stored ·)))
    (hpollin : entry.pollin = true) (hcount : l.countP (Answers.Stored ·) ≤ 1) :
    ∃ answers rest, l = answers :: rest ∧ answers.Stored := by
  cases l with
  | nil => cases h
  | cons answers rest =>
    refine ⟨answers, rest, rfl, ?_⟩
    have hmem : entry ∈ [answers.entry] := List.take_subset_take_left _ hcount h
    have hentry : answers.entry = ⟨entry.fd, true⟩ := by
      rw [← List.mem_singleton.mp hmem, ← hpollin]
    exact (stored_of_entry hentry).1

/-- The set-up of a process that is connected to the system log and gets one socket only. -/
theorem setUp_single (inherited : Table File) (restarts : ℕ) {first : Answers}
    {rest : List Answers} (hearly : earliest restarts ≤ level ∧ syslogd = true)
    (hfirst : 0 ≤ first.socket) (hrest : ∀ outcome ∈ rest, outcome.socket < 0) :
    ∃ s, s.connected = true ∧ s.opened = 2 ∧ Filled s.table 2 ∧
      s.table.file 1 = some (.listening 0) ∧
      setUp level syslogd inherited restarts (first :: rest) = (s, numbered first 1 :: rest) := by
  obtain ⟨hforked, hcreated, -⟩ := forked_spec level syslogd inherited restarts
  have hconn := connected_forked level syslogd inherited hearly
  have hone : (forked level syslogd inherited restarts).opened = 1 := by
    rw [State.opened, hcreated, hconn]
    rfl
  have hlowest := hforked.lowest_eq
  have hnumber : (forked level syslogd inherited restarts).table.lowest = 1 := by omega
  obtain ⟨hnext, hopened⟩ := filled_socketCreated hforked 0
  rw [hopened, hone] at hnext
  have hsocket : (socketCreated (forked level syslogd inherited restarts) 0).connected = true :=
    hconn
  refine ⟨socketCreated (forked level syslogd inherited restarts) 0, hsocket,
    by rw [hopened, hone], hnext, ?_, ?_⟩
  · rw [← hnumber]
    exact Table.file_install_self ..
  · rw [setUp, rounds, round_socket level syslogd _ 0 hfirst, log_connected level syslogd hconn,
      logs_connected level syslogd hsocket, hnumber]
    dsimp only
    rw [rounds_noSocket level syslogd hsocket (0 + 1) hrest]

/-- Of the two descriptors of a process the log has one number and the first socket the other. -/
theorem noSocket_of_opened (inherited : Table File) (restarts : ℕ) {first : Answers}
    {rest : List Answers} (hearly : earliest restarts ≤ level ∧ syslogd = true)
    (hfirst : 0 ≤ first.socket)
    (hopened : (setUp level syslogd inherited restarts (first :: rest)).1.opened = 2) :
    ∀ outcome ∈ rest, outcome.socket < 0 := by
  obtain ⟨hforked, hcreated, -⟩ := forked_spec level syslogd inherited restarts
  obtain ⟨-, hsockets, -, -⟩ := rounds_spec level syslogd hforked 0 (first :: rest)
  have hconn := connected_rounds level syslogd (connected_forked level syslogd inherited hearly) 0
    (first :: rest)
  rw [State.opened, setUp, hconn, hsockets, hcreated, List.countP_cons,
    if_pos (decide_eq_true hfirst), Bool.toNat_true] at hopened
  have hnone : rest.countP (0 ≤ ·.socket) = 0 := by omega
  intro outcome houtcome
  have hnot := List.countP_eq_zero.mp hnone outcome houtcome
  exact Int.not_le.mp (of_decide_eq_false (Bool.eq_false_of_not_eq_true hnot))

/-- A server process logs to its first client if and only if it was connected to the system log
before the set-up, listens at its first port and got no other socket. The standard error is then
the third number of the process, behind that of the log and that of the socket. -/
theorem logsToFirstClient_iff (inherited : Table File) (restarts : ℕ) (outcomes : List Answers)
    (backlog : ℕ) {ports : ListT UInt64} {values : List UInt64} (h : ports.Holds values)
    (hlength : outcomes.length = values.length) :
    LogsToFirstClient level syslogd inherited restarts outcomes backlog ports ↔
      (earliest restarts ≤ level ∧ syslogd = true) ∧ ∃ first rest, outcomes = first :: rest ∧
        first.Listens ∧ ∀ outcome ∈ rest, outcome.socket < 0 := by
  obtain ⟨hforked, -, -⟩ := forked_spec level syslogd inherited restarts
  obtain ⟨hfilled, -, -, -⟩ := rounds_spec level syslogd hforked 0 outcomes
  have hcount := countP_stored_rounds level syslogd hforked 0 outcomes
  rw [← setUp] at hfilled hcount
  have hsame := (length_setUp level syslogd inherited restarts outcomes).trans hlength
  have hset := setUp_eq (answering (setUp level syslogd inherited restarts outcomes).2) backlog h
  rw [answersFrom_answering _ backlog hsame] at hset
  constructor
  · rintro ⟨sockets, polled, hsetUp, hpolled, entry, hentry, s, haccept, hconsole⟩
    rw [hset] at hsetUp
    cases hsetUp
    rw [polled_entries] at hpolled
    cases hpolled
    obtain ⟨hready, -, hle⟩ := logs_spec level syslogd hfilled
      ((if (setUp level syslogd inherited restarts outcomes).2.countP (Answers.Stored ·) ≠
        ports.length then [logWarning] else []) ++ [logDebug])
    obtain ⟨hpollin, htwo⟩ := opened_accept hready haccept
    have hopened := htwo.mp hconsole
    obtain ⟨answers, others, hanswers, hstored⟩ := stored_of_polled hentry hpollin (by omega)
    cases outcomes with
    | nil => cases hanswers
    | cons first rest =>
      obtain ⟨rfl, -⟩ := List.cons.inj hanswers
      have hfirst := (listens_round level syslogd _ 0 first).mp hstored.1
      have hearly : earliest restarts ≤ level ∧ syslogd = true := by
        by_contra hnot
        exact hstored.2 (first_socket level syslogd inherited restarts hnot hfirst.1)
      have hconn : (setUp level syslogd inherited restarts (first :: rest)).1.connected = true :=
        connected_rounds level syslogd (connected_forked level syslogd inherited hearly) 0 _
      rw [logs_connected level syslogd hconn] at hopened
      exact ⟨hearly, first, rest, rfl, hfirst,
        noSocket_of_opened level syslogd inherited restarts hearly hfirst.1 hopened⟩
  · rintro ⟨hearly, first, rest, rfl, hfirst, hrest⟩
    obtain ⟨s, hconn, htwo, hfilled, hfile, hsetUp⟩ :=
      setUp_single level syslogd inherited restarts hearly hfirst.1 hrest
    have hstored : (numbered first 1).Stored :=
      ⟨(listens_numbered hfirst.1 1).mpr hfirst, Int.natCast_ne_zero.mpr one_ne_zero⟩
    refine ⟨_, _, hset, polled_entries _, ⟨1, true⟩, ?_, ?_⟩
    · rw [hsetUp, List.countP_cons, if_pos (decide_eq_true hstored), List.map_cons,
        List.take_succ_cons, entry_of_stored hstored]
      exact List.mem_cons_self
    · have haccept : s.accept ⟨1, true⟩ = some { s with table := s.table.alloc .connection } := by
        rw [State.accept]
        simp only [Int.toNat_one, hfile, if_true]
      refine ⟨{ s with table := s.table.alloc .connection }, ?_, ?_⟩
      · rw [hsetUp, State.ready, logs_connected level syslogd hconn, haccept]
      · exact (opened_accept (htwo ▸ hfilled) haccept).2.mpr htwo

/-- A system that binds one port. -/
def onePort : List Answers := [⟨0, 0, 0, 0, 0, 0⟩]

theorem logsToFirstClient_iff_onePort : ∃ ports : ListT UInt64, ports.Holds [80] ∧
    LogsToFirstClient logDebug true ⟨[]⟩ 0 onePort 128 ports ∧
    ¬ LogsToFirstClient logInfo true ⟨[]⟩ 0 onePort 128 ports ∧
    LogsToFirstClient logInfo true ⟨[]⟩ 1 onePort 128 ports := by
  obtain ⟨ports, hports⟩ := ListT.exists_holds ([80] : List UInt64)
  have hsingle : ∃ first rest, onePort = first :: rest ∧ first.Listens ∧
      ∀ outcome ∈ rest, outcome.socket < 0 :=
    ⟨_, _, rfl, by decide, fun _ hm ↦ absurd hm List.not_mem_nil⟩
  refine ⟨ports, hports, ?_, ?_, ?_⟩
  · exact (logsToFirstClient_iff logDebug true ⟨[]⟩ 0 onePort 128 hports rfl).mpr
      ⟨by decide, hsingle⟩
  · intro hlogs
    have hnot := (logsToFirstClient_iff logInfo true ⟨[]⟩ 0 onePort 128 hports rfl).mp hlogs
    exact absurd hnot.1 (by decide)
  · exact (logsToFirstClient_iff logInfo true ⟨[]⟩ 1 onePort 128 hports rfl).mpr
      ⟨by decide, hsingle⟩

end

end Wsic.Daemon
