import Mathlib.Data.List.Pairwise
import Wsic.DataStructures.RingOps

/-!
# The listening sockets

Model of the set-up loop of `server_start`, `src/server/server.c:113–128`, with
`server_listen`, `server.c:165–206`, and of the descriptors that `server_acceptConnections`
polls, `server.c:208–225`, and `server_closeGracefully` closes, `server.c:375–379`. What the
system answers to the calls on a socket is a parameter. A socket is stored at the position of
its port, but only the sockets that are stored are counted.
-/

open CMemory

namespace Wsic.Server

/-- `struct pollfd`, without the field `revents` that `poll` writes. -/
structure Pollfd where
  fd : Int
  pollin : Bool
deriving DecidableEq

/-- What the system answers to the calls that set up one socket; `getFlags` and `setFlags`
are the two calls of `fcntl`. -/
structure Answers where
  socket : Int
  setsockopt : Int
  getFlags : Int
  setFlags : Int
  bind : Int
  listen : Int

/-- `server_setNonBlocking`, `server.c:35`. -/
def setNonBlocking (answers : Answers) : Bool :=
  if answers.getFlags = -1 then false
  else if answers.setFlags = -1 then false
  else true

/-- `server_listen`, `server.c:165`: the listening socket, or 0. -/
def listen (answers : Answers) : Int :=
  if answers.socket < 0 then 0
  else if answers.setsockopt < 0 then 0
  else if !setNonBlocking answers then 0
  else if answers.bind < 0 then 0
  else if answers.listen < 0 then 0
  else answers.socket

/-- The static variables of `server.c:22–23`. -/
structure Sockets where
  socketDescriptors : List Pollfd
  socketDescriptorCount : ℕ
deriving DecidableEq

namespace Sockets

/-- The array after `memset`, `server.c:82–84`, and the count of a fresh process. -/
def create (n : ℕ) : Sockets := ⟨List.replicate n ⟨0, false⟩, 0⟩

/-- The end of a round, `server.c:118–125`. -/
def store (sockets : Sockets) (i : ℕ) (socketDescriptor : Int) : Checked Sockets :=
  if socketDescriptor ≠ 0 then
    if i < sockets.socketDescriptors.length then
      .ok ⟨sockets.socketDescriptors.set i ⟨socketDescriptor, true⟩,
        sockets.socketDescriptorCount + 1⟩
    else .error .outOfBounds
  else .ok sockets

/-- The entries that are passed to `poll`, `server.c:210`, and whose sockets are accepted
from, `server.c:223–231`, and closed in the end, `server.c:375–379`. -/
def polled (sockets : Sockets) : Checked (List Pollfd) :=
  if sockets.socketDescriptorCount ≤ sockets.socketDescriptors.length then
    .ok (sockets.socketDescriptors.take sockets.socketDescriptorCount)
  else .error .outOfBounds

end Sockets

section SetUp

-- The answers of the system in a round, for the port and the backlog of its calls.
variable (system : ℕ → UInt16 → ℕ → Answers) (backlog : ℕ)

/-- The set-up loop, `server.c:115–126`, with `rounds` rounds left from index `i`. A port is
the lower half of the pointer in the list. -/
def setUpLoop : ℕ → ℕ → ListT UInt64 → Sockets → Checked Sockets
  | 0, _, _, sockets => .ok sockets
  | rounds + 1, i, ports, sockets => do
    let (value, ports) ← ports.getValue i
    let port := (value.getD 0).toUInt16
    let sockets ← sockets.store i (listen (system i port backlog))
    setUpLoop rounds (i + 1) ports sockets

/-- The sockets of `server_start` when it begins to accept connections. -/
def setUp (ports : ListT UInt64) : Checked Sockets :=
  setUpLoop system backlog ports.length 0 ports (Sockets.create ports.length)

/-- The answers in the rounds for these ports, from round `i` on. -/
def answersFrom (i : ℕ) (ports : List UInt64) : List Answers :=
  ports.mapIdx (fun j port ↦ system (i + j) port.toUInt16 backlog)

end SetUp

/-! ### What is polled -/

/-- The socket is bound and listens. -/
def Answers.Listens (answers : Answers) : Prop :=
  0 ≤ answers.socket ∧ 0 ≤ answers.setsockopt ∧ answers.getFlags ≠ -1 ∧
    answers.setFlags ≠ -1 ∧ 0 ≤ answers.bind ∧ 0 ≤ answers.listen

instance (answers : Answers) : Decidable answers.Listens :=
  inferInstanceAs (Decidable (_ ∧ _))

/-- After the set-up loop exactly the bound sockets are polled for connections. -/
def PollsBound (system : ℕ → UInt16 → ℕ → Answers) (backlog : ℕ) (ports : ListT UInt64)
    (values : List UInt64) : Prop :=
  ∃ sockets polled, setUp system backlog ports = .ok sockets ∧ sockets.polled = .ok polled ∧
    ∀ entry, entry ∈ polled ↔
      ∃ answers ∈ answersFrom system backlog 0 values, answers.Listens ∧
        entry = ⟨answers.socket, true⟩

theorem setNonBlocking_iff (answers : Answers) :
    setNonBlocking answers = true ↔ answers.getFlags ≠ -1 ∧ answers.setFlags ≠ -1 := by
  unfold setNonBlocking
  split_ifs <;> simp_all

/-- `server_listen` fails when one of its calls does. -/
theorem listen_eq (answers : Answers) :
    listen answers = if answers.Listens then answers.socket else 0 := by
  unfold listen
  by_cases h : answers.Listens
  · obtain ⟨hsocket, hreuse, hget, hset, hbind, hlisten⟩ := id h
    rw [if_pos h, if_neg (by omega), if_neg (by omega),
      if_neg (by simpa using (setNonBlocking_iff answers).mpr ⟨hget, hset⟩),
      if_neg (by omega), if_neg (by omega)]
  · rw [if_neg h]
    split_ifs with hsocket hreuse hflags hbind hlisten <;> try rfl
    exfalso
    apply h
    obtain ⟨hget, hset⟩ := (setNonBlocking_iff answers).mp (by simpa using hflags)
    exact ⟨by omega, by omega, hget, hset, by omega, by omega⟩

/-- A round for which the server has a socket to store. -/
def Answers.Stored (answers : Answers) : Prop := answers.Listens ∧ answers.socket ≠ 0

instance (answers : Answers) : Decidable answers.Stored :=
  inferInstanceAs (Decidable (_ ∧ _))

/-- What the position of a port holds after its round. -/
def Answers.entry (answers : Answers) : Pollfd :=
  if answers.Stored then ⟨answers.socket, true⟩ else ⟨0, false⟩

/-- A round writes the entry of its port, which was zero before, and counts what is stored. -/
theorem store_listen (before after : List Pollfd) (count : ℕ) (answers : Answers) :
    Sockets.store ⟨before ++ ⟨0, false⟩ :: after, count⟩ before.length (listen answers) =
      .ok ⟨before ++ answers.entry :: after,
        count + if answers.Stored then 1 else 0⟩ := by
  rw [listen_eq]
  unfold Sockets.store Answers.entry Answers.Stored
  by_cases h : answers.Listens
  · by_cases hz : answers.socket = 0
    · simp [h, hz]
    · simp [h, hz]
  · simp [h]

theorem answersFrom_cons (system : ℕ → UInt16 → ℕ → Answers) (backlog i : ℕ) (port : UInt64)
    (ports : List UInt64) : answersFrom system backlog i (port :: ports) =
      system i port.toUInt16 backlog :: answersFrom system backlog (i + 1) ports := by
  simp only [answersFrom, List.mapIdx_cons, Nat.add_zero, Nat.add_left_comm, Nat.add_comm]

/-- The loop fills the array behind the entries of the ports before and counts on. -/
theorem setUpLoop_eq (system : ℕ → UInt16 → ℕ → Answers) (backlog : ℕ) {values : List UInt64}
    (rest : List UInt64) (done : List Pollfd) (count : ℕ) {ports : ListT UInt64}
    (h : ports.Holds values) (hrest : rest = values.drop done.length)
    (hcursor : done.length = 0 ∨ done.length = ports.currentIndex + 1) :
    setUpLoop system backlog rest.length done.length ports
        ⟨done ++ List.replicate rest.length ⟨0, false⟩, count⟩ =
      .ok ⟨done ++ (answersFrom system backlog done.length rest).map Answers.entry,
        count + (answersFrom system backlog done.length rest).countP (Answers.Stored ·)⟩ := by
  induction rest generalizing done count ports with
  | nil => simp [setUpLoop, answersFrom]
  | cons value rest ih =>
    have hlt : done.length < values.length := by
      by_contra hge
      rw [List.drop_eq_nil_of_le (by omega)] at hrest
      cases hrest
    obtain ⟨ports', hget, hholds, hcursor'⟩ := h.getValue_inOrder hlt hcursor
    rw [List.drop_eq_getElem_cons hlt] at hrest
    obtain ⟨hvalue, hrest'⟩ := List.cons.inj hrest
    rw [← hvalue] at hget
    rw [List.length_cons, setUpLoop, hget, List.replicate_succ]
    simp only [checked_ok_bind, Option.getD_some]
    rw [store_listen, checked_ok_bind]
    have hlength : (done ++ [(system done.length value.toUInt16 backlog).entry]).length =
      done.length + 1 := by simp
    have hnext := ih (done ++ [(system done.length value.toUInt16 backlog).entry])
      (count + if (system done.length value.toUInt16 backlog).Stored then 1 else 0) hholds
      (by rw [hlength, hrest']) (by rw [hlength]; exact hcursor')
    rw [hlength, List.append_assoc, List.append_assoc] at hnext
    rw [answersFrom_cons, List.map_cons, List.countP_cons]
    simpa [Nat.add_assoc, Nat.add_comm] using hnext

/-- The sockets after the set-up loop. -/
theorem setUp_eq (system : ℕ → UInt16 → ℕ → Answers) (backlog : ℕ) {ports : ListT UInt64}
    {values : List UInt64} (h : ports.Holds values) :
    setUp system backlog ports =
      .ok ⟨(answersFrom system backlog 0 values).map Answers.entry,
        (answersFrom system backlog 0 values).countP (Answers.Stored ·)⟩ := by
  have hloop := setUpLoop_eq system backlog values [] 0 h rfl (.inl rfl)
  rw [setUp, Sockets.create, h.length_eq]
  simpa using hloop

/-! ### Counted prefixes -/

section Counted

variable {α : Type} {p : α → Prop} [DecidablePred p] {l : List α}

/-- As many elements from the front have the property as there are in the whole list, if and
only if no element without it comes before one that has it. -/
theorem forall_take_countP_iff :
    (∀ a ∈ l.take (l.countP (p ·)), p a) ↔ l.Pairwise (fun a b ↦ p b → p a) := by
  induction l with
  | nil => simp
  | cons a l ih =>
    by_cases ha : p a
    · simp [ha, ih]
    · by_cases hzero : l.countP (p ·) = 0
      · have hnone : ∀ b ∈ l, ¬ p b := by simpa using hzero
        have hpairs : l.Pairwise (fun a b ↦ p b → p a) := ih.mp (by simp [hzero])
        simpa [ha, hzero, hpairs] using hnone
      · obtain ⟨n, hn⟩ := Nat.exists_eq_succ_of_ne_zero hzero
        have hsome : ¬ ∀ b ∈ l, ¬ p b := by simpa using hzero
        simp [ha, hn, hsome]

/-- Then these are the elements with the property. -/
theorem take_countP_eq_filter (h : l.Pairwise (fun a b ↦ p b → p a)) :
    l.take (l.countP (p ·)) = l.filter (p ·) := by
  induction l with
  | nil => rfl
  | cons a l ih =>
    have hpairs := List.pairwise_cons.mp h
    by_cases ha : p a
    · simp [ha, ih hpairs.2]
    · have hnone : ∀ b ∈ l, ¬ p b := fun b hb hpb ↦ ha (hpairs.1 b hb hpb)
      have hzero : l.countP (p ·) = 0 := by simpa using hnone
      have hfilter : l.filter (p ·) = [] := by simpa using hnone
      simp [ha, hzero, hfilter]

end Counted

/-! ### When exactly the bound sockets are polled -/

theorem entry_of_stored {answers : Answers} (h : answers.Stored) :
    answers.entry = ⟨answers.socket, true⟩ := if_pos h

/-- Only a socket that is not descriptor 0 is stored with events to poll for. -/
theorem stored_of_entry {answers : Answers} {fd : Int} (h : answers.entry = ⟨fd, true⟩) :
    answers.Stored ∧ answers.socket = fd := by
  unfold Answers.entry at h
  split at h
  · next hstored =>
    cases h
    exact ⟨hstored, rfl⟩
  · cases h

/-- The entries of these answers that are polled are those of the sockets that listen, if and
only if none of these is descriptor 0 and none comes after a failure. -/
theorem polledEntries_iff (l : List Answers) :
    (∀ entry, entry ∈ (l.map Answers.entry).take (l.countP (Answers.Stored ·)) ↔
      ∃ answers ∈ l, answers.Listens ∧ entry = ⟨answers.socket, true⟩) ↔
    (∀ answers ∈ l, answers.Listens → answers.socket ≠ 0) ∧
      l.Pairwise (fun a b ↦ b.Listens → a.Listens) := by
  rw [← List.map_take]
  constructor
  · intro h
    have hstored : ∀ answers ∈ l, answers.Listens → answers.Stored := by
      intro answers hmem hlistens
      obtain ⟨a, ha, hentry⟩ := List.mem_map.mp ((h _).mpr ⟨answers, hmem, hlistens, rfl⟩)
      obtain ⟨hstored, hsocket⟩ := stored_of_entry hentry
      exact ⟨hlistens, hsocket ▸ hstored.2⟩
    refine ⟨fun answers hmem hlistens ↦ (hstored answers hmem hlistens).2, ?_⟩
    have hpairs : l.Pairwise (fun a b ↦ b.Stored → a.Stored) := by
      apply forall_take_countP_iff.mp
      intro a ha
      obtain ⟨answers, -, -, hentry⟩ := (h a.entry).mp (List.mem_map_of_mem ha)
      exact (stored_of_entry hentry).1
    apply List.Pairwise.imp_of_mem _ hpairs
    intro a b _ hb hab hlistens
    exact (hab (hstored b hb hlistens)).1
  · rintro ⟨hzero, hpairs⟩ entry
    have hsame : l.Pairwise (fun a b ↦ b.Stored → a.Stored) := by
      apply List.Pairwise.imp_of_mem _ hpairs
      intro a b ha _ hab hb
      exact ⟨hab hb.1, hzero a ha (hab hb.1)⟩
    rw [take_countP_eq_filter hsame, List.mem_map]
    constructor
    · rintro ⟨answers, hmem, rfl⟩
      obtain ⟨hmem, hstored⟩ := List.mem_filter.mp hmem
      have hstored : answers.Stored := of_decide_eq_true hstored
      exact ⟨answers, hmem, hstored.1, entry_of_stored hstored⟩
    · rintro ⟨answers, hmem, hlistens, rfl⟩
      have hstored : answers.Stored := ⟨hlistens, hzero answers hmem hlistens⟩
      exact ⟨answers, List.mem_filter.mpr ⟨hmem, decide_eq_true hstored⟩,
        entry_of_stored hstored⟩

/-- As many entries are polled as were stored, from the front. -/
theorem polled_entries (l : List Answers) :
    Sockets.polled ⟨l.map Answers.entry, l.countP (Answers.Stored ·)⟩ =
      .ok ((l.map Answers.entry).take (l.countP (Answers.Stored ·))) := by
  apply if_pos
  rw [List.length_map]
  exact List.countP_le_length

/-- What is polled are entries of these answers. -/
theorem pollsBound_iff_entries (system : ℕ → UInt16 → ℕ → Answers) (backlog : ℕ)
    {ports : ListT UInt64} {values : List UInt64} (h : ports.Holds values) :
    PollsBound system backlog ports values ↔
      ∀ entry, entry ∈ ((answersFrom system backlog 0 values).map Answers.entry).take
          ((answersFrom system backlog 0 values).countP (Answers.Stored ·)) ↔
        ∃ answers ∈ answersFrom system backlog 0 values, answers.Listens ∧
          entry = ⟨answers.socket, true⟩ := by
  constructor
  · rintro ⟨sockets, polled, hsetUp, hentries, hiff⟩
    rw [setUp_eq system backlog h] at hsetUp
    cases hsetUp
    rw [polled_entries] at hentries
    cases hentries
    exact hiff
  · intro hiff
    exact ⟨_, _, setUp_eq system backlog h, polled_entries _, hiff⟩

/-- Exactly the bound sockets are polled, if and only if none of them is descriptor 0 and no
port that could not be bound comes before one that was. -/
theorem pollsBound_iff (system : ℕ → UInt16 → ℕ → Answers) (backlog : ℕ) {ports : ListT UInt64}
    {values : List UInt64} (h : ports.Holds values) :
    PollsBound system backlog ports values ↔
      (∀ answers ∈ answersFrom system backlog 0 values, answers.Listens → answers.socket ≠ 0) ∧
      (answersFrom system backlog 0 values).Pairwise (fun a b ↦ b.Listens → a.Listens) := by
  rw [pollsBound_iff_entries system backlog h]
  exact polledEntries_iff _

/-- A system that binds port `n` to socket `n` unless the port is refused. -/
def refusing (refused : UInt16) (_ : ℕ) (port : UInt16) (_ : ℕ) : Answers :=
  ⟨port.toNat, 0, 0, 0, if port = refused then -1 else 0, 0⟩

theorem pollsBound_last_refused : ∃ ports : ListT UInt64, ports.Holds [80, 443] ∧
    PollsBound (refusing 443) 128 ports [80, 443] := by
  obtain ⟨ports, hports⟩ := ListT.exists_holds ([80, 443] : List UInt64)
  exact ⟨ports, hports, (pollsBound_iff (refusing 443) 128 hports).mpr (by decide +kernel)⟩

/-- Port 80 cannot be bound: the socket of port 443 is not polled, standard input is. -/
theorem first_refused_not_pollsBound : ∃ ports : ListT UInt64, ports.Holds [80, 443] ∧
    ¬ PollsBound (refusing 80) 128 ports [80, 443] := by
  obtain ⟨ports, hports⟩ := ListT.exists_holds ([80, 443] : List UInt64)
  refine ⟨ports, hports, ?_⟩
  rintro ⟨sockets, polled, hsetUp, hpolled, hiff⟩
  rw [setUp_eq (refusing 80) 128 hports] at hsetUp
  cases hsetUp
  have hentries : polled = [⟨0, false⟩] := by
    apply Except.ok.inj
    rw [← hpolled]
    decide +kernel
  obtain ⟨answers, -, -, hentry⟩ := (hiff ⟨0, false⟩).mp (by rw [hentries]; exact .head _)
  exact Bool.false_ne_true (congrArg Pollfd.pollin hentry)

end Wsic.Server
