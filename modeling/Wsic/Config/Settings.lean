import Wsic.Config.Servers

/-!
# The server-wide settings

The numbers that `config_parse`, `src/config/config.c:46–83`, takes from the `[server]` table, and
the worker pool that `server_start` makes of one of them. Without the table nothing sets them.
-/

open CMemory

namespace Wsic.Config

open Toml

/-! ### The worker pool -/

/-- The loop of `server_start` over the worker pool, `server.c:99–107`, at index `i`; nothing
when a worker can not be spawned. -/
def workerPoolLoop {Worker : Type} (spawn : ℕ → Option Worker) : ℕ → ℕ → Option (List Worker)
  | 0, _ => some []
  | rounds + 1, i =>
    match spawn i with
    | none => none
    | some worker => (workerPoolLoop spawn rounds (i + 1)).map (worker :: ·)

theorem length_of_workerPoolLoop {Worker : Type} {spawn : ℕ → Option Worker} {rounds i : ℕ}
    {pool : List Worker} (h : workerPoolLoop spawn rounds i = some pool) :
    pool.length = rounds := by
  induction rounds generalizing i pool with
  | zero =>
    cases h
    rfl
  | succ rounds ih =>
    rw [workerPoolLoop] at h
    split at h
    · cases h
    · obtain ⟨rest, hrest, rfl⟩ := Option.map_eq_some_iff.mp h
      rw [List.length_cons, ih hrest]

/-! ### Ranges -/

/-- The settings that a server can run with: every pool of workers that can be set up has one. -/
structure InRange (somaxconn : Somaxconn) (config : ConfigT) : Prop where
  threads : 1 ≤ config.threads.toNat
  backlog : 1 ≤ config.backlog.toNat ∧ config.backlog.toNat ≤ somaxconn
  loggingLevel : config.loggingLevel.toNat ≤ 7
  workers : ∀ {Worker : Type} {spawn : ℕ → Option Worker} {pool : List Worker},
    workerPoolLoop spawn config.threads.toNat 0 = some pool → pool ≠ []

/-- A logging level that is an integer is one of the eight levels, but for a multiple of 256. -/
def LevelInRange (serverTable : TableT) : Prop :=
  ∀ value, serverTable.rawIn (ascii "loggingLevel") = some (.integer value) → value.toInt % 256 ≤ 7

theorem toNat_toUInt64 (value : Int64) : (value.toUInt64.toNat : ℤ) = value.toInt % 2 ^ 64 := by
  have h : value.toInt = value.toUInt64.toBitVec.toInt := rfl
  have hlt := value.toUInt64.toBitVec.isLt
  rw [h, BitVec.toInt_eq_toNat_cond, UInt64.toNat_toBitVec]
  rw [UInt64.toNat_toBitVec] at hlt
  split <;> omega

section Settings

variable (somaxconn : Somaxconn) (serverTable : TableT) (config : ConfigT)

theorem threads_parseSettings :
    1 ≤ (parseSettings somaxconn serverTable config).threads.toNat := by
  change 1 ≤ UInt64.toNat (ite _ _ _)
  split
  · split
    · decide
    · next h =>
      have hvalue := toNat_toUInt64 (parseInt serverTable "threads")
      have hlt := (parseInt serverTable "threads").toInt_lt
      omega
  · decide

theorem toNat_somaxconn : (UInt64.ofNat somaxconn).toNat = somaxconn := by
  have h := somaxconn.2.2
  rw [UInt64.toNat_ofNat']
  omega

theorem backlog_parseSettings :
    1 ≤ (parseSettings somaxconn serverTable config).backlog.toNat ∧
      (parseSettings somaxconn serverTable config).backlog.toNat ≤ somaxconn := by
  have hpos := somaxconn.2.1
  change 1 ≤ UInt64.toNat (ite _ _ _) ∧ UInt64.toNat (ite _ _ _) ≤ somaxconn
  split
  · split
    · rw [toNat_somaxconn]
      omega
    · split
      · rw [toNat_somaxconn]
        omega
      · have hvalue := toNat_toUInt64 (parseInt serverTable "backlog")
        have hlt := (parseInt serverTable "backlog").toInt_lt
        omega
  · rw [toNat_somaxconn]
    omega

theorem loggingLevel_parseSettings :
    (parseSettings somaxconn serverTable config).loggingLevel.toNat ≤ 7 ↔
      LevelInRange serverTable := by
  change UInt8.toNat (ite _ _ _) ≤ 7 ↔ _
  unfold LevelInRange parseInt
  cases hraw : serverTable.rawIn (ascii "loggingLevel") with
  | none => simp
  | some raw =>
    cases raw with
    | integer value =>
      have hvalue := toNat_toUInt64 value
      simp only [RawT.rtoi, Option.getD_some, Option.isSome_some, if_true, UInt64.toNat_toUInt8,
        Option.some_inj, RawT.integer.injEq, forall_eq']
      omega
    -- What is no integer is read as level 0.
    | string text => simp [RawT.rtoi, show (Int64.toUInt64 0).toNat = 0 from rfl]
    | boolean value => simp [RawT.rtoi, show (Int64.toUInt64 0).toNat = 0 from rfl]
    | other => simp [RawT.rtoi, show (Int64.toUInt64 0).toNat = 0 from rfl]

end Settings

section Parse

variable {somaxconn : Somaxconn} {environment : List UInt8 → Environment} {toml : TableT}
  {config : ConfigT}

/-- Parsing the servers changes nothing but the list of them. -/
theorem settings_of_parse (h : parse somaxconn environment (some toml) = .ok (some config)) :
    ∃ serverConfigs, config =
      { (toml.tableIn (ascii "server")).elim ConfigT.create
          (parseSettings somaxconn · ConfigT.create) with serverConfigs := serverConfigs } := by
  unfold parse at h
  dsimp only at h
  cases hserver : toml.tableIn (ascii "server") with
  | none =>
    rw [hserver] at h
    split at h
    · cases h
      exact ⟨_, rfl⟩
    · obtain ⟨serverConfigs, -, h⟩ := exists_of_bind_eq_ok h
      cases h
      exact ⟨serverConfigs, rfl⟩
  | some serverTable =>
    rw [hserver] at h
    split at h
    · cases h
      exact ⟨_, rfl⟩
    · obtain ⟨serverConfigs, -, h⟩ := exists_of_bind_eq_ok h
      cases h
      exact ⟨serverConfigs, rfl⟩

/-- The settings are in range exactly when there is a table for them, with a logging level that
is in range. -/
theorem inRange_iff (h : parse somaxconn environment (some toml) = .ok (some config)) :
    InRange somaxconn config ↔
      ∃ serverTable, toml.tableIn (ascii "server") = some serverTable ∧
        LevelInRange serverTable := by
  obtain ⟨serverConfigs, rfl⟩ := settings_of_parse h
  cases toml.tableIn (ascii "server") with
  | none =>
    constructor
    · intro hrange
      exact absurd hrange.threads (show ¬ 1 ≤ ConfigT.create.threads.toNat by decide)
    · nofun
  | some serverTable =>
    have hthreads := threads_parseSettings somaxconn serverTable ConfigT.create
    have hlevel := loggingLevel_parseSettings somaxconn serverTable ConfigT.create
    constructor
    · intro hrange
      exact ⟨serverTable, rfl, hlevel.mp hrange.loggingLevel⟩
    · rintro ⟨serverTable', hsome, hlevel'⟩
      cases hsome
      refine ⟨hthreads, backlog_parseSettings somaxconn serverTable ConfigT.create,
        hlevel.mpr hlevel', ?_⟩
      intro Worker spawn pool hpool
      apply List.ne_nil_of_length_pos
      rw [length_of_workerPoolLoop hpool]
      exact hthreads

end Parse

/-- A document with a `[server]` table of these keys. -/
def settingsDocument (kval : List KeyvalT) : TableT :=
  .mk [] [] [] [.mk (ascii "server") kval [] []]

theorem inRange_two_threads : ∃ config,
    parse linuxSomaxconn (fun _ ↦ openEnvironment)
      (some (settingsDocument [⟨ascii "threads", .integer 2⟩])) = .ok (some config) ∧
        InRange linuxSomaxconn config := by
  obtain ⟨config, h⟩ := exists_parsed (settingsDocument [⟨ascii "threads", .integer 2⟩])
    (by decide +kernel)
  refine ⟨config, h, (inRange_iff h).mpr ⟨_, rfl, ?_⟩⟩
  have hlevel : (TableT.rawIn (.mk (ascii "server") [⟨ascii "threads", .integer 2⟩] [] [])
      (ascii "loggingLevel")).isNone = true := by decide +kernel
  intro value hvalue
  rw [Option.isNone_iff_eq_none.mp hlevel] at hvalue
  cases hvalue

/-- Without a `[server]` table there are no workers. -/
theorem no_server_table_not_inRange : ∃ config,
    parse linuxSomaxconn (fun _ ↦ openEnvironment) (some (.mk [] [] [] [])) =
      .ok (some config) ∧ ¬ InRange linuxSomaxconn config := by
  refine ⟨ConfigT.create, rfl, ?_⟩
  intro hrange
  exact absurd hrange.threads (by decide)

end Wsic.Config
