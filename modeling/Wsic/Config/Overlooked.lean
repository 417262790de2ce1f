import Wsic.Config.Servers

/-!
# Server tables that are overlooked

The loop of `config_parse`, `src/config/config.c:89–94`, counts the sub-tables of `[servers]` and
uses the number as a bound for the index of `toml_key_in`, which counts values and arrays first.
So as many sub-tables are overlooked at the end as there are values and arrays.
-/

open CMemory

namespace Wsic.Config

open Toml

/-! ### Sub-tables by their number -/

section Tables

variable (environment : List UInt8 → Environment) (serversTable : TableT)

/-- `config_parseServerTable` makes this server of the sub-table with this number. -/
def AcceptedAt (k : ℕ) (serverConfig : ServerConfigT) : Prop :=
  ∃ serverTable, serversTable.tab[k]? = some serverTable ∧
    parseServerTable (environment serverTable.key) serverTable = .ok (some serverConfig)

/-- Every accepted sub-table is among the servers, or clashes with one that comes before it and
is. -/
def NoneOverlooked (servers : List ServerConfigT) : Prop :=
  ∀ k serverConfig, AcceptedAt environment serversTable k serverConfig → serverConfig ∈ servers ∨
    ∃ k' < k, ∃ other ∈ servers, AcceptedAt environment serversTable k' other ∧
      Clash other serverConfig

/-- Every accepted sub-table among the last ones, as many as there are values and arrays, clashes
with one that comes before these. -/
def LastOnesClash : Prop :=
  ∀ k serverConfig, AcceptedAt environment serversTable k serverConfig →
    serversTable.ntab ≤ serversTable.others + k →
      ∃ k' other, serversTable.others + k' < serversTable.ntab ∧
        AcceptedAt environment serversTable k' other ∧ Clash other serverConfig

variable {environment serversTable}

/-- A server has the name of its table. -/
theorem AcceptedAt.unique (hkeys : serversTable.WellKeyed) {k k' : ℕ}
    {serverConfig : ServerConfigT} (h : AcceptedAt environment serversTable k serverConfig)
    (h' : AcceptedAt environment serversTable k' serverConfig) : k = k' := by
  obtain ⟨table, htable, hparse⟩ := h
  obtain ⟨table', htable', hparse'⟩ := h'
  have hname := (parseServerTable_eq_some hparse).name
  rw [(parseServerTable_eq_some hparse').name] at hname
  have hmem (t : TableT) {k : ℕ} (ht : serversTable.tab[k]? = some t) : 0 ∉ t.key :=
    hkeys.nulFree _ (List.mem_append_right _ (List.mem_map_of_mem (List.mem_of_getElem? ht)))
  have hkey := StringT.fromBufferWithLength_inj hname
  rw [cString_eq_self (hmem table' htable'), cString_eq_self (hmem table htable)] at hkey
  exact TableT.eq_of_key hkeys htable htable' hkey.symm

/-- A sub-table gives one server. -/
theorem AcceptedAt.eq {k : ℕ} {a b : ServerConfigT}
    (h : AcceptedAt environment serversTable k a)
    (h' : AcceptedAt environment serversTable k b) : a = b := by
  obtain ⟨table, htable, hparse⟩ := h
  obtain ⟨table', htable', hparse'⟩ := h'
  cases htable.symm.trans htable'
  cases hparse.symm.trans hparse'
  rfl

/-- The loop finds the sub-tables behind the values and arrays. -/
theorem mem_parsedServers_iff (hkeys : serversTable.WellKeyed) {x : ℕ × ServerConfigT} :
    x ∈ parsedServers environment serversTable ↔
      ∃ k, x.1 = serversTable.others + k ∧ x.1 < serversTable.ntab ∧
        AcceptedAt environment serversTable k x.2 := by
  rw [parsedServers, List.mem_filterMap]
  constructor
  · rintro ⟨i, hi, hat⟩
    obtain ⟨rfl, table, hmem, hkey, hparse⟩ := parsedAt_eq_some hat
    have hle : serversTable.others ≤ x.1 := by
      by_contra hlt
      have hnone := TableT.tableIn_of_lt hkeys (Nat.not_le.mp hlt) hkey
      rw [TableT.tableIn_key hkeys hmem] at hnone
      cases hnone
    obtain ⟨k, hk⟩ := Nat.exists_eq_add_of_le hle
    obtain ⟨k', hk'⟩ := List.mem_iff_getElem?.mp hmem
    rw [hk, TableT.keyIn_others_add] at hkey
    obtain ⟨table', htable', hsame⟩ := Option.map_eq_some_iff.mp hkey
    have heq := TableT.eq_of_key hkeys htable' hk' hsame
    rw [← heq] at hk'
    exact ⟨k, hk, List.mem_range.mp hi, table, hk', hparse⟩
  · rintro ⟨k, hk, hlt, table, htable, hparse⟩
    refine ⟨x.1, List.mem_range.mpr hlt, ?_⟩
    rw [parsedAt, hk, TableT.keyIn_others_add, htable, Option.map_some, Option.bind_some,
      TableT.tableIn_key hkeys (List.mem_of_getElem? htable), Option.bind_some, hparse]
    dsimp only
    rw [← hk]

end Tables

/-! ### Sub-tables that survive -/

section Survivors

variable (environment : List UInt8 → Environment) (serversTable : TableT)

/-- The loop comes to this sub-table, it is accepted, and no accepted one before it clashes. -/
structure Survives (k : ℕ) (serverConfig : ServerConfigT) : Prop where
  reached : serversTable.others + k < serversTable.ntab
  accepted : AcceptedAt environment serversTable k serverConfig
  first : ∀ k' < k, ∀ other, AcceptedAt environment serversTable k' other →
    ¬ Clash other serverConfig

variable {environment serversTable}

/-- A server without TLS clashes with no other. -/
theorem AcceptedAt.survives_of_plain {k : ℕ} {serverConfig : ServerConfigT}
    (h : AcceptedAt environment serversTable k serverConfig)
    (hreached : serversTable.others + k < serversTable.ntab)
    (hplain : serverConfig.sslContext = false) :
    Survives environment serversTable k serverConfig := by
  refine ⟨hreached, h, ?_⟩
  intro _ _ _ _ hclash
  exact Bool.false_ne_true (hplain.symm.trans hclash.2.2)

/-- An accepted sub-table that the loop comes to survives, or clashes with one before it that
does. -/
theorem AcceptedAt.survives_or {k : ℕ} {serverConfig : ServerConfigT}
    (h : AcceptedAt environment serversTable k serverConfig)
    (hreached : serversTable.others + k < serversTable.ntab) :
    Survives environment serversTable k serverConfig ∨
      ∃ k' < k, ∃ other, Survives environment serversTable k' other ∧ Clash other serverConfig := by
  induction k using Nat.strong_induction_on generalizing serverConfig with
  | _ k ih =>
    by_cases hfirst : ∃ k' < k, ∃ other, AcceptedAt environment serversTable k' other ∧
        Clash other serverConfig
    · obtain ⟨k', hlt, other, hother, hclash⟩ := hfirst
      rcases ih k' hlt hother (by omega) with hk' | ⟨k'', hlt', first, hk'', hclash'⟩
      · exact .inr ⟨k', hlt, other, hk', hclash⟩
      · exact .inr ⟨k'', by omega, first, hk'', hclash'.trans hclash⟩
    · refine .inl ⟨hreached, h, ?_⟩
      intro k' hlt other hother hclash
      exact hfirst ⟨k', hlt, other, hother, hclash⟩

/-- The servers that are taken are those that survive. -/
theorem mem_keptServers_iff (hkeys : serversTable.WellKeyed) {x : ℕ × ServerConfigT} :
    x ∈ keptServers environment serversTable ↔
      ∃ k, x.1 = serversTable.others + k ∧ Survives environment serversTable k x.2 := by
  have hparsed {y : ℕ × ServerConfigT} (hy : y ∈ keptServers environment serversTable) :=
    (mem_parsedServers_iff hkeys).mp ((Greedy.select_sublist ClashAt _).subset hy)
  constructor
  · intro hx
    obtain ⟨k, hk, hlt, haccepted⟩ := hparsed hx
    refine ⟨k, hk, hk ▸ hlt, haccepted, ?_⟩
    intro k' hlt' other haccepted' hclash
    -- Of two servers that clash only one is taken.
    have : Std.Symm (fun a b ↦ ¬ ClashAt a b) := ⟨fun _ _ hnot hclash ↦ hnot (Clash.symm hclash)⟩
    have hapart {y : ℕ × ServerConfigT} (hy : y ∈ keptServers environment serversTable)
        (hne : y.1 ≠ x.1) : ¬ Clash y.2 x.2 :=
      (Greedy.pairwise_select ClashAt (parsedServers environment serversTable)).forall hy hx
        (fun heq ↦ hne (congrArg Prod.fst heq))
    have hmem : (serversTable.others + k', other) ∈ parsedServers environment serversTable :=
      (mem_parsedServers_iff hkeys).mpr ⟨k', rfl, by dsimp only; omega, haccepted'⟩
    rcases mem_keptServers_or hmem with hkept | ⟨y, hy, hbefore, hclash'⟩
    · exact hapart hkept (by dsimp only; omega) hclash
    · dsimp only at hbefore
      exact hapart hy (by omega) (hclash'.trans hclash)
  · rintro ⟨k, hk, hreached, haccepted, hfirst⟩
    have hmem : x ∈ parsedServers environment serversTable :=
      (mem_parsedServers_iff hkeys).mpr ⟨k, hk, hk ▸ hreached, haccepted⟩
    rcases mem_keptServers_or hmem with hkept | ⟨y, hy, hbefore, hclash⟩
    · exact hkept
    · obtain ⟨k', hk', -, haccepted'⟩ := hparsed hy
      exact absurd hclash (hfirst k' (by omega) y.2 haccepted')

/-- The servers of a configuration are those of the sub-tables that survive. -/
theorem mem_servers_iff {somaxconn : Somaxconn} {toml : TableT}
    (hkeys : (serversOf toml).WellKeyed) {config : ConfigT}
    (h : parse somaxconn environment (some toml) = .ok (some config))
    {servers : List ServerConfigT} (hservers : config.serverConfigs.Holds servers)
    {serverConfig : ServerConfigT} :
    serverConfig ∈ servers ↔ ∃ k, Survives environment (serversOf toml) k serverConfig := by
  obtain rfl := hservers.unique (holds_of_parse h)
  rw [List.mem_map]
  constructor
  · rintro ⟨x, hx, rfl⟩
    obtain ⟨k, -, hk⟩ := (mem_keptServers_iff hkeys).mp hx
    exact ⟨k, hk⟩
  · rintro ⟨k, hk⟩
    exact ⟨((serversOf toml).others + k, serverConfig),
      (mem_keptServers_iff hkeys).mpr ⟨k, rfl, hk⟩, rfl⟩

end Survivors

/-! ### When nothing is overlooked -/

/-- No accepted sub-table is overlooked exactly when the last ones clash anyway. -/
theorem noneOverlooked_iff {somaxconn : Somaxconn} {environment : List UInt8 → Environment}
    {toml : TableT} (hkeys : (serversOf toml).WellKeyed) {config : ConfigT}
    (h : parse somaxconn environment (some toml) = .ok (some config))
    {servers : List ServerConfigT} (hservers : config.serverConfigs.Holds servers) :
    NoneOverlooked environment (serversOf toml) servers ↔
      LastOnesClash environment (serversOf toml) := by
  have hmem {server : ServerConfigT} :
      server ∈ servers ↔ ∃ k, Survives environment (serversOf toml) k server :=
    mem_servers_iff hkeys h hservers
  constructor
  · intro hnone k serverConfig haccepted hlast
    rcases hnone k serverConfig haccepted with hserver | ⟨-, -, other, hother, -, hclash⟩
    · obtain ⟨k', hk'⟩ := hmem.mp hserver
      have hreached := hk'.reached
      have hsame := haccepted.unique hkeys hk'.accepted
      omega
    · obtain ⟨k', hk'⟩ := hmem.mp hother
      exact ⟨k', other, hk'.reached, hk'.accepted, hclash⟩
  · intro hlast k serverConfig haccepted
    by_cases hlt : (serversOf toml).others + k < (serversOf toml).ntab
    · rcases haccepted.survives_or hlt with hk | ⟨k', hlt', other, hk', hclash⟩
      · exact .inl (hmem.mpr ⟨k, hk⟩)
      · exact .inr ⟨k', hlt', other, hmem.mpr ⟨k', hk'⟩, hk'.accepted, hclash⟩
    · obtain ⟨k', other, hlt', haccepted', hclash⟩ :=
        hlast k serverConfig haccepted (Nat.not_lt.mp hlt)
      rcases haccepted'.survives_or hlt' with hk' | ⟨k'', hlt'', first, hk'', hclash'⟩
      · exact .inr ⟨k', by omega, other, hmem.mpr ⟨k', hk'⟩, haccepted', hclash⟩
      · exact .inr ⟨k'', by omega, first, hmem.mpr ⟨k'', hk''⟩, hk''.accepted,
          hclash'.trans hclash⟩

/-! ### A value beside a server -/

/-- A `[servers]` table with one server, and with these values beside it. -/
def besideServer (kval : List KeyvalT) : TableT :=
  document (.mk (ascii "servers") kval [] [plainTable "x" "a"])

theorem wellKeyed_besideServer : (serversOf (besideServer [])).WellKeyed ∧
    (serversOf (besideServer [textKey "y" "z"])).WellKeyed :=
  ⟨⟨by decide +kernel, by decide +kernel⟩, ⟨by decide +kernel, by decide +kernel⟩⟩

theorem noneOverlooked_alone : ∃ config servers,
    (serversOf (besideServer [])).WellKeyed ∧
      parse linuxSomaxconn (fun _ ↦ openEnvironment) (some (besideServer [])) =
        .ok (some config) ∧
      config.serverConfigs.Holds servers ∧
      NoneOverlooked (fun _ ↦ openEnvironment) (serversOf (besideServer [])) servers := by
  obtain ⟨config, h⟩ := exists_parsed (besideServer []) (by decide +kernel)
  have hkeys := wellKeyed_besideServer.1
  refine ⟨config, _, hkeys, h, holds_of_parse h, ?_⟩
  apply (noneOverlooked_iff hkeys h (holds_of_parse h)).mpr
  -- There is one sub-table and nothing beside it.
  intro k serverConfig haccepted hlast
  obtain ⟨serverTable, htable, -⟩ := haccepted
  have hntab : (serversOf (besideServer [])).ntab = 1 := by decide +kernel
  have hothers : (serversOf (besideServer [])).others = 0 := by decide +kernel
  have hlt : k < (serversOf (besideServer [])).ntab := (List.getElem?_eq_some_iff.mp htable).1
  omega

/-- With a value beside it, the only server is overlooked. -/
theorem value_beside_overlooked : ∃ config servers,
    (serversOf (besideServer [textKey "y" "z"])).WellKeyed ∧
      parse linuxSomaxconn (fun _ ↦ openEnvironment) (some (besideServer [textKey "y" "z"])) =
        .ok (some config) ∧
      config.serverConfigs.Holds servers ∧
      ¬ NoneOverlooked (fun _ ↦ openEnvironment) (serversOf (besideServer [textKey "y" "z"]))
        servers := by
  obtain ⟨config, h⟩ := exists_parsed (besideServer [textKey "y" "z"]) (by decide +kernel)
  have hempty : (keptServers (fun _ ↦ openEnvironment)
      (serversOf (besideServer [textKey "y" "z"]))).isEmpty = true := by decide +kernel
  have hholds := holds_of_parse h
  rw [List.isEmpty_iff.mp hempty] at hholds
  refine ⟨config, [], wellKeyed_besideServer.2, h, hholds, fun hnone ↦ ?_⟩
  obtain ⟨serverConfig, hparse⟩ : ∃ serverConfig,
      parseServerTable openEnvironment (plainTable "x" "a") = .ok (some serverConfig) := ⟨_, rfl⟩
  have hor := hnone 0 serverConfig ⟨plainTable "x" "a", by rfl, hparse⟩
  simp at hor

end Wsic.Config
