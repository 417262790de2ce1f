import Wsic.Config.ConfigT
import Wsic.Lib.Greedy

/-!
# The servers of a configuration

Which of the `[servers]` tables end up in the list that `config_parse` returns: those that the
loop comes to, that `config_parseServerTable` accepts, and that do not clash with one taken before.
Two servers clash when they have the same domain and both have a TLS context.
-/

open CMemory

namespace Wsic.Config

open Toml

/-! ### Strings of the configuration -/

/-- The string is one that `config_parseString` makes, or null. -/
def FreshString (s : Option StringT) : Prop := ∀ t, s = some t → ∃ text, t = StringT.fromBuffer text

theorem freshString_parseString (table : TableT) (key : String) :
    FreshString (parseString table key) := by
  unfold parseString
  split
  · nofun
  · next rawValue _ =>
    intro t ht
    obtain ⟨text, -, rfl⟩ := Option.map_eq_some_iff.mp ht
    exact ⟨text, rfl⟩

/-- Comparing such strings tells whether they are the same. -/
theorem equals_fromBuffer (a b : List UInt8) :
    (StringT.fromBuffer a).equals (StringT.fromBuffer b) =
      .ok (decide (StringT.fromBuffer a = StringT.fromBuffer b)) := by
  have hiff : StringT.fromBuffer a = StringT.fromBuffer b ↔ cString a = cString b :=
    ⟨StringT.fromBufferWithLength_inj, fun h ↦ congrArg StringT.fromBufferWithLength h⟩
  rw [decide_eq_decide.mpr hiff]
  exact StringT.equals_of_cstr (StringT.cstr_fromBuffer a) (StringT.cstr_fromBuffer b)

/-! ### One table -/

section Table

variable {environment : Environment} {table : TableT} {config : ServerConfigT}

/-- What a table that is accepted gives. -/
structure Accepted (environment : Environment) (table : TableT) (config : ServerConfigT) :
    Prop where
  name : config.name = StringT.fromBuffer table.key
  domain : config.domain = parseString table "domain"
  rootDirectory : parseRootDirectory environment table = some config.rootDirectory
  port : parsePort table = some config.port
  enabled : config.enabled = parseBool table "enabled"
  directoryIndex : parseArray table "directoryIndex" = .ok config.directoryIndex
  tls : parseTLS environment table = some (config.sslContext, config.dhparams)

theorem parseServerTable_eq_some (h : parseServerTable environment table = .ok (some config)) :
    Accepted environment table config := by
  unfold parseServerTable at h
  cases hroot : parseRootDirectory environment table with
  | none =>
    rw [hroot] at h
    cases h
  | some rootDirectory =>
    cases hport : parsePort table with
    | none =>
      rw [hroot, hport] at h
      cases h
    | some port =>
      rw [hroot, hport] at h
      dsimp only at h
      obtain ⟨directoryIndex, hindex, h⟩ := exists_of_bind_eq_ok h
      cases htls : parseTLS environment table with
      | none =>
        rw [htls] at h
        obtain ⟨-, -, h⟩ := exists_of_bind_eq_ok h
        cases h
      | some tls =>
        rw [htls] at h
        cases h
        exact ⟨rfl, rfl, hroot, hport, rfl, hindex, htls⟩

end Table

/-! ### Clashes -/

/-- Two servers that `config_parse` does not take both. -/
def Clash (a b : ServerConfigT) : Prop :=
  a.domain = b.domain ∧ a.sslContext = true ∧ b.sslContext = true

instance : DecidableRel Clash := fun a b ↦
  inferInstanceAs (Decidable (a.domain = b.domain ∧ a.sslContext = true ∧ b.sslContext = true))

theorem Clash.symm {a b : ServerConfigT} (h : Clash a b) : Clash b a := ⟨h.1.symm, h.2.2, h.2.1⟩

theorem Clash.trans {a b c : ServerConfigT} (h : Clash a b) (h' : Clash b c) : Clash a c :=
  ⟨h.1.trans h'.1, h.2.1, h'.2.2⟩

/-- What the scan asks of two servers tells whether they clash. -/
theorem exists_isSameDomain {config other : ServerConfigT} (hconfig : FreshString config.domain)
    (hother : FreshString other.domain) {domain otherDomain : StringT}
    (hdomain : config.domain = some domain) (hotherDomain : other.domain = some otherDomain) :
    ∃ isSameDomain, domain.equals otherDomain = .ok isSameDomain ∧
      ((isSameDomain && (config.sslContext && other.sslContext)) = true ↔ Clash other config) := by
  obtain ⟨text, rfl⟩ := hconfig domain hdomain
  obtain ⟨otherText, rfl⟩ := hother otherDomain hotherDomain
  refine ⟨_, equals_fromBuffer text otherText, ?_⟩
  rw [Clash, hdomain, hotherDomain, Option.some_inj]
  simp only [Bool.and_eq_true, decide_eq_true_eq]
  exact ⟨fun ⟨hd, hc, ho⟩ ↦ ⟨hd.symm, ho, hc⟩, fun ⟨hd, ho, hc⟩ ↦ ⟨hd.symm, hc, ho⟩⟩

/-- The scan goes through the list, although it leaves out one position: the list is never
longer than the number of tables before this one. -/
theorem duplicateLoop_spec {config : ServerConfigT} (hconfig : FreshString config.domain)
    {kept : List ServerConfigT} (hkept : ∀ other ∈ kept, FreshString other.domain) {i : ℕ}
    (hi : kept.length ≤ i) {rounds j : ℕ} {list list' : ListT ServerConfigT} {duplicate : Bool}
    (hlist : list.Holds kept) (hj : j = 0 ∨ j = list.currentIndex + 1 ∨ kept.length ≤ j)
    (hrounds : kept.length ≤ j + rounds)
    (h : duplicateLoop config i rounds j list = .ok (duplicate, list')) :
    list'.Holds kept ∧ (duplicate = true ↔ ∃ other ∈ kept.drop j, Clash other config) := by
  induction rounds generalizing j list with
  | zero =>
    cases h
    rw [List.drop_of_length_le (by omega)]
    simpa using hlist
  | succ rounds ih =>
    have hbehind (hle : kept.length ≤ j) : kept.drop j = kept.drop (j + 1) := by
      rw [List.drop_of_length_le hle, List.drop_of_length_le (by omega)]
    rw [duplicateLoop] at h
    split at h
    · next heq =>
      rw [hbehind (by omega)]
      exact ih hlist (.inr (.inr (by omega))) (by omega) h
    · have hsafe : j < kept.length → ListT.MoveSafe list.currentIndex kept.length j :=
        fun hlt ↦ ListT.moveSafe_inOrder (by omega) hlt
      obtain ⟨list₁, hget, hholds, hcursor⟩ := hlist.getValue j hsafe
      rw [hget, checked_ok_bind] at h
      dsimp only at h
      by_cases hlt : j < kept.length
      · rw [List.getElem?_eq_getElem hlt] at h
        dsimp only at h
        obtain ⟨domain, hdomain, h⟩ := exists_of_bind_eq_ok h
        obtain ⟨otherDomain, hother, h⟩ := exists_of_bind_eq_ok h
        rw [List.drop_eq_getElem_cons hlt]
        have hmem := List.getElem_mem hlt
        generalize kept[j] = other at hother h hmem
        obtain ⟨isSameDomain, hequals, hclash⟩ := exists_isSameDomain hconfig (hkept other hmem)
          (deref_eq_ok hdomain) (deref_eq_ok hother)
        rw [hequals, checked_ok_bind] at h
        split at h
        · next hboth =>
          cases h
          exact ⟨hholds, fun _ ↦ ⟨other, List.mem_cons_self, hclash.mp hboth⟩, fun _ ↦ rfl⟩
        · next hnot =>
          obtain ⟨hlist', hiff⟩ := ih hholds (.inr (.inl (by rw [hcursor hlt]))) (by omega) h
          refine ⟨hlist', hiff.trans ?_⟩
          simp only [List.mem_cons, exists_eq_or_imp]
          exact ⟨.inr, fun hor ↦ hor.resolve_left (fun hc ↦ hnot (hclash.mpr hc))⟩
      · rw [List.getElem?_eq_none (by omega)] at h
        rw [hbehind (by omega)]
        exact ih hholds (.inr (.inr (by omega))) (by omega) h

/-! ### The loop over the tables -/

section Loop

variable (environment : List UInt8 → Environment) (serversTable : TableT)

/-- The server of the table that the loop finds at this index, if it is accepted. -/
def parsedAt (i : ℕ) : Option (ℕ × ServerConfigT) :=
  (serversTable.keyIn i).bind fun tableKey ↦
    (serversTable.tableIn tableKey).bind fun serverTable ↦
      match parseServerTable (environment tableKey) serverTable with
      | .ok (some serverConfig) => some (i, serverConfig)
      | _ => none

/-- The accepted servers, with the indices of their tables. -/
def parsedServers : List (ℕ × ServerConfigT) :=
  (List.range serversTable.ntab).filterMap (parsedAt environment serversTable)

variable {environment serversTable}

theorem parsedAt_eq_some {i k : ℕ} {serverConfig : ServerConfigT}
    (h : parsedAt environment serversTable i = some (k, serverConfig)) :
    k = i ∧ ∃ serverTable ∈ serversTable.tab, serversTable.keyIn i = some serverTable.key ∧
      parseServerTable (environment serverTable.key) serverTable = .ok (some serverConfig) := by
  obtain ⟨tableKey, hkey, h⟩ := Option.bind_eq_some_iff.mp h
  obtain ⟨serverTable, htable, h⟩ := Option.bind_eq_some_iff.mp h
  obtain ⟨hmem, rfl⟩ := TableT.mem_of_tableIn htable
  split at h
  · next hparse =>
    cases h
    exact ⟨rfl, serverTable, hmem, hkey, hparse⟩
  · cases h

/-- Two servers clash, whatever the indices of their tables. -/
def ClashAt (a b : ℕ × ServerConfigT) : Prop := Clash a.2 b.2

instance : DecidableRel ClashAt := fun a b ↦ inferInstanceAs (Decidable (Clash a.2 b.2))

variable (environment serversTable) in
/-- The servers that are taken. -/
def keptServers : List (ℕ × ServerConfigT) :=
  Greedy.select ClashAt (parsedServers environment serversTable)

theorem freshString_of_parsedAt {i : ℕ} {x : ℕ × ServerConfigT}
    (h : parsedAt environment serversTable i = some x) : FreshString x.2.domain := by
  obtain ⟨-, serverTable, -, -, hparse⟩ := parsedAt_eq_some h
  rw [(parseServerTable_eq_some hparse).domain]
  exact freshString_parseString serverTable "domain"

/-! ### The loop over the tables, round by round -/

variable (environment serversTable) in
/-- The accepted servers of the tables before this index. -/
def parsedBefore (i : ℕ) : List (ℕ × ServerConfigT) :=
  (List.range i).filterMap (parsedAt environment serversTable)

theorem parsedBefore_succ (i : ℕ) : parsedBefore environment serversTable (i + 1) =
    parsedBefore environment serversTable i ++ (parsedAt environment serversTable i).toList := by
  rw [parsedBefore, List.range_succ, List.filterMap_append, parsedBefore]
  cases hat : parsedAt environment serversTable i <;> simp [hat]

theorem length_select_parsedBefore (i : ℕ) :
    (Greedy.select ClashAt (parsedBefore environment serversTable i)).length ≤ i :=
  calc (Greedy.select ClashAt (parsedBefore environment serversTable i)).length
      ≤ (parsedBefore environment serversTable i).length :=
        (Greedy.select_sublist ClashAt _).length_le
    _ ≤ (List.range i).length := List.length_filterMap_le _ _
    _ = i := List.length_range

theorem freshString_of_mem_select {i : ℕ} {x : ℕ × ServerConfigT}
    (h : x ∈ Greedy.select ClashAt (parsedBefore environment serversTable i)) :
    FreshString x.2.domain := by
  have hmem := (Greedy.select_sublist ClashAt _).subset h
  rw [parsedBefore] at hmem
  obtain ⟨k, -, hk⟩ := List.mem_filterMap.mp hmem
  exact freshString_of_parsedAt hk

section Round

variable {i : ℕ} (hi : i < serversTable.ntab) {list : ListT ServerConfigT}
  (hlist : list.Holds
    ((Greedy.select ClashAt (parsedBefore environment serversTable i)).map Prod.snd))

include hi hlist

/-- The scan tells whether the server clashes with one that was taken. -/
theorem duplicate_iff {serverConfig : ServerConfigT}
    (hat : parsedAt environment serversTable i = some (i, serverConfig)) {duplicate : Bool}
    {list' : ListT ServerConfigT}
    (h : duplicateLoop serverConfig i serversTable.ntab 0 list = .ok (duplicate, list')) :
    list'.Holds ((Greedy.select ClashAt (parsedBefore environment serversTable i)).map Prod.snd) ∧
      (duplicate = true ↔ ∃ other ∈ Greedy.select ClashAt (parsedBefore environment serversTable i),
        ClashAt other (i, serverConfig)) := by
  have hkept : ∀ other ∈ (Greedy.select ClashAt (parsedBefore environment serversTable i)).map
      Prod.snd, FreshString other.domain := by
    intro other hother
    obtain ⟨x, hx, rfl⟩ := List.mem_map.mp hother
    exact freshString_of_mem_select hx
  have hlength : ((Greedy.select ClashAt (parsedBefore environment serversTable i)).map
      Prod.snd).length ≤ i := by
    rw [List.length_map]
    exact length_select_parsedBefore i
  obtain ⟨hlist', hiff⟩ := duplicateLoop_spec (freshString_of_parsedAt hat) hkept hlength hlist
    (.inl rfl) (by omega) h
  refine ⟨hlist', ?_⟩
  rw [hiff, List.drop_zero]
  simp only [List.mem_map, exists_exists_and_eq_and]
  rfl

/-- One round takes the server of its table, unless it clashes. -/
theorem serversLoop_step {rounds : ℕ} {list' : ListT ServerConfigT}
    (h : serversLoop environment serversTable (rounds + 1) i list = .ok list') :
    ∃ next : ListT ServerConfigT, next.Holds ((Greedy.select ClashAt
        (parsedBefore environment serversTable (i + 1))).map Prod.snd) ∧
      serversLoop environment serversTable rounds (i + 1) next = .ok list' := by
  rw [parsedBefore_succ]
  rw [serversLoop] at h
  obtain ⟨tableKey, hkey, h⟩ := exists_of_bind_eq_ok h
  have hkey := deref_eq_ok hkey
  cases htable : serversTable.tableIn tableKey with
  | none =>
    have hat : parsedAt environment serversTable i = none := by
      rw [parsedAt, hkey, Option.bind_some, htable]
      rfl
    rw [htable] at h
    rw [hat, Option.toList_none, List.append_nil]
    exact ⟨list, hlist, h⟩
  | some serverTable =>
    rw [htable] at h
    dsimp only at h
    obtain ⟨parsed, hparse, h⟩ := exists_of_bind_eq_ok h
    cases parsed with
    | none =>
      have hat : parsedAt environment serversTable i = none := by
        rw [parsedAt, hkey, Option.bind_some, htable, Option.bind_some, hparse]
      rw [hat, Option.toList_none, List.append_nil]
      exact ⟨list, hlist, h⟩
    | some serverConfig =>
      have hat : parsedAt environment serversTable i = some (i, serverConfig) := by
        rw [parsedAt, hkey, Option.bind_some, htable, Option.bind_some, hparse]
      dsimp only at h
      obtain ⟨⟨duplicate, scanned⟩, hscan, h⟩ := exists_of_bind_eq_ok h
      obtain ⟨hscanned, hclash⟩ := duplicate_iff hi hlist hat hscan
      rw [hat, Option.toList_some, Greedy.select_concat]
      dsimp only at h
      cases duplicate with
      | true =>
        obtain ⟨-, -, h⟩ := exists_of_bind_eq_ok h
        rw [if_pos (hclash.mp rfl)]
        exact ⟨scanned, hscanned, h⟩
      | false =>
        obtain ⟨added, hadd, h⟩ := exists_of_bind_eq_ok h
        obtain ⟨list₁, hadd', hlist₁, -⟩ := hscanned.addValue serverConfig
        rw [hadd'] at hadd
        cases hadd
        rw [if_neg (fun hex ↦ Bool.false_ne_true (hclash.mpr hex)), List.map_append]
        exact ⟨_, hlist₁, h⟩

end Round

/-- The loop takes from the rest of the tables what does not clash. -/
theorem serversLoop_spec {rounds i : ℕ} {list list' : ListT ServerConfigT}
    (hi : i + rounds = serversTable.ntab)
    (hlist : list.Holds
      ((Greedy.select ClashAt (parsedBefore environment serversTable i)).map Prod.snd))
    (h : serversLoop environment serversTable rounds i list = .ok list') :
    list'.Holds ((keptServers environment serversTable).map Prod.snd) := by
  induction rounds generalizing i list with
  | zero =>
    cases h
    rw [keptServers, parsedServers, ← hi]
    exact hlist
  | succ rounds ih =>
    obtain ⟨next, hnext, h⟩ := serversLoop_step (by omega) hlist h
    exact ih (by omega) hnext h

/-- The `[servers]` table of a document; a missing one is as good as an empty one. -/
def serversOf (toml : TableT) : TableT :=
  (toml.tableIn (ascii "servers")).getD (.mk (ascii "servers") [] [] [])

/-- What `config_parse` returns holds the servers that are taken from the `[servers]` table. -/
theorem holds_of_parse {somaxconn : Somaxconn} {toml : TableT} {config : ConfigT}
    (h : parse somaxconn environment (some toml) = .ok (some config)) :
    config.serverConfigs.Holds ((keptServers environment (serversOf toml)).map Prod.snd) := by
  unfold parse at h
  dsimp only at h
  rw [serversOf]
  cases hservers : toml.tableIn (ascii "servers") with
  | none =>
    rw [hservers] at h
    cases h
    change ListT.Holds _ []
    split <;> exact ListT.holds_create
  | some serversTable =>
    rw [hservers] at h
    dsimp only at h
    obtain ⟨serverConfigs, hloop, h⟩ := exists_of_bind_eq_ok h
    cases h
    refine serversLoop_spec (Nat.zero_add _) ?_ hloop
    split <;> exact ListT.holds_create

/-! ### At most one TLS server per domain -/

/-- The tables are parsed in the order of their indices. -/
theorem pairwise_parsedServers :
    (parsedServers environment serversTable).Pairwise (fun a b ↦ a.1 < b.1) := by
  apply List.Pairwise.filterMap _ _ List.pairwise_lt_range
  intro i j hlt a ha b hb
  rw [(parsedAt_eq_some ha).1, (parsedAt_eq_some hb).1]
  exact hlt

/-- A server that is not taken clashes with one of an earlier table that is. -/
theorem mem_keptServers_or {x : ℕ × ServerConfigT}
    (h : x ∈ parsedServers environment serversTable) :
    x ∈ keptServers environment serversTable ∨
      ∃ y ∈ keptServers environment serversTable, y.1 < x.1 ∧ Clash y.2 x.2 := by
  obtain ⟨l, r, hsplit⟩ := List.append_of_mem h
  have hpairwise := @pairwise_parsedServers environment serversTable
  rw [hsplit] at hpairwise
  rw [keptServers, hsplit]
  rcases Greedy.mem_select_or ClashAt l r x with hx | ⟨y, hy, hmem, hclash⟩
  · exact .inl hx
  · refine .inr ⟨y, hmem, ?_, hclash⟩
    exact (List.pairwise_append.mp hpairwise).2.2 y hy x List.mem_cons_self

/-- These servers, with the indices of their tables, are the ones of the configuration: tables in
the order in which they were enumerated, no two of one domain with TLS contexts, and none left
out but for a TLS server that comes behind another one of its domain. -/
structure OneTLSPerDomain (environment : List UInt8 → Environment) (serversTable : TableT)
    (config : ConfigT) (kept : List (ℕ × ServerConfigT)) : Prop where
  holds : config.serverConfigs.Holds (kept.map Prod.snd)
  sublist : kept.Sublist (parsedServers environment serversTable)
  inOrder : kept.Pairwise (fun a b ↦ a.1 < b.1)
  oneTLS : kept.Pairwise (fun a b ↦
    ¬ (a.2.domain = b.2.domain ∧ a.2.sslContext = true ∧ b.2.sslContext = true))
  leftOut : ∀ x ∈ parsedServers environment serversTable, x ∉ kept →
    ∃ y ∈ kept, y.1 < x.1 ∧ y.2.domain = x.2.domain ∧ y.2.sslContext = true ∧
      x.2.sslContext = true

/-- A configuration has at most one TLS server per domain, the first one. -/
theorem parse_oneTLSPerDomain {somaxconn : Somaxconn} {toml : TableT} {config : ConfigT}
    (h : parse somaxconn environment (some toml) = .ok (some config)) :
    ∃ kept, OneTLSPerDomain environment (serversOf toml) config kept := by
  have hsub := Greedy.select_sublist ClashAt (parsedServers environment (serversOf toml))
  refine ⟨keptServers environment (serversOf toml), holds_of_parse h, hsub,
    pairwise_parsedServers.sublist hsub, Greedy.pairwise_select ClashAt _, ?_⟩
  intro x hx hnot
  exact (mem_keptServers_or hx).resolve_left hnot

end Loop

/-! ### Three servers of one domain -/

/-- Whether a configuration is returned. -/
def isReturned : Checked (Option ConfigT) → Bool
  | .ok (some _) => true
  | _ => false

/-- A key with a text. -/
def textKey (key text : String) : KeyvalT := ⟨ascii key, .string (some (ascii text))⟩

/-- A system where every file is there. -/
def openEnvironment : Environment :=
  ⟨fun _ ↦ some ⟨[47], by decide⟩, true, fun _ ↦ true, fun _ ↦ true, fun _ ↦ some true⟩

/-- A server with a domain and a root directory, and with TLS. -/
def tlsTable (key domain : String) : TableT :=
  .mk (ascii key) [textKey "domain" domain, textKey "rootDirectory" "/", textKey "privateKey" "k",
    textKey "certificate" "c"] [] []

/-- A server with a domain and a root directory. -/
def plainTable (key domain : String) : TableT :=
  .mk (ascii key) [textKey "domain" domain, textKey "rootDirectory" "/"] [] []

/-- A document with these servers. -/
def document (servers : TableT) : TableT := .mk [] [] [] [servers]

/-- Two TLS servers of one domain, and one without TLS between them. -/
def threeServers : TableT :=
  document (.mk (ascii "servers") [] [] [tlsTable "x" "a", plainTable "y" "a", tlsTable "z" "a"])

/-- The value of `SOMAXCONN` on Linux. -/
def linuxSomaxconn : Somaxconn := ⟨4096, by decide⟩

theorem exists_parsed (toml : TableT)
    (h : isReturned (parse linuxSomaxconn (fun _ ↦ openEnvironment) (some toml)) = true) :
    ∃ config, parse linuxSomaxconn (fun _ ↦ openEnvironment) (some toml) = .ok (some config) := by
  unfold isReturned at h
  split at h
  · next config hparse => exact ⟨config, hparse⟩
  · cases h

theorem parse_oneTLSPerDomain_three : ∃ config kept,
    parse linuxSomaxconn (fun _ ↦ openEnvironment) (some threeServers) = .ok (some config) ∧
      OneTLSPerDomain (fun _ ↦ openEnvironment) (serversOf threeServers) config kept := by
  obtain ⟨config, h⟩ := exists_parsed threeServers (by decide +kernel)
  obtain ⟨kept, hkept⟩ := parse_oneTLSPerDomain h
  exact ⟨config, kept, h, hkept⟩

end Wsic.Config
