import Wsic.Config.Lookup
import Wsic.Worker.Transport

/-!
# Servers that requests can use

A request reads the domain, the root directory and the directory index of a server without
checking them, and `config_parseServerTable`, `src/config/config.c:134`, asks for none of them:
what is missing or of another type becomes null or, in an index, a number. `README.md:138–151`
calls the domain and the root directory required.
-/

open CMemory

namespace Wsic.Config

open Toml

/-! ### What a request reads -/

/-- Following the pointer that is stored in a directory index. -/
def IndexT.pointer : IndexT → Checked StringT
  | .string text => .ok text
  | .number value => .error (if value = 0 then .nullPointer else .danglingPointer)

section Steps

variable [FreshBytes] (fs : FileSystem)

/-- The loop over the directory index, `worker.c:272–287`, at index `i`, on the index as the
configuration has stored it. -/
def indexLoop (resolvedPath : StringT) :
    ℕ → ℕ → ListT IndexT → Checked (Option StringT × ListT IndexT)
  | 0, _, directoryIndex => .ok (none, directoryIndex)
  | rounds + 1, i, directoryIndex => do
    let (filePath, directoryIndex) ← directoryIndex.getValue i
    let filePath ← (← deref filePath).pointer
    match ← Path.resolve fs filePath resolvedPath with
    | some indexPath => return (some indexPath, directoryIndex)
    | none => indexLoop resolvedPath rounds (i + 1) directoryIndex

/-- The path of a request below the root directory, then the index of a directory,
`worker.c:253–289`. -/
def ServerConfigT.resolvePath (serverConfig : ServerConfigT) (path : StringT) :
    Checked (Option StringT) := do
  match ← Path.resolve fs path (← deref serverConfig.rootDirectory) with
  | none => return none
  | some resolvedPath =>
    if ← Worker.isFile fs resolvedPath then return some resolvedPath
    else
      match serverConfig.directoryIndex with
      | none => return some resolvedPath
      | some directoryIndex =>
        let (indexPath, _) ← indexLoop fs resolvedPath directoryIndex.length 0 directoryIndex
        return some (indexPath.getD resolvedPath)

end Steps

/-- The server has a domain and a root directory, and nothing but strings in its index. -/
structure ServerConfigT.Usable (server : ServerConfigT) : Prop where
  domain : server.domain ≠ none
  rootDirectory : server.rootDirectory ≠ none
  directoryIndex : ∀ list, server.directoryIndex = some list →
    ∃ names : List StringT, list.Holds (names.map IndexT.string)

/-- No lookup, and no resolution of a path on one of the servers, leaves defined behaviour,
whatever the request. -/
structure NeverFaults [FreshBytes] (config : ConfigT) (servers : List ServerConfigT) : Prop where
  byDomain : ∀ {domain : StringT} {text : List UInt8} (port : UInt16), domain.cstr = .ok text →
    ∃ found, config.getServerConfigByDomain domain port = .ok found
  byHTTPSDomain : ∀ {domain : StringT} {text : List UInt8}, domain.cstr = .ok text →
    ∃ found, config.getServerConfigByHTTPSDomain domain = .ok found
  byHTTPDomain : ∀ {domain : StringT} {text : List UInt8}, domain.cstr = .ok text →
    ∃ found, config.getServerConfigByHTTPDomain domain = .ok found
  resolution : ∀ server ∈ servers, ∀ (fs : FileSystem) {path : StringT} {text : List UInt8},
    path.cstr = .ok text → ∃ found, server.resolvePath fs path = .ok found

/-- The table has readable texts for the domain and the root directory, and no index with
integers or booleans. -/
structure Readable (table : TableT) : Prop where
  domain : ∃ text, table.rawIn (ascii "domain") = some (.string (some text))
  rootDirectory : ∃ text, table.rawIn (ascii "rootDirectory") = some (.string (some text))
  directoryIndex : ∀ array, table.arrayIn (ascii "directoryIndex") = some array →
    ¬ array.HasNumbers

/-! ### Directory indices -/

section Index

variable {array : ArrayT}

/-- What so many rounds add: strings for strings, numbers for integers and booleans, and nothing
for values of another type. -/
structure Adds (array : ArrayT) (rounds : ℕ) (ws : List IndexT) : Prop where
  strings : ¬ array.HasNumbers → ∀ w ∈ ws, ∃ text, w = .string (StringT.fromBuffer text)
  numbers : array.HasNumbers → ws.length = rounds ∧ ∀ w ∈ ws, ∃ value, w = .number value

theorem Adds.cons {rounds : ℕ} {w : IndexT} {ws : List IndexT} (h : Adds array rounds ws)
    (hstring : ¬ array.HasNumbers → ∃ text, w = .string (StringT.fromBuffer text))
    (hnumber : array.HasNumbers → ∃ value, w = .number value) :
    Adds array (rounds + 1) (w :: ws) where
  strings htype := List.forall_mem_cons.mpr ⟨hstring htype, h.strings htype⟩
  numbers htype := by
    obtain ⟨hlength, hall⟩ := h.numbers htype
    exact ⟨by rw [List.length_cons, hlength], List.forall_mem_cons.mpr ⟨hnumber htype, hall⟩⟩

/-- The loop over an array appends what its rounds add. -/
theorem parseArrayLoop_spec {rounds i : ℕ} {list : ListT IndexT} {vs : List IndexT}
    (hlist : list.Holds vs) {list' : ListT IndexT}
    (h : parseArrayLoop array rounds i list = .ok (some list')) :
    ∃ ws, list'.Holds (vs ++ ws) ∧ Adds array rounds ws := by
  induction rounds generalizing i list vs with
  | zero =>
    cases h
    exact ⟨[], by rwa [List.append_nil], fun _ _ hw ↦ absurd hw List.not_mem_nil,
      fun _ ↦ ⟨rfl, fun _ hw ↦ absurd hw List.not_mem_nil⟩⟩
  | succ rounds ih =>
    -- What a round adds comes before what the other rounds add.
    have hadd (w : IndexT)
        (h : (do parseArrayLoop array rounds (i + 1) (← list.addValue w)) = .ok (some list'))
        (hstring : ¬ array.HasNumbers →
          ∃ text, w = .string (StringT.fromBuffer text))
        (hnumber : array.HasNumbers → ∃ value, w = .number value) :
        ∃ ws, list'.Holds (vs ++ ws) ∧ Adds array (rounds + 1) ws := by
      obtain ⟨list₁, hadd, hlist₁, -⟩ := hlist.addValue w
      rw [hadd, checked_ok_bind] at h
      obtain ⟨ws, hholds, hadds⟩ := ih hlist₁ h
      exact ⟨w :: ws, by simpa using hholds, hadds.cons hstring hnumber⟩
    rw [parseArrayLoop] at h
    cases hraw : array.rawAt i with
    | none =>
      rw [hraw] at h
      cases h
    | some raw =>
      rw [hraw] at h
      dsimp only at h
      split at h
      · next htype => exact hadd _ h (fun hnot ↦ absurd (.inl htype) hnot) (fun _ ↦ ⟨_, rfl⟩)
      · next htype =>
        obtain ⟨text, -, h⟩ := exists_of_bind_eq_ok h
        apply hadd _ h (fun _ ↦ ⟨text, rfl⟩)
        simp [ArrayT.HasNumbers, htype]
      · next htype => exact hadd _ h (fun hnot ↦ absurd (.inr htype) hnot) (fun _ ↦ ⟨_, rfl⟩)
      · next htype =>
        obtain ⟨ws, hholds, hstrings, -⟩ := ih hlist h
        exact ⟨ws, hholds, hstrings, by simp [ArrayT.HasNumbers, htype]⟩
      · next htype =>
        obtain ⟨ws, hholds, hstrings, -⟩ := ih hlist h
        exact ⟨ws, hholds, hstrings, by simp [ArrayT.HasNumbers, htype]⟩

/-- An array whose values are all there gives a list. -/
theorem parseArrayLoop_ne_none {rounds i : ℕ} {list : ListT IndexT}
    (hraw : ∀ k, i ≤ k → k < i + rounds → array.rawAt k ≠ none) :
    parseArrayLoop array rounds i list ≠ .ok none := by
  induction rounds generalizing i list with
  | zero => nofun
  | succ rounds ih =>
    have hrest {list : ListT IndexT} :=
      @ih (i + 1) list (fun k hle hlt ↦ hraw k (by omega) (by omega))
    obtain ⟨raw, hsome⟩ := Option.ne_none_iff_exists'.mp (hraw i (le_refl i) (by omega))
    intro h
    rw [parseArrayLoop, hsome] at h
    dsimp only at h
    split at h
    · obtain ⟨list', -, h⟩ := exists_of_bind_eq_ok h
      exact hrest h
    · obtain ⟨text, -, h⟩ := exists_of_bind_eq_ok h
      obtain ⟨list', -, h⟩ := exists_of_bind_eq_ok h
      exact hrest h
    · obtain ⟨list', -, h⟩ := exists_of_bind_eq_ok h
      exact hrest h
    · exact hrest h
    · exact hrest h

variable {table : TableT} {key : String}

/-- An index without numbers holds strings. -/
theorem strings_of_parseArray {list : ListT IndexT} (h : parseArray table key = .ok (some list))
    (hnumbers : ∀ array, table.arrayIn (ascii key) = some array → ¬ array.HasNumbers) :
    ∃ names : List (List UInt8),
      list.Holds (names.map (fun name ↦ .string (StringT.fromBuffer name))) := by
  unfold parseArray at h
  split at h
  · cases h
  · next array harray =>
    obtain ⟨ws, hholds, hstrings, -⟩ := parseArrayLoop_spec ListT.holds_create h
    have hrange : ws ∈ Set.range (List.map fun name ↦ IndexT.string (StringT.fromBuffer name)) := by
      rw [Set.range_list_map]
      intro w hw
      obtain ⟨text, rfl⟩ := hstrings (hnumbers array harray) w hw
      exact ⟨text, rfl⟩
    obtain ⟨names, rfl⟩ := hrange
    exact ⟨names, hholds⟩

/-- An index with numbers starts with one. -/
theorem number_of_parseArray {index : Option (ListT IndexT)} (h : parseArray table key = .ok index)
    {array : ArrayT} (harray : table.arrayIn (ascii key) = some array)
    (hnumbers : array.HasNumbers) :
    ∃ list value ws, index = some list ∧ list.Holds (.number value :: ws) := by
  have htype : array.type ≠ none := by
    rcases hnumbers with htype | htype <;> simp [htype]
  rw [parseArray, harray] at h
  dsimp only at h
  cases index with
  | none =>
    refine absurd h (parseArrayLoop_ne_none (fun k _ hk ↦ ArrayT.rawAt_isSome htype ?_))
    omega
  | some list =>
    obtain ⟨ws, hholds, -, hnumber⟩ := parseArrayLoop_spec ListT.holds_create h
    obtain ⟨hlength, hall⟩ := hnumber hnumbers
    cases ws with
    | nil =>
      have hpos := ArrayT.nelem_pos htype
      simp at hlength
      omega
    | cons w ws =>
      obtain ⟨value, rfl⟩ := hall w List.mem_cons_self
      exact ⟨list, value, ws, rfl, hholds⟩

end Index

/-! ### Resolution -/

/-- The server of the resolution that this one is for a request. -/
structure ServerConfigT.ResolvesBy (serverConfig : ServerConfigT) (server : Server) : Prop where
  rootDirectory : serverConfig.rootDirectory = some server.rootDirectory
  directoryIndex : (serverConfig.directoryIndex = none ∧ server.names = []) ∨
    ∃ list, serverConfig.directoryIndex = some list ∧
      list.Holds (server.names.map IndexT.string)

section Resolution

variable [FreshBytes] {fs : FileSystem}

/-- An index of strings is visited in order. -/
theorem indexLoop_eq (directory : CanonicalPath) {list : ListT IndexT} {names : List StringT}
    (h : list.Holds (names.map IndexT.string)) (rounds i : ℕ) (hi : i + rounds = names.length)
    (hc : i = 0 ∨ i = list.currentIndex + 1) :
    (indexLoop fs (StringT.fromBuffer directory.1) rounds i list).map Prod.fst =
      (firstIndex fs directory.1 (names.drop i)).map
        (Option.map (fun path ↦ StringT.fromBuffer path.1)) := by
  induction rounds generalizing list i with
  | zero =>
    rw [List.drop_of_length_le (by omega)]
    rfl
  | succ rounds ih =>
    have hlt : i < names.length := by omega
    obtain ⟨list', hget, hholds, hcursor⟩ := h.getValue_inOrder (by rwa [List.length_map]) hc
    have hrest := ih hholds (i + 1) (by omega) hcursor
    rw [List.getElem_map] at hget
    rw [List.drop_eq_getElem_cons hlt, firstIndex, indexLoop, hget, checked_ok_bind]
    dsimp only
    rw [deref_some, checked_ok_bind, IndexT.pointer, checked_ok_bind, Path.resolve_eq]
    cases hname : names[i].cstr with
    | error e => rfl
    | ok name =>
      rw [checked_ok_bind, checked_ok_map, checked_ok_bind]
      cases Path.target fs name directory.1 with
      | none => exact hrest
      | some path => rfl

/-- The resolution on the configuration is that of the server. -/
theorem ServerConfigT.ResolvesBy.resolvePath_eq {serverConfig : ServerConfigT} {server : Server}
    (h : serverConfig.ResolvesBy server) (path : StringT) :
    serverConfig.resolvePath fs path =
      (server.found fs path).map (Option.map (fun path ↦ StringT.fromBuffer path.1)) := by
  rw [ServerConfigT.resolvePath, Server.found, h.rootDirectory, deref_some, checked_ok_bind,
    server.rootDirectory_eq, Path.resolve_eq]
  cases path.cstr with
  | error e => rfl
  | ok p =>
    rw [checked_ok_map, checked_ok_bind, checked_ok_bind]
    cases Path.target fs p server.root.1 with
    | none => rfl
    | some resolved =>
      dsimp only [Option.map_some]
      rw [Worker.isFile_canonical, checked_ok_bind]
      cases fs.isRegular resolved.1 with
      | true => rfl
      | false =>
        rw [if_neg Bool.false_ne_true, if_neg Bool.false_ne_true]
        rcases h.directoryIndex with ⟨hnone, hnames⟩ | ⟨list, hsome, hholds⟩
        · rw [hnone, hnames]
          rfl
        · rw [hsome]
          dsimp only
          have hloop := @indexLoop_eq _ fs resolved _ _ hholds list.length 0
            (by rw [hholds.length_eq, List.length_map, Nat.zero_add]) (.inl rfl)
          rw [List.drop_zero] at hloop
          cases hfirst : firstIndex fs resolved.1 server.names with
          | error e =>
            rw [hfirst] at hloop
            obtain ⟨e', hindex, he⟩ | ⟨_, _, _, he⟩ := checked_fst_cases hloop
            · cases he
              rw [hindex]
              rfl
            · cases he
          | ok index =>
            rw [hfirst] at hloop
            obtain ⟨_, _, he⟩ | ⟨indexPath, list', hindex, he⟩ := checked_fst_cases hloop
            · cases he
            · cases he
              rw [hindex]
              cases index <;> rfl

end Resolution

/-! ### Tables and servers -/

theorem parseString_ne_none_iff (table : TableT) (key : String) : parseString table key ≠ none ↔
    ∃ text, table.rawIn (ascii key) = some (.string (some text)) := by
  unfold parseString
  cases table.rawIn (ascii key) with
  | none => simp
  | some raw =>
    cases raw with
    | string text => cases text <;> simp [RawT.rtos]
    | integer value => simp [RawT.rtos]
    | boolean value => simp [RawT.rtos]
    | other => simp [RawT.rtos]

namespace Accepted

variable {environment : Environment} {table : TableT} {server : ServerConfigT}
  (h : Accepted environment table server)

include h

/-- The root directory is null without a text for it, and a result of `realpath` with one. -/
theorem rootDirectory_cases : (parseString table "rootDirectory" = none ∧
      server.rootDirectory = none) ∨
    parseString table "rootDirectory" ≠ none ∧
      ∃ path : CanonicalPath, server.rootDirectory = some (StringT.fromBuffer path.1) := by
  have hroot := h.rootDirectory
  unfold parseRootDirectory at hroot
  split at hroot
  · next hnone => exact .inl ⟨hnone, (Option.some_inj.mp hroot).symm⟩
  · next hsome =>
    split at hroot
    · cases hroot
    · next path _ =>
      exact .inr ⟨by simp [hsome], path, (Option.some_inj.mp hroot).symm⟩

theorem usable (hreadable : Readable table) : server.Usable := by
  refine ⟨?_, ?_, ?_⟩
  · rw [h.domain]
    exact (parseString_ne_none_iff _ _).mpr hreadable.domain
  · have hroot := (parseString_ne_none_iff _ _).mpr hreadable.rootDirectory
    rcases h.rootDirectory_cases with ⟨hnone, -⟩ | ⟨-, path, hpath⟩
    · exact absurd hnone hroot
    · simp [hpath]
  · intro list hlist
    have hindex := h.directoryIndex
    rw [hlist] at hindex
    obtain ⟨names, hnames⟩ := strings_of_parseArray hindex hreadable.directoryIndex
    exact ⟨names.map StringT.fromBuffer, by rwa [List.map_map]⟩

theorem readable (husable : server.Usable) : Readable table := by
  refine ⟨?_, ?_, ?_⟩
  · apply (parseString_ne_none_iff _ _).mp
    rw [← h.domain]
    exact husable.domain
  · apply (parseString_ne_none_iff _ _).mp
    rcases h.rootDirectory_cases with ⟨-, hnone⟩ | ⟨hsome, -⟩
    · exact absurd hnone husable.rootDirectory
    · exact hsome
  · intro array harray hnumbers
    obtain ⟨list, value, ws, hlist, hholds⟩ := number_of_parseArray h.directoryIndex harray hnumbers
    obtain ⟨names, hnames⟩ := husable.directoryIndex list hlist
    -- The first element is no string.
    have hheads := hholds.unique hnames
    cases names with
    | nil => cases hheads
    | cons name names => cases hheads

/-- A usable server resolves paths. -/
theorem exists_server (hreadable : Readable table) : ∃ resolving : Server,
    server.ResolvesBy resolving ∧ ∀ name ∈ resolving.names, name.buffer ≠ none := by
  have hroot := (parseString_ne_none_iff _ _).mpr hreadable.rootDirectory
  rcases h.rootDirectory_cases with ⟨hnone, -⟩ | ⟨-, path, hpath⟩
  · exact absurd hnone hroot
  · have hindex := h.directoryIndex
    cases hlist : server.directoryIndex with
    | none =>
      exact ⟨Server.ofRoot path, ⟨hpath, .inl ⟨hlist, rfl⟩⟩,
        fun _ hname ↦ absurd hname List.not_mem_nil⟩
    | some list =>
      rw [hlist] at hindex
      obtain ⟨names, hnames⟩ := strings_of_parseArray hindex hreadable.directoryIndex
      obtain ⟨strings, hstrings⟩ := ListT.exists_holds (names.map StringT.fromBuffer)
      refine ⟨⟨⟨_, some strings⟩, path, names.map StringT.fromBuffer, rfl, hstrings⟩,
        ⟨hpath, .inr ⟨list, hlist, by rwa [List.map_map]⟩⟩, ?_⟩
      intro name hname
      obtain ⟨text, -, rfl⟩ := List.mem_map.mp hname
      exact Option.some_ne_none _

end Accepted

/-! ### When every server is usable -/

/-- Every sub-table that survives is readable. -/
def SurvivorsReadable (environment : List UInt8 → Environment) (serversTable : TableT) : Prop :=
  ∀ k server table, Survives environment serversTable k server →
    serversTable.tab[k]? = some table → Readable table

/-- Servers of readable tables never fault. -/
theorem neverFaults_of_readable [FreshBytes] {config : ConfigT} {servers : List ServerConfigT}
    (hservers : config.serverConfigs.Holds servers)
    (h : ∀ server ∈ servers, ∃ environment table, Accepted environment table server ∧
      Readable table) : NeverFaults config servers := by
  have hdomains : ∀ server ∈ servers, FreshString server.domain ∧ server.domain ≠ none := by
    intro server hserver
    obtain ⟨environment, table, haccepted, hreadable⟩ := h server hserver
    refine ⟨?_, (haccepted.usable hreadable).domain⟩
    rw [haccepted.domain]
    exact freshString_parseString table "domain"
  refine ⟨?_, ?_, ?_, ?_⟩
  · intro domain text port htext
    obtain ⟨list, hcall, -⟩ := getServerConfigByDomain_eq hservers hdomains htext port
    exact ⟨_, hcall⟩
  · intro domain text htext
    obtain ⟨list, hcall, -⟩ := searchWith_eq hservers hdomains htext true
    exact ⟨_, hcall⟩
  · intro domain text htext
    obtain ⟨list, hcall, -⟩ := searchWith_eq hservers hdomains htext false
    exact ⟨_, hcall⟩
  · intro server hserver fs path text htext
    obtain ⟨environment, table, haccepted, hreadable⟩ := h server hserver
    obtain ⟨resolving, hresolves, hnames⟩ := haccepted.exists_server hreadable
    obtain ⟨found, hfound⟩ := Worker.found_ok resolving hnames fs htext
    rw [hresolves.resolvePath_eq, hfound]
    exact ⟨_, rfl⟩

/-- The servers of a configuration are usable, and no request faults on them, exactly when their
tables are readable. -/
theorem alwaysUsable_iff [FreshBytes] {somaxconn : Somaxconn}
    {environment : List UInt8 → Environment} {toml : TableT}
    (hkeys : (serversOf toml).WellKeyed) {config : ConfigT}
    (h : parse somaxconn environment (some toml) = .ok (some config))
    {servers : List ServerConfigT} (hservers : config.serverConfigs.Holds servers) :
    ((∀ server ∈ servers, server.Usable) ∧ NeverFaults config servers) ↔
      SurvivorsReadable environment (serversOf toml) := by
  have hmem {server : ServerConfigT} :
      server ∈ servers ↔ ∃ k, Survives environment (serversOf toml) k server :=
    mem_servers_iff hkeys h hservers
  constructor
  · rintro ⟨husable, -⟩ k server table hk htable
    obtain ⟨table', htable', hparse⟩ := hk.accepted
    cases htable.symm.trans htable'
    exact (parseServerTable_eq_some hparse).readable (husable server (hmem.mpr ⟨k, hk⟩))
  · intro hreadable
    have hall : ∀ server ∈ servers, ∃ environment table, Accepted environment table server ∧
        Readable table := by
      intro server hserver
      obtain ⟨k, hk⟩ := hmem.mp hserver
      obtain ⟨table, htable, hparse⟩ := hk.accepted
      exact ⟨_, table, parseServerTable_eq_some hparse, hreadable k server table hk htable⟩
    refine ⟨?_, neverFaults_of_readable hservers hall⟩
    intro server hserver
    obtain ⟨_, table, haccepted, htable⟩ := hall server hserver
    exact haccepted.usable htable

/-! ### A server without anything -/

theorem alwaysUsable_plain : ∃ config servers,
    (serversOf (besideServer [])).WellKeyed ∧
      parse linuxSomaxconn (fun _ ↦ openEnvironment) (some (besideServer [])) =
        .ok (some config) ∧
      config.serverConfigs.Holds servers ∧
      (∀ server ∈ servers, server.Usable) ∧ @NeverFaults FreshBytes.zero config servers := by
  obtain ⟨config, h⟩ := exists_parsed (besideServer []) (by decide +kernel)
  have hkeys := wellKeyed_besideServer.1
  refine ⟨config, _, hkeys, h, holds_of_parse h, ?_⟩
  apply (@alwaysUsable_iff FreshBytes.zero _ _ _ hkeys _ h _ (holds_of_parse h)).mpr
  intro k server table _ htable
  have hlt : k < 1 := (List.getElem?_eq_some_iff.mp htable).1
  obtain rfl : k = 0 := by omega
  cases htable
  refine ⟨⟨_, rfl⟩, ⟨_, rfl⟩, ?_⟩
  nofun

/-- A document with a server without any keys. -/
def emptyServer : TableT := document (.mk (ascii "servers") [] [] [.mk (ascii "x") [] [] []])

/-- The only server has neither a domain nor a root directory. -/
theorem empty_server_not_usable : ∃ config servers,
    (serversOf emptyServer).WellKeyed ∧
      parse linuxSomaxconn (fun _ ↦ openEnvironment) (some emptyServer) = .ok (some config) ∧
      config.serverConfigs.Holds servers ∧
      ¬ ((∀ server ∈ servers, server.Usable) ∧ @NeverFaults FreshBytes.zero config servers) := by
  obtain ⟨config, h⟩ := exists_parsed emptyServer (by decide +kernel)
  have hkeys : (serversOf emptyServer).WellKeyed := ⟨by decide +kernel, by decide +kernel⟩
  refine ⟨config, _, hkeys, h, holds_of_parse h, ?_⟩
  rintro ⟨husable, -⟩
  obtain ⟨server, hparse⟩ : ∃ server,
      parseServerTable openEnvironment (.mk (ascii "x") [] [] []) = .ok (some server) := ⟨_, rfl⟩
  have haccepted := parseServerTable_eq_some hparse
  have hmem := (mem_servers_iff hkeys h (holds_of_parse h)).mpr
    ⟨0, AcceptedAt.survives_of_plain ⟨_, rfl, hparse⟩ (by decide +kernel)
      (congrArg Prod.fst (Option.some_inj.mp haccepted.tls).symm)⟩
  exact (husable server hmem).domain haccepted.domain

end Wsic.Config
