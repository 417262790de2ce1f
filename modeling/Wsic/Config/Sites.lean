import Wsic.Config.Usable

/-!
# The servers as a worker sees them

A worker reads a part of the servers of the configuration, with names of strings in their
indices. Where the tables are readable, what `config_parse` returns is such a configuration, and
the lookups of `src/config/config.c:382–419` find the same servers in both.
-/

open CMemory

namespace Wsic.Config

open Toml

/-- The server as it is for a worker. -/
structure ServerConfigT.SeenAs (server : ServerConfigT) (site : SiteT) : Prop where
  domain : site.domain = server.domain
  port : site.port = server.port.toUInt16
  sslContext : site.sslContext = server.sslContext
  rootDirectory : site.rootDirectory = server.rootDirectory
  directoryIndex : (server.directoryIndex = none ∧ site.directoryIndex = none) ∨
    ∃ stored list names, server.directoryIndex = some stored ∧ site.directoryIndex = some list ∧
      stored.Holds (List.map IndexT.string names) ∧ list.Holds names

/-! ### Lookups -/

/-- Two lookups fault alike, or they find the same server and keep the servers. -/
inductive SameResult (servers : List ServerConfigT) (sites : List SiteT) :
    Checked (Option ServerConfigT × ListT ServerConfigT) →
      Checked (Option SiteT × ListT SiteT) → Prop
  | fault (fault : Fault) : SameResult servers sites (.error fault) (.error fault)
  | found {server : Option ServerConfigT} {site : Option SiteT} {stored : ListT ServerConfigT}
      {list : ListT SiteT} (hseen : Option.Rel ServerConfigT.SeenAs server site)
      (hstored : stored.Holds servers) (hlist : list.Holds sites) :
      SameResult servers sites (.ok (server, stored)) (.ok (site, list))

section Lookups

variable {servers : List ServerConfigT} {sites : List SiteT}
  (hall : List.Forall₂ ServerConfigT.SeenAs servers sites)

include hall

/-- Loops whose conditions agree stop at the same server. -/
private theorem sameResult_loop {isMatch : ServerConfigT → Checked Bool}
    {isMatch' : SiteT → Checked Bool}
    (hmatch : ∀ server site, server.SeenAs site → isMatch server = isMatch' site)
    {stored : ListT ServerConfigT} (hstored : stored.Holds servers) {list : ListT SiteT}
    (hlist : list.Holds sites) (rounds i : ℕ) (hi : i + rounds = servers.length)
    (hc : i = 0 ∨ i = stored.currentIndex + 1) (hc' : i = 0 ∨ i = list.currentIndex + 1) :
    SameResult servers sites (searchLoop isMatch rounds i stored)
      (findLoop isMatch' rounds i list) := by
  induction rounds generalizing stored list i with
  | zero => exact .found .none hstored hlist
  | succ rounds ih =>
    have hlt : i < servers.length := by omega
    have hlt' : i < sites.length := hall.length_eq ▸ hlt
    have hseen : servers[i].SeenAs sites[i] := hall.get hlt hlt'
    obtain ⟨stored', hget, hholds, hcursor⟩ := hstored.getValue_inOrder hlt hc
    obtain ⟨list', hget', hholds', hcursor'⟩ := hlist.getValue_inOrder hlt' hc'
    have hrest := ih hholds hholds' (i + 1) (by omega) hcursor hcursor'
    rw [searchLoop, findLoop, hget, hget', checked_ok_bind, checked_ok_bind]
    dsimp only
    rw [deref_some, deref_some, checked_ok_bind, checked_ok_bind, hmatch _ _ hseen]
    cases isMatch' sites[i] with
    | error fault => exact .fault fault
    | ok found =>
      cases found with
      | true => exact .found (.some hseen) hholds hholds'
      | false => exact hrest

variable {config : ConfigT} (hconfig : config.serverConfigs.Holds servers) {list : ListT SiteT}
  (hlist : list.Holds sites) (domain : StringT)

include hconfig hlist

/-- A worker finds by domain and port what the configuration has there. -/
theorem sameResult_byDomain (port : UInt16) :
    SameResult servers sites (config.getServerConfigByDomain domain port)
      (getServerConfigByDomain list (some domain) port) := by
  rw [getServerConfigByDomain, hlist.length_eq, ← hall.length_eq, ← hconfig.length_eq]
  apply sameResult_loop hall _ hconfig hlist _ _ (by rw [hconfig.length_eq, Nat.zero_add])
    (.inl rfl) (.inl rfl)
  intro server site hseen
  rw [ServerConfigT.isDomain, isDomain, hseen.port, hseen.domain]
  rfl

/-- A worker finds the TLS server of a domain that the configuration has. -/
theorem sameResult_byHTTPSDomain :
    SameResult servers sites (config.getServerConfigByHTTPSDomain domain)
      (getServerConfigByHTTPSDomain list (some domain)) := by
  rw [getServerConfigByHTTPSDomain, hlist.length_eq, ← hall.length_eq, ← hconfig.length_eq]
  apply sameResult_loop hall _ hconfig hlist _ _ (by rw [hconfig.length_eq, Nat.zero_add])
    (.inl rfl) (.inl rfl)
  intro server site hseen
  rw [ServerConfigT.isDomainWith, isHTTPSDomain, hseen.domain, hseen.sslContext]
  cases server.sslContext <;> rfl

end Lookups

/-! ### The configuration of a worker -/

/-- A server of a readable table is one for a worker. -/
theorem Accepted.exists_site {environment : Environment} {table : TableT} {server : ServerConfigT}
    (h : Accepted environment table server) (hreadable : Readable table) :
    ∃ site, server.SeenAs site ∧ site.Configured := by
  have hroot : ∀ directory, server.rootDirectory = some directory →
      ∃ path : CanonicalPath, directory = StringT.fromBuffer path.1 := by
    intro directory hdirectory
    rcases h.rootDirectory_cases with ⟨-, hnone⟩ | ⟨-, path, hpath⟩
    · cases hnone.symm.trans hdirectory
    · exact ⟨path, Option.some_inj.mp (hdirectory.symm.trans hpath)⟩
  cases hindex : server.directoryIndex with
  | none =>
    refine ⟨⟨server.domain, server.port.toUInt16, server.sslContext, server.rootDirectory, none⟩,
      ⟨rfl, rfl, rfl, rfl, .inl ⟨hindex, rfl⟩⟩, hroot, ?_⟩
    nofun
  | some stored =>
    have hparse := h.directoryIndex
    rw [hindex] at hparse
    obtain ⟨names, hnames⟩ := strings_of_parseArray hparse hreadable.directoryIndex
    obtain ⟨list, hlist⟩ := ListT.exists_holds (names.map StringT.fromBuffer)
    refine ⟨⟨server.domain, server.port.toUInt16, server.sslContext, server.rootDirectory,
      some list⟩, ⟨rfl, rfl, rfl, rfl, .inr ⟨stored, list, _, hindex, rfl, ?_, hlist⟩⟩, hroot, ?_⟩
    · rwa [List.map_map]
    · intro other hother
      cases hother
      refine ⟨_, hlist, ?_⟩
      intro name hname
      obtain ⟨text, -, rfl⟩ := List.mem_map.mp hname
      exact Option.some_ne_none _

/-- A configuration of readable tables is one for a worker. -/
theorem exists_sites {somaxconn : Somaxconn} {environment : List UInt8 → Environment}
    {toml : TableT} (hkeys : (serversOf toml).WellKeyed) {config : ConfigT}
    (h : parse somaxconn environment (some toml) = .ok (some config))
    {servers : List ServerConfigT} (hservers : config.serverConfigs.Holds servers)
    (hreadable : SurvivorsReadable environment (serversOf toml)) :
    ∃ sites list, ListT.Holds list sites ∧ List.Forall₂ ServerConfigT.SeenAs servers sites ∧
      ∀ site ∈ sites, SiteT.Configured site := by
  have hsites : ∀ server ∈ servers, ∃ site, server.SeenAs site ∧ site.Configured := by
    intro server hserver
    obtain ⟨k, hk⟩ := (mem_servers_iff hkeys h hservers).mp hserver
    obtain ⟨table, htable, hparse⟩ := hk.accepted
    exact (parseServerTable_eq_some hparse).exists_site (hreadable k server table hk htable)
  obtain ⟨sites, hall⟩ : ∃ sites, List.Forall₂ (fun site server ↦
      SiteT.Configured site ∧ ServerConfigT.SeenAs server site) sites servers := by
    clear hservers
    induction servers with
    | nil => exact ⟨[], .nil⟩
    | cons server servers ih =>
      obtain ⟨site, hseen, hsite⟩ := hsites server List.mem_cons_self
      obtain ⟨sites, hrest⟩ := ih (fun other hother ↦ hsites other (List.mem_cons_of_mem _ hother))
      exact ⟨site :: sites, .cons ⟨hsite, hseen⟩ hrest⟩
  obtain ⟨hconfigured, hseen⟩ := (List.forall₂_and_left _ _).mp hall
  obtain ⟨list, hlist⟩ := ListT.exists_holds sites
  exact ⟨sites, list, hlist, hseen.flip, hconfigured⟩

end Wsic.Config
