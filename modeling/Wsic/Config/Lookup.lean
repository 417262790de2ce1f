import Wsic.Config.Overlooked

/-!
# Lookups in a configuration

The lookups of `src/config/config.c:382–419` find the first server that they match. Which servers
there are is decided by domains and TLS contexts, and a request is routed by domain and port: of
two servers with the same domain and port the later one is never found.
-/

open CMemory

namespace Wsic.Config

open Toml

/-! ### The first match -/

/-- The loop visits the servers in order. -/
private theorem searchLoop_eq {isMatch : ServerConfigT → Checked Bool} {p : ServerConfigT → Bool}
    {servers : List ServerConfigT} (hp : ∀ server ∈ servers, isMatch server = .ok (p server))
    {list : ListT ServerConfigT} (h : list.Holds servers) (rounds i : ℕ)
    (hi : i + rounds = servers.length) (hc : i = 0 ∨ i = list.currentIndex + 1) :
    ∃ list', searchLoop isMatch rounds i list = .ok ((servers.drop i).find? p, list') ∧
      list'.Holds servers := by
  induction rounds generalizing list i with
  | zero =>
    rw [List.drop_of_length_le (by omega)]
    exact ⟨list, rfl, h⟩
  | succ rounds ih =>
    have hlt : i < servers.length := by omega
    obtain ⟨list', hget, hholds, hcursor⟩ := h.getValue_inOrder hlt hc
    have hrest := ih hholds (i + 1) (by omega) hcursor
    rw [List.drop_eq_getElem_cons hlt, searchLoop, hget, checked_ok_bind]
    dsimp only
    rw [deref_some, checked_ok_bind, hp _ (List.getElem_mem hlt), checked_ok_bind, List.find?_cons]
    cases p servers[i] with
    | true => exact ⟨list', rfl, hholds⟩
    | false => exact hrest

/-- A lookup whose condition can be told of every server finds the first one that meets it. -/
theorem ConfigT.search_eq {config : ConfigT} {servers : List ServerConfigT}
    (h : config.serverConfigs.Holds servers) {isMatch : ServerConfigT → Checked Bool}
    {p : ServerConfigT → Bool} (hp : ∀ server ∈ servers, isMatch server = .ok (p server)) :
    ∃ list, config.search isMatch = .ok (servers.find? p, list) ∧ list.Holds servers := by
  have hloop := searchLoop_eq hp h config.serverConfigs.length 0
    (by rw [h.length_eq, Nat.zero_add]) (.inl rfl)
  rwa [List.drop_zero] at hloop

namespace ServerConfigT

/-- The server has this domain. -/
def HasDomain (text : List UInt8) (server : ServerConfigT) : Prop :=
  server.domain = some (StringT.fromBufferWithLength text)

instance (text : List UInt8) (server : ServerConfigT) : Decidable (server.HasDomain text) :=
  inferInstanceAs (Decidable (server.domain = some (StringT.fromBufferWithLength text)))

/-- The domains of a configuration are C strings. -/
theorem HasDomain.zero_notMem {server : ServerConfigT} {text : List UInt8}
    (h : server.HasDomain text) (hfresh : FreshString server.domain) : 0 ∉ text := by
  obtain ⟨buffer, hbuffer⟩ := hfresh _ h
  rw [StringT.fromBufferWithLength_inj hbuffer]
  exact zero_notMem_cString buffer

section Conditions

variable {server : ServerConfigT} (hfresh : FreshString server.domain)
  (hsome : server.domain ≠ none) {domain : StringT} {text : List UInt8}
  (htext : domain.cstr = .ok text)

include hfresh hsome htext

theorem equals_domain : ∃ other, server.domain = some other ∧
    domain.equals other = .ok (decide (server.HasDomain text)) ∧
      other.equals domain = .ok (decide (server.HasDomain text)) := by
  obtain ⟨other, hother⟩ := Option.ne_none_iff_exists'.mp hsome
  obtain ⟨buffer, rfl⟩ := hfresh other hother
  have hcstr := StringT.cstr_fromBuffer buffer
  have hiff : server.HasDomain text ↔ cString buffer = text := by
    rw [HasDomain, hother, Option.some_inj]
    exact ⟨StringT.fromBufferWithLength_inj, congrArg StringT.fromBufferWithLength⟩
  refine ⟨_, hother, ?_, ?_⟩
  · rw [StringT.equals_of_cstr htext hcstr, decide_eq_decide.mpr (hiff.trans eq_comm)]
  · rw [StringT.equals_of_cstr hcstr htext, decide_eq_decide.mpr hiff]

theorem isDomain_eq (port : UInt16) : server.isDomain domain port =
    .ok (decide (port = server.port.toUInt16 ∧ server.HasDomain text)) := by
  obtain ⟨other, hother, hequals, -⟩ := equals_domain hfresh hsome htext
  unfold isDomain
  split
  · next hport => simp [hother, hequals, hport]
  · next hport => simp [hport]

theorem isDomainWith_eq (hasSSL : Bool) : server.isDomainWith hasSSL domain =
    .ok (decide (server.HasDomain text) && (server.sslContext == hasSSL)) := by
  obtain ⟨other, hother, -, hequals⟩ := equals_domain hfresh hsome htext
  unfold isDomainWith
  rw [hother, deref_some, checked_ok_bind, hequals]
  rfl

end Conditions

end ServerConfigT

section Lookups

variable {config : ConfigT} {servers : List ServerConfigT}
  (h : config.serverConfigs.Holds servers)
  (hdomains : ∀ server ∈ servers, FreshString server.domain ∧ server.domain ≠ none)
  {domain : StringT} {text : List UInt8} (htext : domain.cstr = .ok text)

include h hdomains htext

/-- The first server with the domain and the port is found. -/
theorem getServerConfigByDomain_eq (port : UInt16) :
    ∃ list, config.getServerConfigByDomain domain port = .ok (servers.find? (fun server ↦
      decide (port = server.port.toUInt16 ∧ server.HasDomain text)), list) ∧ list.Holds servers :=
  ConfigT.search_eq h (fun server hserver ↦
    ServerConfigT.isDomain_eq (hdomains server hserver).1 (hdomains server hserver).2 htext port)

/-- The first server with the domain and with, or without, TLS is found. -/
theorem searchWith_eq (hasSSL : Bool) :
    ∃ list, config.search (ServerConfigT.isDomainWith hasSSL domain) = .ok (servers.find?
      (fun server ↦ decide (server.HasDomain text) && (server.sslContext == hasSSL)), list) ∧
        list.Holds servers :=
  ConfigT.search_eq h (fun server hserver ↦ ServerConfigT.isDomainWith_eq
    (hdomains server hserver).1 (hdomains server hserver).2 htext hasSSL)

theorem address_of_found {port : UInt16} {server : ServerConfigT} {list : ListT ServerConfigT}
    (hcall : config.getServerConfigByDomain domain port = .ok (some server, list)) :
    port = server.port.toUInt16 ∧ server.HasDomain text := by
  obtain ⟨list', hcall', -⟩ := getServerConfigByDomain_eq h hdomains htext port
  have hmatch := List.find?_some (congrArg Prod.fst (Except.ok.inj (hcall'.symm.trans hcall)))
  simpa only [decide_eq_true_eq] using hmatch

/-- A server that is the only one with its address is found. -/
theorem found_of_address {port : UInt16} {server : ServerConfigT} (hserver : server ∈ servers)
    (hport : port = server.port.toUInt16) (hdomain : server.HasDomain text)
    (halone : ∀ other ∈ servers, port = other.port.toUInt16 → other.HasDomain text →
      other = server) :
    ∃ list, config.getServerConfigByDomain domain port = .ok (some server, list) := by
  obtain ⟨list, hcall, -⟩ := getServerConfigByDomain_eq h hdomains htext port
  refine ⟨list, hcall.trans ?_⟩
  cases hfind : servers.find? (fun other ↦ decide (port = other.port.toUInt16 ∧
      other.HasDomain text)) with
  | none =>
    exact absurd (decide_eq_true ⟨hport, hdomain⟩) (List.find?_eq_none.mp hfind server hserver)
  | some found =>
    have hmatch := List.find?_some hfind
    simp only [decide_eq_true_eq] at hmatch
    rw [halone found (List.mem_of_find?_eq_some hfind) hmatch.1 hmatch.2]

end Lookups

/-! ### Ports -/

/-- The port of a server as the lookup reads it. -/
theorem toNat_port (port : Int64) :
    (port.toInt16.toUInt16.toNat : ℤ) = port.toInt % 2 ^ 16 := by
  have hvalue : port.toInt16.toInt = port.toInt16.toUInt16.toBitVec.toInt := rfl
  have hlt := port.toInt16.toUInt16.toBitVec.isLt
  rw [Int64.toInt_toInt16, BitVec.toInt_eq_toNat_cond, UInt16.toNat_toBitVec] at hvalue
  rw [UInt16.toNat_toBitVec] at hlt
  have hmod : port.toInt.bmod (2 ^ 16) % (2 ^ 16 : ℕ) = port.toInt % (2 ^ 16 : ℕ) := Int.bmod_emod
  split at hvalue <;> omega

/-- A port that is an integer is in range and is cut to 16 bits. -/
theorem parsePort_of_integer {table : TableT} {value : Int64} {port : Int16}
    (hraw : table.rawIn (ascii "port") = some (.integer value)) (h : parsePort table = some port) :
    port = value.toInt16 ∧ 0 ≤ value.toInt ∧ value.toInt ≤ 65536 := by
  have hvalue : parseInt table "port" = value := by
    rw [parseInt, hraw]
    rfl
  rw [parsePort, hraw] at h
  dsimp only at h
  rw [hvalue] at h
  split at h
  · cases h
  · next hrange =>
    cases h
    exact ⟨rfl, by omega, by omega⟩

/-! ### Servers with the same address -/

/-- Every sub-table sets a domain and a port from 0 to 65535. -/
def SetAddresses (serversTable : TableT) : Prop :=
  ∀ table ∈ serversTable.tab, (∃ text, table.rawIn (ascii "domain") = some (.string (some text))) ∧
    ∃ port, table.rawIn (ascii "port") = some (.integer port) ∧ 0 ≤ port.toInt ∧
      port.toInt ≤ 65535

/-- Every server is found under its own domain and port. -/
def FindsItself (config : ConfigT) (servers : List ServerConfigT) : Prop :=
  ∀ server ∈ servers, ∃ domain list, server.domain = some domain ∧
    config.getServerConfigByDomain domain server.port.toUInt16 = .ok (some server, list)

/-- No two sub-tables that survive have the same domain and the same port. -/
def DistinctAddresses (environment : List UInt8 → Environment) (serversTable : TableT) : Prop :=
  ∀ k k' table table' a b, k < k' → serversTable.tab[k]? = some table →
    serversTable.tab[k']? = some table' → Survives environment serversTable k a →
      Survives environment serversTable k' b →
        ¬ (parseString table "domain" = parseString table' "domain" ∧
          parseInt table "port" = parseInt table' "port")

section Addresses

variable {environment : List UInt8 → Environment} {serversTable : TableT}

/-- The address of a server is that of its sub-table. -/
theorem AcceptedAt.address (hset : SetAddresses serversTable) {k : ℕ} {server : ServerConfigT}
    (h : AcceptedAt environment serversTable k server) :
    ∃ table, serversTable.tab[k]? = some table ∧ server.domain = parseString table "domain" ∧
      server.domain ≠ none ∧ FreshString server.domain ∧
      server.port = (parseInt table "port").toInt16 ∧ 0 ≤ (parseInt table "port").toInt ∧
      (parseInt table "port").toInt ≤ 65535 := by
  obtain ⟨table, htable, hparse⟩ := h
  obtain ⟨⟨text, htext⟩, port, hport, hle, hle'⟩ := hset table (List.mem_of_getElem? htable)
  have haccepted := parseServerTable_eq_some hparse
  have hvalue : parseInt table "port" = port := by
    rw [parseInt, hport]
    rfl
  refine ⟨table, htable, haccepted.domain, ?_, ?_, ?_, ?_⟩
  · rw [haccepted.domain, parseString, htext]
    exact Option.some_ne_none _
  · rw [haccepted.domain]
    exact freshString_parseString table "domain"
  · rw [hvalue]
    exact (parsePort_of_integer hport haccepted.port).1
  · rw [hvalue]
    exact ⟨hle, hle'⟩

/-- Ports up to 65535 stay different. -/
theorem toInt16_inj {a b : Int64} (ha : 0 ≤ a.toInt ∧ a.toInt ≤ 65535)
    (hb : 0 ≤ b.toInt ∧ b.toInt ≤ 65535) (h : a.toInt16.toUInt16 = b.toInt16.toUInt16) : a = b := by
  have hmod : a.toInt % 2 ^ 16 = b.toInt % 2 ^ 16 := by
    rw [← toNat_port, ← toNat_port, h]
  apply Int64.toInt.inj
  omega

/-- Where addresses are distinct, servers with the same one are the same. -/
theorem DistinctAddresses.eq (h : DistinctAddresses environment serversTable)
    (hset : SetAddresses serversTable) {k k' : ℕ} {a b : ServerConfigT}
    (ha : Survives environment serversTable k a) (hb : Survives environment serversTable k' b)
    (hdomain : a.domain = b.domain) (hport : a.port.toUInt16 = b.port.toUInt16) : a = b := by
  obtain ⟨table, htable, hd, -, -, hp, hrange⟩ := ha.accepted.address hset
  obtain ⟨table', htable', hd', -, -, hp', hrange'⟩ := hb.accepted.address hset
  have hsame : parseString table "domain" = parseString table' "domain" := by
    rw [← hd, ← hd', hdomain]
  have hsame' : parseInt table "port" = parseInt table' "port" := by
    apply toInt16_inj hrange hrange'
    rw [← hp, ← hp', hport]
  rcases Nat.lt_trichotomy k k' with hlt | rfl | hlt
  · exact absurd ⟨hsame, hsame'⟩ (h k k' table table' a b hlt htable htable' ha hb)
  · exact ha.accepted.eq hb.accepted
  · exact absurd ⟨hsame.symm, hsame'.symm⟩ (h k' k table' table b a hlt htable' htable hb ha)

/-- Servers with the same address that are both found are the same. -/
theorem FindsItself.eq {config : ConfigT} {servers : List ServerConfigT}
    (h : FindsItself config servers) {a b : ServerConfigT} (ha : a ∈ servers) (hb : b ∈ servers)
    (hdomain : a.domain = b.domain) (hport : a.port = b.port) : a = b := by
  obtain ⟨domain, list, hsome, hcall⟩ := h a ha
  obtain ⟨domain', list', hsome', hcall'⟩ := h b hb
  rw [hdomain, hsome'] at hsome
  cases hsome
  rw [hport, hcall'] at hcall
  cases hcall
  rfl

end Addresses

/-- Every server is found under its own domain and port exactly when no two that survive share
them. -/
theorem findsItself_iff {somaxconn : Somaxconn} {environment : List UInt8 → Environment}
    {toml : TableT} (hkeys : (serversOf toml).WellKeyed) (hset : SetAddresses (serversOf toml))
    {config : ConfigT} (h : parse somaxconn environment (some toml) = .ok (some config))
    {servers : List ServerConfigT} (hservers : config.serverConfigs.Holds servers) :
    FindsItself config servers ↔ DistinctAddresses environment (serversOf toml) := by
  have hmem {server : ServerConfigT} :
      server ∈ servers ↔ ∃ k, Survives environment (serversOf toml) k server :=
    mem_servers_iff hkeys h hservers
  constructor
  · rintro hfinds k k' table table' a b hlt htable htable' ha hb ⟨hdomain, hport⟩
    obtain ⟨t, ht, hd, -, -, hp, -⟩ := ha.accepted.address hset
    obtain ⟨t', ht', hd', -, -, hp', -⟩ := hb.accepted.address hset
    cases htable.symm.trans ht
    cases htable'.symm.trans ht'
    have heq : a = b := hfinds.eq (hmem.mpr ⟨k, ha⟩) (hmem.mpr ⟨k', hb⟩)
      (by rw [hd, hd', hdomain]) (by rw [hp, hp', hport])
    have hk := ha.accepted.unique hkeys (heq ▸ hb.accepted)
    omega
  · intro hdistinct server hserver
    obtain ⟨k, hk⟩ := hmem.mp hserver
    obtain ⟨-, -, -, hsome, hfresh, -⟩ := hk.accepted.address hset
    obtain ⟨domain, hd⟩ := Option.ne_none_iff_exists'.mp hsome
    obtain ⟨text, rfl⟩ := hfresh domain hd
    have hdomains : ∀ other ∈ servers, FreshString other.domain ∧ other.domain ≠ none := by
      intro other hother
      obtain ⟨k', hk'⟩ := hmem.mp hother
      obtain ⟨-, -, -, hsome', hfresh', -⟩ := hk'.accepted.address hset
      exact ⟨hfresh', hsome'⟩
    obtain ⟨list, hcall⟩ : ∃ list, config.getServerConfigByDomain (StringT.fromBuffer text)
        server.port.toUInt16 = .ok (some server, list) := by
      apply found_of_address hservers hdomains (StringT.cstr_fromBuffer text) hserver rfl hd
      intro other hother hport hdomain
      obtain ⟨k', hk'⟩ := hmem.mp hother
      exact (hdistinct.eq hset hk hk' (hd.trans hdomain.symm) hport).symm
    exact ⟨_, list, hd, hcall⟩

/-! ### Two servers of one domain -/

/-- A server without TLS on this port. -/
def portTable (key domain : String) (port : Int64) : TableT :=
  .mk (ascii key) [textKey "domain" domain, textKey "rootDirectory" "/",
    ⟨ascii "port", .integer port⟩] [] []

/-- A server with TLS on this port. -/
def tlsPortTable (key domain : String) (port : Int64) : TableT :=
  .mk (ascii key) [textKey "domain" domain, textKey "rootDirectory" "/",
    ⟨ascii "port", .integer port⟩, textKey "privateKey" "k", textKey "certificate" "c"] [] []

/-- A document with the domain `a` once without TLS, on port 80, and once with TLS. -/
def twoServers (port : Int64) : TableT :=
  document (.mk (ascii "servers") [] [] [portTable "x" "a" 80, tlsPortTable "y" "a" port])

theorem setAddresses_twoServers {port : Int64} (h : 0 ≤ port.toInt ∧ port.toInt ≤ 65535) :
    SetAddresses (serversOf (twoServers port)) := by
  intro table htable
  obtain rfl | rfl : table = portTable "x" "a" 80 ∨ table = tlsPortTable "y" "a" port := by
    simpa using (show table ∈ [portTable "x" "a" 80, tlsPortTable "y" "a" port] from htable)
  · exact ⟨⟨ascii "a", rfl⟩, 80, rfl, by decide⟩
  · exact ⟨⟨ascii "a", rfl⟩, port, rfl, h⟩

/-- On two ports both servers are found. -/
theorem findsItself_two_ports : ∃ config servers,
    (serversOf (twoServers 443)).WellKeyed ∧ SetAddresses (serversOf (twoServers 443)) ∧
      parse linuxSomaxconn (fun _ ↦ openEnvironment) (some (twoServers 443)) =
        .ok (some config) ∧
      config.serverConfigs.Holds servers ∧ FindsItself config servers := by
  obtain ⟨config, h⟩ := exists_parsed (twoServers 443) (by decide +kernel)
  have hkeys : (serversOf (twoServers 443)).WellKeyed := ⟨by decide +kernel, by decide +kernel⟩
  have hset := @setAddresses_twoServers 443 (by decide)
  refine ⟨config, _, hkeys, hset, h, holds_of_parse h, ?_⟩
  apply (findsItself_iff hkeys hset h (holds_of_parse h)).mpr
  rintro k k' table table' a b hlt htable htable' - - ⟨-, hport⟩
  have hlt' : k' < 2 := (List.getElem?_eq_some_iff.mp htable').1
  obtain ⟨rfl, rfl⟩ : k = 0 ∧ k' = 1 := by omega
  cases htable
  cases htable'
  exact absurd hport (by decide +kernel)

/-- On one port the second server is never found. -/
theorem second_of_one_port_not_found : ∃ config servers,
    (serversOf (twoServers 80)).WellKeyed ∧ SetAddresses (serversOf (twoServers 80)) ∧
      parse linuxSomaxconn (fun _ ↦ openEnvironment) (some (twoServers 80)) =
        .ok (some config) ∧
      config.serverConfigs.Holds servers ∧ ¬ FindsItself config servers := by
  obtain ⟨config, h⟩ := exists_parsed (twoServers 80) (by decide +kernel)
  have hkeys : (serversOf (twoServers 80)).WellKeyed := ⟨by decide +kernel, by decide +kernel⟩
  refine ⟨config, _, hkeys, setAddresses_twoServers (by decide), h, holds_of_parse h, ?_⟩
  intro hfinds
  obtain ⟨a, ha⟩ : ∃ a, parseServerTable openEnvironment (portTable "x" "a" 80) = .ok (some a) :=
    ⟨_, rfl⟩
  obtain ⟨b, hb⟩ : ∃ b, parseServerTable openEnvironment (tlsPortTable "y" "a" 80) =
    .ok (some b) := ⟨_, rfl⟩
  have ha' := parseServerTable_eq_some ha
  have hb' := parseServerTable_eq_some hb
  have hplain : a.sslContext = false := congrArg Prod.fst (Option.some_inj.mp ha'.tls).symm
  have hx : AcceptedAt (fun _ ↦ openEnvironment) (serversOf (twoServers 80)) 0 a :=
    ⟨portTable "x" "a" 80, rfl, ha⟩
  have hy : Survives (fun _ ↦ openEnvironment) (serversOf (twoServers 80)) 1 b := by
    refine ⟨by decide +kernel, ⟨tlsPortTable "y" "a" 80, rfl, hb⟩, ?_⟩
    -- The server before it has no TLS.
    intro k hk other hother hclash
    obtain rfl : k = 0 := by omega
    rw [← hx.eq hother] at hclash
    exact Bool.false_ne_true (hplain.symm.trans hclash.2.1)
  have hservers {server : ServerConfigT} :=
    @mem_servers_iff (fun _ ↦ openEnvironment) _ _ hkeys _ h _ (holds_of_parse h) server
  have hport : some a.port = some b.port := ha'.port.symm.trans hb'.port
  have heq : a = b := hfinds.eq
    (hservers.mpr ⟨0, hx.survives_of_plain (by decide +kernel) hplain⟩) (hservers.mpr ⟨1, hy⟩)
    (ha'.domain.trans hb'.domain.symm) (Option.some_inj.mp hport)
  have hname := congrArg ServerConfigT.name heq
  rw [ha'.name, hb'.name] at hname
  exact absurd hname (by decide +kernel)

end Wsic.Config
