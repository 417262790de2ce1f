import Wsic.Config.Lookup

/-!
# Certificates and sites

The handshake of a connection chooses the TLS context by the name that the client indicates,
`server_handleServerNameIdentification`, `src/server/server.c:273–293`, and the request on this
connection is routed by its `Host` header, `src/worker/worker.c:185–189`. Nothing compares the two.
The result says when the site that answers is the one whose certificate the client was shown.
-/

open CMemory

namespace Wsic.Config

open Toml

/-- What `server_handleServerNameIdentification` returns: `SSL_TLSEXT_ERR_NOACK`, or
`SSL_TLSEXT_ERR_OK` with the server whose context is set. -/
inductive Identification where
  | noAck
  | ok (serverConfig : ServerConfigT)

/-- `server_handleServerNameIdentification`, `server.c:273`, on what `SSL_get_servername` gives,
with the cursor of the list behind it. -/
def handleServerNameIdentification (config : ConfigT) (rawDomain : Option (List UInt8)) :
    Checked (Identification × ListT ServerConfigT) :=
  match rawDomain with
  | none => .ok (.noAck, config.serverConfigs)
  | some rawDomain => do
    let domain := StringT.fromBuffer rawDomain
    let (serverConfig, serverConfigs) ← config.getServerConfigByHTTPSDomain domain
    match serverConfig with
    | none => return (.noAck, serverConfigs)
    | some serverConfig => return (.ok serverConfig, serverConfigs)

/-! ### What a lookup has found -/

/-- A server that the loop has found is one of the list and meets the condition. -/
theorem searchLoop_some {isMatch : ServerConfigT → Checked Bool} {servers : List ServerConfigT}
    {list list' : ListT ServerConfigT} (h : list.Holds servers) {rounds i : ℕ}
    (hi : i + rounds = servers.length) (hc : i = 0 ∨ i = list.currentIndex + 1)
    {server : ServerConfigT} (hs : searchLoop isMatch rounds i list = .ok (some server, list')) :
    server ∈ servers ∧ isMatch server = .ok true := by
  induction rounds generalizing list i with
  | zero => cases hs
  | succ rounds ih =>
    have hlt : i < servers.length := by omega
    obtain ⟨next, hget, hholds, hcursor⟩ := h.getValue_inOrder hlt hc
    rw [searchLoop, hget, checked_ok_bind] at hs
    dsimp only at hs
    rw [deref_some, checked_ok_bind] at hs
    cases hmatch : isMatch servers[i] with
    | error reason =>
      rw [hmatch] at hs
      cases hs
    | ok found =>
      rw [hmatch, checked_ok_bind] at hs
      cases found with
      | true =>
        cases hs
        exact ⟨List.getElem_mem hlt, hmatch⟩
      | false => exact ih hholds (by omega) hcursor hs

theorem ConfigT.search_some {config : ConfigT} {servers : List ServerConfigT}
    (h : config.serverConfigs.Holds servers) {isMatch : ServerConfigT → Checked Bool}
    {server : ServerConfigT} {list : ListT ServerConfigT}
    (hs : config.search isMatch = .ok (some server, list)) :
    server ∈ servers ∧ isMatch server = .ok true :=
  searchLoop_some h (by rw [h.length_eq, Nat.zero_add]) (.inl rfl) hs

/-- A server that was found by domain and port has both. -/
theorem ServerConfigT.isDomain_true {server : ServerConfigT} (hfresh : FreshString server.domain)
    {domain : StringT} {text : List UInt8} (htext : domain.cstr = .ok text) {port : UInt16}
    (h : server.isDomain domain port = .ok true) :
    port = server.port.toUInt16 ∧ server.HasDomain text := by
  have hport : port = server.port.toUInt16 := by
    by_contra hne
    rw [isDomain, if_neg hne] at h
    cases h
  have hsome : server.domain ≠ none := by
    intro hnone
    rw [isDomain, if_pos hport, hnone] at h
    cases h
  rw [isDomain_eq hfresh hsome htext] at h
  exact of_decide_eq_true (Except.ok.inj h)

/-- A server that was found by domain and TLS has both. -/
theorem ServerConfigT.isDomainWith_true {server : ServerConfigT}
    (hfresh : FreshString server.domain) {domain : StringT} {text : List UInt8}
    (htext : domain.cstr = .ok text) {hasSSL : Bool}
    (h : server.isDomainWith hasSSL domain = .ok true) :
    server.HasDomain text ∧ server.sslContext = hasSSL := by
  have hsome : server.domain ≠ none := by
    intro hnone
    rw [isDomainWith, hnone] at h
    cases h
  rw [isDomainWith_eq hfresh hsome htext] at h
  have hboth := Except.ok.inj h
  rw [Bool.and_eq_true, decide_eq_true_iff, beq_iff_eq] at hboth
  exact hboth

/-! ### One certificate for a domain -/

section Parsed

variable {somaxconn : Somaxconn} {environment : List UInt8 → Environment} {toml : TableT}
  {config : ConfigT} (h : parse somaxconn environment (some toml) = .ok (some config))
  {servers : List ServerConfigT} (hservers : config.serverConfigs.Holds servers)

include h hservers

theorem freshString_of_parse {server : ServerConfigT} (hmem : server ∈ servers) :
    FreshString server.domain := by
  rw [hservers.unique (holds_of_parse h), keptServers] at hmem
  obtain ⟨x, hx, rfl⟩ := List.mem_map.mp hmem
  obtain ⟨k, -, hk⟩ := List.mem_filterMap.mp ((Greedy.select_sublist ClashAt _).subset hx)
  exact freshString_of_parsedAt hk

/-- No two servers of a configuration have the same domain and TLS. -/
theorem eq_of_clash {a b : ServerConfigT} (ha : a ∈ servers) (hb : b ∈ servers)
    (hclash : Clash a b) : a = b := by
  rw [hservers.unique (holds_of_parse h), keptServers] at ha hb
  obtain ⟨x, hx, rfl⟩ := List.mem_map.mp ha
  obtain ⟨y, hy, rfl⟩ := List.mem_map.mp hb
  by_contra hne
  have hpairs := Greedy.pairwise_select ClashAt (parsedServers environment (serversOf toml))
  have hsymm : Std.Symm (fun a b ↦ ¬ ClashAt a b) := ⟨fun _ _ hnot hc ↦ hnot (Clash.symm hc)⟩
  exact hpairs.forall hx hy (fun he ↦ hne (congrArg Prod.snd he)) hclash

/-- A request over TLS is answered by the site whose certificate the client was shown if and only
if the domain of its `Host` header is the name that the client indicated in the handshake. -/
theorem site_eq_certified_iff {handshaking routing : ConfigT}
    (hhandshaking : handshaking.serverConfigs.Holds servers)
    (hrouting : routing.serverConfigs.Holds servers) {rawDomain : List UInt8}
    {certified : ServerConfigT} {list : ListT ServerConfigT}
    (hname : handleServerNameIdentification handshaking (some rawDomain) =
      .ok (.ok certified, list))
    {domain : StringT} {text : List UInt8} (htext : domain.cstr = .ok text) {port : UInt16}
    {site : ServerConfigT} {list' : ListT ServerConfigT}
    (hsite : routing.getServerConfigByDomain domain port = .ok (some site, list'))
    (htls : site.sslContext = true) : site = certified ↔ text = cString rawDomain := by
  have hcertified : certified ∈ servers ∧
      certified.HasDomain (cString rawDomain) ∧ certified.sslContext = true := by
    obtain ⟨⟨found, list₁⟩, hfound, hname⟩ := exists_of_bind_eq_ok hname
    cases found with
    | none => cases hname
    | some found =>
      cases hname
      obtain ⟨hmem, hmatch⟩ := ConfigT.search_some hhandshaking hfound
      exact ⟨hmem, ServerConfigT.isDomainWith_true (freshString_of_parse h hservers hmem)
        (StringT.cstr_fromBuffer rawDomain) hmatch⟩
  obtain ⟨hmem, hmatch⟩ := ConfigT.search_some hrouting hsite
  obtain ⟨-, hdomain⟩ :=
    ServerConfigT.isDomain_true (freshString_of_parse h hservers hmem) htext hmatch
  obtain ⟨hmem', hdomain', htls'⟩ := hcertified
  constructor
  · rintro rfl
    exact StringT.fromBufferWithLength_inj (Option.some.inj (hdomain.symm.trans hdomain'))
  · rintro rfl
    exact eq_of_clash h hservers hmem hmem' ⟨hdomain.trans hdomain'.symm, htls, htls'⟩

end Parsed

/-! ### Two sites behind one certificate -/

/-- Two domains with TLS on one port. -/
def twoDomains : TableT :=
  document (.mk (ascii "servers") [] [] [tlsPortTable "x" "a" 443, tlsPortTable "y" "b" 443])

/-- A client that indicates the name `a` is certified, and its requests for `a` and for `b` are
routed to sites with TLS. -/
def servesBoth : Checked (Option ConfigT) → Bool
  | .ok (some config) =>
    match handleServerNameIdentification config (some (ascii "a")),
      config.getServerConfigByDomain (StringT.fromBuffer (ascii "a")) 443,
      config.getServerConfigByDomain (StringT.fromBuffer (ascii "b")) 443 with
    | .ok (.ok _, _), .ok (some a, _), .ok (some b, _) => a.sslContext && b.sslContext
    | _, _, _ => false
  | _ => false

theorem site_eq_certified_iff_two : ∃ config certified a b list list₁ list₂,
    parse linuxSomaxconn (fun _ ↦ openEnvironment) (some twoDomains) = .ok (some config) ∧
      handleServerNameIdentification config (some (ascii "a")) = .ok (.ok certified, list) ∧
      config.getServerConfigByDomain (StringT.fromBuffer (ascii "a")) 443 = .ok (some a, list₁) ∧
      config.getServerConfigByDomain (StringT.fromBuffer (ascii "b")) 443 = .ok (some b, list₂) ∧
      a = certified ∧ b ≠ certified := by
  have hserves : servesBoth (parse linuxSomaxconn (fun _ ↦ openEnvironment) (some twoDomains)) =
    true := by decide +kernel
  unfold servesBoth at hserves
  split at hserves
  · next config hparse =>
    split at hserves
    · next certified list a list₁ b list₂ hname ha hb =>
      rw [Bool.and_eq_true] at hserves
      have hholds := holds_of_parse hparse
      refine ⟨config, certified, a, b, list, list₁, list₂, hparse, hname, ha, hb, ?_, ?_⟩
      · exact (site_eq_certified_iff hparse hholds hholds hholds hname
          (StringT.cstr_fromBuffer _) ha hserves.1).mpr rfl
      · intro heq
        have htext := (site_eq_certified_iff hparse hholds hholds hholds hname
          (StringT.cstr_fromBuffer _) hb hserves.2).mp heq
        revert htext
        decide
    · cases hserves
  · cases hserves

end Wsic.Config
