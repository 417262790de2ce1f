import Wsic.Config.Lookup
import Wsic.Http.Host

/-!
# Ports of a request and of a server

The port of a server is an `int64_t` that is stored as an `int16_t` and looked up as a `uint16_t`,
the port of the `Host` header an `int` that is stored as a `uint16_t`. Both are checked to be at
most 65536, so both are compared modulo 2^16.
-/

open CMemory

namespace Wsic.Config

open Toml

/-! ### The port of a request -/

/-- A numeral that is not read as a negative number keeps its value modulo 2^16. -/
theorem atoi_mod {digits : List UInt8} {n : ℕ} (h : StringT.Denotes digits n)
    (hlow : ¬ atoi digits < 0) : atoi digits % 2 ^ 16 = n % 2 ^ 16 := by
  have hmod : (min (2 ^ 63 - 1) (n : ℤ)).bmod (2 ^ 32) % (2 ^ 32 : ℕ) =
    min (2 ^ 63 - 1) (n : ℤ) % (2 ^ 32 : ℕ) := Int.bmod_emod
  rw [StringT.atoi_eq_bmod h] at hlow ⊢
  by_cases hfits : (n : ℤ) < 2 ^ 63 - 1
  · rw [min_eq_right (by omega)] at hmod ⊢
    omega
  · -- A number that does not fit is read as -1.
    rw [min_eq_left (by omega)] at hlow
    exact absurd (by decide) hlow

section Request

variable {http stored request : HttpT} {name digits : List UInt8} {n : ℕ}

/-- The URL of a request whose host is accepted. -/
theorem url_of_parseHost
    (hget : http.getHeader (StringT.fromBuffer (ascii "Host")) =
      .ok (some (StringT.fromBufferWithLength (name ++ 58 :: digits)), stored))
    (hcolon : 58 ∉ name) (hz : 0 ∉ name) (hdigits : StringT.Denotes digits n)
    (h : http.parseHost = .ok (true, request)) :
    ∃ url, request.url = some url ∧ url.domainName = some (StringT.fromBufferWithLength name) ∧
      (url.port.toNat : ℤ) = n % 2 ^ 16 := by
  have hnul : 0 ∉ digits := fun hmem ↦ absurd (hdigits.2.1 0 hmem).1 (by decide)
  rw [HttpT.parseHost_of_append hget hcolon hz hdigits.1, cString_eq_self hnul] at h
  split at h
  · cases h
  · next hrange =>
    cases h
    refine ⟨_, rfl, rfl, ?_⟩
    have hmod := atoi_mod hdigits (fun hlow ↦ hrange (.inl hlow))
    change ((UInt16.ofNat (atoi digits).toNat).toNat : ℤ) = n % 2 ^ 16
    rw [UInt16.toNat_ofNat']
    omega

end Request

/-! ### Which servers are reached -/

/-- The lookup for the request finds the server. -/
def Reaches (request : HttpT) (config : ConfigT) (server : ServerConfigT) : Prop :=
  ∃ url domainName list, request.url = some url ∧ url.domainName = some domainName ∧
    config.getServerConfigByDomain domainName url.port = .ok (some server, list)

section Reaches

variable {http stored request : HttpT} {name digits : List UInt8} {n : ℕ}
  (hget : http.getHeader (StringT.fromBuffer (ascii "Host")) =
    .ok (some (StringT.fromBufferWithLength (name ++ 58 :: digits)), stored))
  (hdigits : StringT.Denotes digits n) (hhost : http.parseHost = .ok (true, request))
  {environment : Environment} {table : TableT} {server : ServerConfigT}
  (htable : parseServerTable environment table = .ok (some server))
  {port : Int64} (hport : table.rawIn (ascii "port") = some (.integer port))
  (hdomain : server.HasDomain name) {config : ConfigT} {servers : List ServerConfigT}
  (hservers : config.serverConfigs.Holds servers) (hserver : server ∈ servers)
  (hdomains : ∀ other ∈ servers, FreshString other.domain ∧ other.domain ≠ none)
  (halone : ∀ other ∈ servers, other.HasDomain name → other.port = server.port → other = server)

include hget hhost hdomain hservers hserver hdomains

/-- A server whose domain has a colon is never reached: the name of the host ends before it. -/
theorem not_reaches_of_colon (hcolon : 58 ∈ name) :
    ¬ Reaches request config server := by
  have hz := hdomain.zero_notMem (hdomains server hserver).1
  obtain ⟨first, rest, rfl, hfirst⟩ := List.eq_append_cons_of_mem hcolon
  have hz' : 0 ∉ first := fun hmem ↦ hz (List.mem_append_left _ hmem)
  rw [List.append_assoc, List.cons_append] at hget
  have hparse := HttpT.parseHost_of_append hget hfirst hz' (List.append_ne_nil_of_right_ne_nil _
    (List.cons_ne_nil _ _))
  rw [hhost] at hparse
  split at hparse
  · cases hparse
  · cases hparse
    rintro ⟨url, domainName, list, hurl, hname, hcall⟩
    cases hurl
    cases hname
    have hcstr : (StringT.fromBufferWithLength first).cstr = .ok first := by
      rw [StringT.cstr_fromBufferWithLength, cString_eq_self hz']
    have hfirst := (address_of_found hservers hdomains hcstr hcall).2
    have hsame := StringT.fromBufferWithLength_inj
      (Option.some_inj.mp (hfirst.symm.trans hdomain))
    simp at hsame

include hdigits htable hport halone

/-- A server with an address of its own is reached when the ports agree modulo 2^16. -/
theorem reaches_iff_mod (hcolon : 58 ∉ name) :
    Reaches request config server ↔ (n : ℤ) % 2 ^ 16 = port.toInt % 2 ^ 16 := by
  have haccepted := parseServerTable_eq_some htable
  have hz := hdomain.zero_notMem (hdomains server hserver).1
  obtain ⟨url, hurl, hname, hvalue⟩ := url_of_parseHost hget hcolon hz hdigits hhost
  have hcstr : (StringT.fromBufferWithLength name).cstr = .ok name := by
    rw [StringT.cstr_fromBufferWithLength, cString_eq_self hz]
  have hsame : url.port = server.port.toUInt16 ↔ (n : ℤ) % 2 ^ 16 = port.toInt % 2 ^ 16 := by
    rw [(parsePort_of_integer hport haccepted.port).1, ← UInt16.toNat_inj, ← Int.natCast_inj,
      hvalue, toNat_port]
  rw [← hsame]
  constructor
  · rintro ⟨url', domainName, list, hurl', hname', hcall'⟩
    cases hurl.symm.trans hurl'
    cases hname.symm.trans hname'
    exact (address_of_found hservers hdomains hcstr hcall').1
  · intro heq
    obtain ⟨list, hcall⟩ : ∃ list, config.getServerConfigByDomain
        (StringT.fromBufferWithLength name) url.port = .ok (some server, list) := by
      apply found_of_address hservers hdomains hcstr hserver heq hdomain
      intro other hother hsame hsameDomain
      apply halone other hother hsameDomain
      rw [← Int16.toInt16_toUInt16 other.port, ← hsame, heq, Int16.toInt16_toUInt16]
    exact ⟨url, _, list, hurl, hname, hcall⟩

/-- The server is reached exactly under its port, if and only if its domain has no colon and the
two ports do not differ by a multiple of 2^16, or it has one and they are different. -/
theorem reaches_iff_eq_iff : (Reaches request config server ↔ (n : ℤ) = port.toInt) ↔
    if 58 ∈ name then (n : ℤ) ≠ port.toInt
    else (n : ℤ) % 2 ^ 16 = port.toInt % 2 ^ 16 → (n : ℤ) = port.toInt := by
  split
  · next hcolon =>
    have hnot := not_reaches_of_colon hget hhost hdomain hservers hserver hdomains hcolon
    exact ⟨fun hiff heq ↦ hnot (hiff.mpr heq), fun hne ↦ iff_of_false hnot hne⟩
  · next hcolon =>
    have hmod := reaches_iff_mod hget hdigits hhost htable hport hdomain hservers hserver hdomains
      halone hcolon
    constructor
    · intro hiff hsame
      exact hiff.mp (hmod.mpr hsame)
    · intro hsame
      exact ⟨fun hreaches ↦ hsame (hmod.mp hreaches), fun heq ↦ hmod.mpr (by rw [heq])⟩

end Reaches

/-! ### One server and one request -/

/-- The server of `portTable "x" "a"`. -/
def serverOn (port : Int16) : ServerConfigT :=
  ⟨StringT.fromBuffer (ascii "x"), some (StringT.fromBuffer (ascii "a")),
    some (StringT.fromBuffer [47]), port, -1, false, false, none⟩

/-- A request for the host `a` and a port, whose header is stored and accepted. -/
theorem exists_hostRequest {digits : List UInt8} {n : ℕ} (hdigits : StringT.Denotes digits n)
    (hn : n ≤ 65536)
    (hline : HttpT.lastHashed
      (HttpT.acceptedHeaders [StringT.fromBuffer (ascii "Host: a:" ++ digits)])
      (HashTableT.hash (ascii "Host")) = some (ascii "Host", ascii "a" ++ 58 :: digits)) :
    ∃ http stored request,
      HttpT.getHeader http (StringT.fromBuffer (ascii "Host")) =
        .ok (some (StringT.fromBufferWithLength (ascii "a" ++ 58 :: digits)), stored) ∧
      http.parseHost = .ok (true, request) := by
  have hnul : 0 ∉ digits := fun hmem ↦ absurd (hdigits.2.1 0 hmem).1 (by decide)
  obtain ⟨-, http, stored, -, hget⟩ := @HttpT.getHost_of_lines HttpT.create rfl _ _ _ hline
  have hhost := HttpT.parseHost_of_append hget (by decide) (by decide) hdigits.1
  rw [cString_eq_self hnul, StringT.atoi_of_denotes hdigits (by omega), if_neg (by omega)] at hhost
  exact ⟨http, stored, _, hget, hhost⟩

/-- A configuration with one server. -/
theorem exists_config (server : ServerConfigT) : ∃ config : ConfigT,
    config.serverConfigs.Holds [server] := by
  obtain ⟨list, hlist⟩ := ListT.exists_holds [server]
  exact ⟨{ ConfigT.create with serverConfigs := list }, hlist⟩

theorem hasDomain_serverOn (port : Int16) :
    ∀ other ∈ [serverOn port], FreshString other.domain ∧ other.domain ≠ none := by
  intro other hother
  cases List.mem_singleton.mp hother
  refine ⟨?_, Option.some_ne_none _⟩
  intro domain hdomain
  exact ⟨ascii "a", (Option.some_inj.mp hdomain).symm⟩

theorem reaches_8443 : ∃ (http stored request : HttpT) (config : ConfigT),
    http.getHeader (StringT.fromBuffer (ascii "Host")) =
        .ok (some (StringT.fromBufferWithLength (ascii "a" ++ 58 :: ascii "8443")), stored) ∧
      http.parseHost = .ok (true, request) ∧
      parseServerTable openEnvironment (portTable "x" "a" 8443) = .ok (some (serverOn 8443)) ∧
      config.serverConfigs.Holds [serverOn 8443] ∧
      (Reaches request config (serverOn 8443) ↔ ((8443 : ℕ) : ℤ) = (8443 : Int64).toInt) := by
  have hdigits : StringT.Denotes (ascii "8443") 8443 :=
    ⟨by decide +kernel, by decide +kernel, by decide +kernel⟩
  obtain ⟨http, stored, request, hget, hhost⟩ :=
    exists_hostRequest hdigits (by decide) (by decide +kernel)
  obtain ⟨config, hconfig⟩ := exists_config (serverOn 8443)
  have htable : parseServerTable openEnvironment (portTable "x" "a" 8443) =
    .ok (some (serverOn 8443)) := rfl
  refine ⟨http, stored, request, config, hget, hhost, htable, hconfig, ?_⟩
  apply (reaches_iff_eq_iff hget hdigits hhost htable rfl rfl hconfig
    List.mem_cons_self (hasDomain_serverOn 8443)
    (fun other hother _ _ ↦ List.mem_singleton.mp hother)).mpr
  rw [if_neg (by decide)]
  exact fun _ ↦ rfl

/-- The port 65536 of a server is stored as 0, so it is reached under port 0. -/
theorem port_65536_reached_under_0 : ∃ (http stored request : HttpT) (config : ConfigT),
    http.getHeader (StringT.fromBuffer (ascii "Host")) =
        .ok (some (StringT.fromBufferWithLength (ascii "a" ++ 58 :: ascii "0")), stored) ∧
      http.parseHost = .ok (true, request) ∧
      parseServerTable openEnvironment (portTable "x" "a" 65536) = .ok (some (serverOn 0)) ∧
      config.serverConfigs.Holds [serverOn 0] ∧
      ¬ (Reaches request config (serverOn 0) ↔ ((0 : ℕ) : ℤ) = (65536 : Int64).toInt) := by
  have hdigits : StringT.Denotes (ascii "0") 0 :=
    ⟨by decide +kernel, by decide +kernel, by decide +kernel⟩
  obtain ⟨http, stored, request, hget, hhost⟩ :=
    exists_hostRequest hdigits (by decide) (by decide +kernel)
  obtain ⟨config, hconfig⟩ := exists_config (serverOn 0)
  have htable : parseServerTable openEnvironment (portTable "x" "a" 65536) =
    .ok (some (serverOn 0)) := rfl
  refine ⟨http, stored, request, config, hget, hhost, htable, hconfig, ?_⟩
  have hreaches : Reaches request config (serverOn 0) :=
    (reaches_iff_mod hget hdigits hhost htable rfl rfl hconfig List.mem_cons_self
      (hasDomain_serverOn 0) (fun other hother _ _ ↦ List.mem_singleton.mp hother)
        (by decide)).mpr (by decide)
  intro hiff
  exact absurd (hiff.mp hreaches) (by decide)

end Wsic.Config
