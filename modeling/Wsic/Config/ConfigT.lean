import Wsic.Config.Toml
import Wsic.DataStructures.RingOps
import Wsic.Path.Path

/-!
# The configuration

Model of `src/config/config.c`: the server-wide settings, the tables of the servers with the scan
for servers that share a domain, and the lookups. The result of `toml_parse` is given. What the
operating system and the TLS library answer may be different for every table.
-/

open CMemory

namespace Wsic.Config

open Toml

/-! ### The data -/

/-- An element of a directory index: a string, or a number in the place of a pointer. -/
inductive IndexT where
  | string (text : StringT)
  | number (value : Int64)

/-- `server_config_t`, `config.h:20–31`; of the TLS context and of the Diffie Hellman parameters
only whether they are set. `enabled` is -1 if not set. -/
structure ServerConfigT where
  name : StringT
  domain : Option StringT
  rootDirectory : Option StringT
  port : Int16
  enabled : Int8
  dhparams : Bool
  sslContext : Bool
  directoryIndex : Option (ListT IndexT)

/-- `config_t`, `config.h:33–41`. -/
structure ConfigT where
  daemon : Int8
  serverConfigs : ListT ServerConfigT
  logfile : Option StringT
  loggingLevel : UInt8
  threads : UInt64
  backlog : UInt64

/-- What is asked about files and TLS while one table is parsed: `realpath`, whether
`SSL_CTX_new` gives a context, whether it takes a private key and a certificate, and what
`PEM_read_DHparams` finds in a file that can be opened. -/
structure Environment where
  realpath : List UInt8 → Option CanonicalPath
  newContext : Bool
  usePrivateKey : List UInt8 → Bool
  useCertificate : List UInt8 → Bool
  readDHparams : List UInt8 → Option Bool

/-- `SOMAXCONN` of `sys/socket.h`, a positive `int`. -/
abbrev Somaxconn := { n : ℕ // 0 < n ∧ n < 2 ^ 31 }

/-! ### Values -/

section Values

variable (table : TableT) (key : String)

/-- `config_parseString`, `config.c:264`. -/
def parseString : Option StringT :=
  match table.rawIn (ascii key) with
  | none => none
  | some rawValue => rawValue.rtos.map StringT.fromBuffer

/-- `config_parseInt`, `config.c:283`. -/
def parseInt : Int64 :=
  match table.rawIn (ascii key) with
  | none => 0
  | some rawValue => rawValue.rtoi.getD 0

/-- `config_parseBool`, `config.c:298`. -/
def parseBool : Int8 :=
  match table.rawIn (ascii key) with
  | none => -1
  | some rawValue =>
    match rawValue.rtob with
    | none => -1
    | some value => if value then 1 else 0

/-- The loop of `config_parseArray`, `config.c:327–357`, at index `i`. A text that `toml_rtos`
refuses is a null pointer for `string_fromBuffer`. -/
def parseArrayLoop (array : ArrayT) :
    ℕ → ℕ → ListT IndexT → Checked (Option (ListT IndexT))
  | 0, _, list => .ok (some list)
  | rounds + 1, i, list =>
    match array.rawAt i with
    | none => .ok none
    | some rawValue =>
      match array.type with
      | some .int => do
        let list ← list.addValue (.number (rawValue.rtoi.getD 0))
        parseArrayLoop array rounds (i + 1) list
      | some .string => do
        let value ← deref rawValue.rtos
        let list ← list.addValue (.string (StringT.fromBuffer value))
        parseArrayLoop array rounds (i + 1) list
      | some .bool => do
        let list ← list.addValue (.number (if rawValue.rtob.getD false then 1 else 0))
        parseArrayLoop array rounds (i + 1) list
      | some .other | none => parseArrayLoop array rounds (i + 1) list

/-- `config_parseArray`, `config.c:313`. -/
def parseArray : Checked (Option (ListT IndexT)) :=
  match table.arrayIn (ascii key) with
  | none => .ok none
  | some array => parseArrayLoop array array.nelem 0 ListT.create

end Values

/-! ### Servers -/

/-- The loop over the index in `config_freeServerConfig`, `config.c:501–502`. It ends at a null
pointer, and `string_free` follows every other pointer. -/
def freeIndexLoop : ℕ → ListT IndexT → Checked Unit
  | 0, _ => .ok ()
  | rounds + 1, list => do
    let (index, list) ← list.removeValue 0
    match index with
    | none => return
    | some (.string _) => freeIndexLoop rounds list
    | some (.number value) => if value = 0 then return else .error .danglingPointer

/-- `config_freeServerConfig`, `config.c:488`. -/
def freeServerConfig (serverConfig : ServerConfigT) : Checked Unit :=
  match serverConfig.directoryIndex with
  | none => .ok ()
  | some list => freeIndexLoop list.length list

section Server

variable (environment : Environment) (table : TableT)

/-- The root directory of a server, `config.c:144–157`; nothing when the table is refused. -/
def parseRootDirectory : Option (Option StringT) :=
  match parseString table "rootDirectory" with
  | none => some none
  | some relativePath =>
    match environment.realpath (cString relativePath.bytes) with
    | none => none
    | some absolutePathBuffer => some (some (StringT.fromBuffer absolutePathBuffer.1))

/-- The port of a server, `config.c:160–168`; nothing when the table is refused. -/
def parsePort : Option Int16 :=
  match table.rawIn (ascii "port") with
  | none => some 0
  | some _ =>
    let port := parseInt table "port"
    if port.toInt < 0 ∨ port.toInt > 65536 then none else some port.toInt16

/-- The TLS context and the Diffie Hellman parameters, `config.c:172–260`; nothing when the table
is refused. -/
def parseTLS : Option (Bool × Bool) :=
  match parseString table "privateKey", parseString table "certificate" with
  | none, none => some (false, false)
  | none, some _ => none
  | some _, none => none
  | some privateKey, some certificate =>
    if !environment.newContext then none
    else if !environment.usePrivateKey (cString privateKey.bytes) then none
    else if !environment.useCertificate (cString certificate.bytes) then none
    else
      match parseString table "dhparams" with
      | none => some (true, false)
      | some dhparams =>
        match environment.readDHparams (cString dhparams.bytes) with
        | none => none
        | some found => some (true, found)

/-- `config_parseServerTable`, `config.c:134`. -/
def parseServerTable : Checked (Option ServerConfigT) :=
  match parseRootDirectory environment table with
  | none => .ok none
  | some rootDirectory =>
    match parsePort table with
    | none => .ok none
    | some port => do
      let directoryIndex ← parseArray table "directoryIndex"
      let config : ServerConfigT :=
        { name := StringT.fromBuffer table.key
          domain := parseString table "domain"
          rootDirectory := rootDirectory
          port := port
          enabled := parseBool table "enabled"
          dhparams := false
          sslContext := false
          directoryIndex := directoryIndex }
      match parseTLS environment table with
      | none => do
        freeServerConfig config
        return none
      | some (sslContext, dhparams) =>
        return some { config with sslContext := sslContext, dhparams := dhparams }

end Server

/-! ### The configuration -/

/-- A configuration before anything is parsed, `config.c:36–43`. -/
def ConfigT.create : ConfigT := ⟨0, ListT.create, none, 0, 0, 0⟩

/-- The server-wide settings, `config.c:47–83`. -/
def parseSettings (somaxconn : Somaxconn) (serverTable : TableT) (config : ConfigT) : ConfigT :=
  let rawThreads := parseInt serverTable "threads"
  let rawBacklog := parseInt serverTable "backlog"
  { config with
    daemon := parseBool serverTable "daemon"
    logfile := parseString serverTable "logfile"
    loggingLevel :=
      if (serverTable.rawIn (ascii "loggingLevel")).isSome then
        (parseInt serverTable "loggingLevel").toUInt64.toUInt8
      else 5
    threads :=
      if (serverTable.rawIn (ascii "threads")).isSome then
        if rawThreads.toInt ≤ 1 then 32 else rawThreads.toUInt64
      else 32
    backlog :=
      if (serverTable.rawIn (ascii "backlog")).isSome then
        if rawBacklog.toInt ≤ 1 then UInt64.ofNat somaxconn
        else if rawBacklog.toInt > somaxconn then UInt64.ofNat somaxconn
        else rawBacklog.toUInt64
      else UInt64.ofNat somaxconn }

/-- The scan for a server with the same domain, `config.c:103–117`, for the table at index `i`,
at position `j` of the list. -/
def duplicateLoop (serverConfig : ServerConfigT) (i : ℕ) :
    ℕ → ℕ → ListT ServerConfigT → Checked (Bool × ListT ServerConfigT)
  | 0, _, serverConfigs => .ok (false, serverConfigs)
  | rounds + 1, j, serverConfigs =>
    if j = i then duplicateLoop serverConfig i rounds (j + 1) serverConfigs
    else do
      let (otherConfig, serverConfigs) ← serverConfigs.getValue j
      match otherConfig with
      | none => duplicateLoop serverConfig i rounds (j + 1) serverConfigs
      | some otherConfig =>
        let isSameDomain ← (← deref serverConfig.domain).equals (← deref otherConfig.domain)
        let bothHaveSSL := serverConfig.sslContext && otherConfig.sslContext
        if isSameDomain && bothHaveSSL then return (true, serverConfigs)
        else duplicateLoop serverConfig i rounds (j + 1) serverConfigs

/-- The loop over the servers, `config.c:91–126`, at index `i`. The environment is the one at the
time when the table with the key is parsed. -/
def serversLoop (environment : List UInt8 → Environment) (serversTable : TableT) :
    ℕ → ℕ → ListT ServerConfigT → Checked (ListT ServerConfigT)
  | 0, _, serverConfigs => .ok serverConfigs
  | rounds + 1, i, serverConfigs => do
    let tableKey ← deref (serversTable.keyIn i)
    match serversTable.tableIn tableKey with
    | none => serversLoop environment serversTable rounds (i + 1) serverConfigs
    | some serverTable =>
      match ← parseServerTable (environment tableKey) serverTable with
      | none => serversLoop environment serversTable rounds (i + 1) serverConfigs
      | some serverConfig =>
        let (duplicate, serverConfigs) ←
          duplicateLoop serverConfig i serversTable.ntab 0 serverConfigs
        if duplicate then do
          freeServerConfig serverConfig
          serversLoop environment serversTable rounds (i + 1) serverConfigs
        else do
          let serverConfigs ← serverConfigs.addValue serverConfig
          serversLoop environment serversTable rounds (i + 1) serverConfigs

/-- `config_parse`, `config.c:24`, on what `toml_parse` gives. -/
def parse (somaxconn : Somaxconn) (environment : List UInt8 → Environment) (toml : Option TableT) :
    Checked (Option ConfigT) :=
  match toml with
  | none => .ok none
  | some toml =>
    let config :=
      match toml.tableIn (ascii "server") with
      | none => ConfigT.create
      | some serverTable => parseSettings somaxconn serverTable ConfigT.create
    match toml.tableIn (ascii "servers") with
    | none => .ok (some config)
    | some serversTable => do
      let serverConfigs ←
        serversLoop environment serversTable serversTable.ntab 0 config.serverConfigs
      return some { config with serverConfigs := serverConfigs }

/-! ### Lookups -/

/-- The loop of the lookups, `config.c:384–390`, at index `i`. -/
def searchLoop (isMatch : ServerConfigT → Checked Bool) :
    ℕ → ℕ → ListT ServerConfigT → Checked (Option ServerConfigT × ListT ServerConfigT)
  | 0, _, serverConfigs => .ok (none, serverConfigs)
  | rounds + 1, i, serverConfigs => do
    let (serverConfig, serverConfigs) ← serverConfigs.getValue i
    let serverConfig ← deref serverConfig
    if ← isMatch serverConfig then return (some serverConfig, serverConfigs)
    else searchLoop isMatch rounds (i + 1) serverConfigs

namespace ServerConfigT

/-- The condition of `config_getServerConfigByDomain`, `config.c:414`. -/
def isDomain (domain : StringT) (port : UInt16) (serverConfig : ServerConfigT) : Checked Bool :=
  if port = serverConfig.port.toUInt16 then do domain.equals (← deref serverConfig.domain)
  else .ok false

/-- The conditions of `config_getServerConfigByHTTPSDomain`, `config.c:386–388`, and of
`config_getServerConfigByHTTPDomain`, `config.c:399–401`. -/
def isDomainWith (hasSSL : Bool) (domain : StringT) (serverConfig : ServerConfigT) :
    Checked Bool := do
  let isSameDomain ← (← deref serverConfig.domain).equals domain
  return isSameDomain && (serverConfig.sslContext == hasSSL)

end ServerConfigT

namespace ConfigT

variable (config : ConfigT)

/-- A lookup, with the cursor of the list behind it. -/
def search (isMatch : ServerConfigT → Checked Bool) :
    Checked (Option ServerConfigT × ListT ServerConfigT) :=
  searchLoop isMatch config.serverConfigs.length 0 config.serverConfigs

/-- `config_getServerConfigByHTTPSDomain`, `config.c:382`. -/
def getServerConfigByHTTPSDomain (domain : StringT) :=
  config.search (ServerConfigT.isDomainWith true domain)

/-- `config_getServerConfigByHTTPDomain`, `config.c:395`. -/
def getServerConfigByHTTPDomain (domain : StringT) :=
  config.search (ServerConfigT.isDomainWith false domain)

/-- `config_getServerConfigByDomain`, `config.c:408`. -/
def getServerConfigByDomain (domain : StringT) (port : UInt16) :=
  config.search (ServerConfigT.isDomain domain port)

end ConfigT

end Wsic.Config
