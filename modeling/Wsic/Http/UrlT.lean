import Wsic.DataStructures.HashTableT
import Wsic.String.Decimal

/-!
# URLs

Model of `src/url/url.c`. A `string_t *` is an optional string: `none` is the null pointer,
and following it is a fault. `url_setParameter` stores whatever value it is given, so the
table may hold null values.
-/

open CMemory

namespace Wsic

/-- `url_t`, `url.h:10–16`. -/
structure UrlT where
  protocol : Option StringT
  domainName : Option StringT
  port : UInt16
  path : Option StringT
  parameters : HashTableT (Option StringT)

namespace UrlT

/-- `url_create`, `url.c:9`. -/
def create : UrlT := ⟨none, none, 0, none, HashTableT.create⟩

/-- `url_setProtocol`, `url.c:118`. -/
def setProtocol (url : UrlT) (protocol : Option StringT) : UrlT := { url with protocol := protocol }

/-- `url_setDomainName`, `url.c:129`. -/
def setDomainName (url : UrlT) (domainName : Option StringT) : UrlT :=
  { url with domainName := domainName }

/-- `url_setPort`, `url.c:140`. -/
def setPort (url : UrlT) (port : UInt16) : UrlT := { url with port := port }

/-- `url_setPath`, `url.c:148`. -/
def setPath (url : UrlT) (path : Option StringT) : UrlT := { url with path := path }

/-- `url_setParameter`, `url.c:159`. -/
def setParameter (url : UrlT) (key : Option StringT) (value : Option StringT) : Checked UrlT := do
  let key ← deref key
  let (_, parameters) ← url.parameters.setValue key value
  return { url with parameters := parameters }

/-- The loop body of `url_copy`, `url.c:42–46`. -/
def copyParameter (newUrl : UrlT) (parameter : Option StringT × Option (Option StringT)) :
    Checked UrlT := do
  let key ← deref parameter.1
  let value ← deref parameter.2.join
  newUrl.setParameter (some key.copy) (some value.copy)

/-- `url_copy`, `url.c:25`; the copy and the old URL. -/
def copy (url : UrlT) : Checked (UrlT × UrlT) := do
  let newUrl : UrlT := { create with
    protocol := url.protocol.map StringT.copy
    domainName := url.domainName.map StringT.copy
    port := url.port
    path := url.path.map StringT.copy }
  let (visited, parameters) ← url.parameters.iterate
  let newUrl ← visited.foldlM copyParameter newUrl
  return (newUrl, { url with parameters := parameters })

/-- Give every value to `string_free`, which follows the pointer. -/
def freeValues : List (StringT × Option (Option StringT)) → Checked Unit
  | [] => .ok ()
  | entry :: rest => do
    let _ ← deref entry.2.join
    freeValues rest

/-- `url_free`, `url.c:169`. -/
def free (url : UrlT) : Checked Unit := do
  let (visited, _) ← url.parameters.drain
  freeValues visited

variable [FreshBytes]

/-- Append a string unless it is null. -/
def appendUnlessNull (result : StringT) : Option StringT → Checked StringT
  | none => .ok result
  | some s => result.append s

/-- The loop body of `url_toString`, `url.c:79–88`: one parameter, and a separator behind it
unless it is the last one. -/
def appendParameters : StringT → List (Option StringT × Option (Option StringT)) → Checked StringT
  | result, [] => .ok result
  | result, (key, value) :: rest => do
    let result ← result.append (← deref key)
    let result := result.appendChar 61
    let result ← result.append (← deref value.join)
    appendParameters (if rest = [] then result else result.appendChar 38) rest

/-- The port of `url_toString`, `url.c:64–70`. -/
def appendPort (result : StringT) (port : UInt16) : Checked StringT :=
  if port ≠ 0 ∧ port ≠ 80 then (result.appendChar 58).append (StringT.fromInt port.toNat)
  else .ok result

/-- `url_toString`, `url.c:51`; the text and the old URL. -/
def toString (url : UrlT) : Checked (StringT × UrlT) := do
  let result := StringT.create
  let result ← appendUnlessNull result url.protocol
  let result := if url.protocol.isNone then result else result.appendBuffer (ascii "://")
  let result ← appendUnlessNull result url.domainName
  let result ← appendPort result url.port
  let result ← appendUnlessNull result url.path
  let result := if url.parameters.getLength > 0 then result.appendChar 63 else result
  let (visited, parameters) ← url.parameters.iterate
  let result ← appendParameters result visited
  return (result, { url with parameters := parameters })

/-- `url_toQueryString`, `url.c:93`; the text and the old URL. The table is never null. -/
def toQueryString (url : UrlT) : Checked (StringT × UrlT) := do
  let (visited, parameters) ← url.parameters.iterate
  let result ← appendParameters StringT.create visited
  return (result, { url with parameters := parameters })

end UrlT
end Wsic
