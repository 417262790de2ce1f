import Wsic.DataStructures.RingOps
import Wsic.Http.HttpT
import Wsic.Path.Path

/-!
# Resolution of requests to files

Model of the end of `worker_handleConnection`, `src/worker/worker.c:254–361`: the path of a
request is resolved below the root directory, a directory is replaced by its first index file,
and the result is executed, served or refused.
-/

open CMemory

namespace Wsic

/-- The part of `server_config_t`, `config.h`, that the resolution reads. -/
structure ServerConfigT where
  rootDirectory : StringT
  directoryIndex : Option (ListT StringT)

/-- What a request is answered with. -/
inductive Reply where
  | notFound
  | badRequest
  | file (path : StringT)
  | cgi (path : StringT)

namespace Worker

variable [FreshBytes] (fs : FileSystem)

/-- `resources_isFile`, `resources.c:100`. -/
def isFile (filePath : StringT) : Checked Bool := return fs.isRegular (← filePath.cstr)

/-- `resources_isExecutable`, `resources.c:92`. -/
def isExecutable (filePath : StringT) : Checked Bool := return fs.isExecutable (← filePath.cstr)

/-- The loop over the directory index, `worker.c:272–287`, at index `i`. -/
def indexLoop (resolvedPath : StringT) :
    Nat → Nat → ListT StringT → Checked (Option StringT × ListT StringT)
  | 0, _, directoryIndex => .ok (none, directoryIndex)
  | rounds + 1, i, directoryIndex => do
    let (filePath, directoryIndex) ← directoryIndex.getValue i
    let filePath ← deref filePath
    match ← Path.resolve fs filePath resolvedPath with
    | some indexPath => return (some indexPath, directoryIndex)
    | none => indexLoop resolvedPath rounds (i + 1) directoryIndex

/-- The index of a directory, `worker.c:269–289`: the path that is handled in its place. -/
def resolveIndex (config : ServerConfigT) (resolvedPath : StringT) :
    Checked (Option StringT × ServerConfigT) :=
  match config.directoryIndex with
  | none => .ok (none, config)
  | some directoryIndex => do
    let (indexPath, directoryIndex) ←
      indexLoop fs resolvedPath directoryIndex.length 0 directoryIndex
    return (indexPath, { config with directoryIndex := some directoryIndex })

/-- `worker.c:292–361`: any method for CGI, `GET` and `HEAD` for files. -/
def route (method : HttpMethod) (path : StringT) (isFile isExecutable : Bool) : Reply :=
  if isFile && isExecutable then .cgi path
  else if method = .get ∨ method = .head then
    if isFile then .file path else .notFound
  else .badRequest

/-- `worker.c:254–361`; the reply and the configuration with the cursor of its index. -/
def handleRequest (config : ServerConfigT) (method : HttpMethod) (path : StringT) :
    Checked (Reply × ServerConfigT) := do
  match ← Path.resolve fs path config.rootDirectory with
  | none => return (.notFound, config)
  | some resolvedPath =>
    let isRegular ← isFile fs resolvedPath
    let mayExecute ← isExecutable fs resolvedPath
    if isRegular then return (route method resolvedPath isRegular mayExecute, config)
    else
      let (indexPath, config) ← resolveIndex fs config resolvedPath
      match indexPath with
      | none => return (route method resolvedPath isRegular mayExecute, config)
      | some indexPath =>
        let isRegular ← isFile fs indexPath
        let mayExecute ← isExecutable fs indexPath
        return (route method indexPath isRegular mayExecute, config)

end Worker

/-! ### What is handed on -/

/-- The path that is served or executed. -/
def Reply.path : Reply → Option StringT
  | .notFound => none
  | .badRequest => none
  | .file path => some path
  | .cgi path => some path

/-- A server of the configuration: the root directory is a result of `realpath`, and the index
is a list of names. -/
structure Server extends ServerConfigT where
  root : CanonicalPath
  names : List StringT
  rootDirectory_eq : rootDirectory = StringT.fromBuffer root.1
  directoryIndex_holds : match directoryIndex with
    | none => names = []
    | some list => list.Holds names

/-- The path is the root or lies below it; everything lies below `/`. -/
def Contained (root path : List UInt8) : Prop := path = root ∨ root = [47] ∨ root ++ [47] <+: path

instance (root path : List UInt8) : Decidable (Contained root path) :=
  inferInstanceAs (Decidable (_ ∨ _ ∨ _))

/-- The path continues the root with a byte other than `/`. -/
def Beside (root path : List UInt8) : Prop :=
  root ≠ [47] ∧ ∃ byte rest, byte ≠ 47 ∧ path = root ++ byte :: rest

/-- Whatever a request for this path is answered with lies below the root. -/
def Server.ServesBelow [FreshBytes] (server : Server) (fs : FileSystem) (path : StringT) : Prop :=
  ∀ method reply config served,
    Worker.handleRequest fs server.toServerConfigT method path = .ok (reply, config) →
      reply.path = some served → Contained server.root.1 served.content

/-- The canonical path of the first name that is found at or, as bytes, behind the directory. -/
def firstIndex (fs : FileSystem) (directory : List UInt8) :
    List StringT → Checked (Option CanonicalPath)
  | [] => .ok none
  | name :: names => do
    match Path.target fs (← name.cstr) directory with
    | some path => return some path
    | none => firstIndex fs directory names

/-- The request names a regular file beside the root, or something else at the root or beside
it whose first index name is a regular file beside the root. -/
def Server.NamesBeside (server : Server) (fs : FileSystem) (path : StringT) : Prop :=
  ∃ p resolved, path.cstr = .ok p ∧ Path.target fs p server.root.1 = some resolved ∧
    if fs.isRegular resolved.1 then Beside server.root.1 resolved.1
    else ∃ index, firstIndex fs resolved.1 server.names = .ok (some index) ∧
      fs.isRegular index.1 ∧ Beside server.root.1 index.1

/-- What a path finds: its canonical path or, for what is not a regular file, that of the first
index name. -/
def Server.found (server : Server) (fs : FileSystem) (path : StringT) :
    Checked (Option CanonicalPath) := do
  match Path.target fs (← path.cstr) server.root.1 with
  | none => return none
  | some resolved =>
    if fs.isRegular resolved.1 then return some resolved
    else return some ((← firstIndex fs resolved.1 server.names).getD resolved)

private theorem beside_cons_iff (root rest : List UInt8) (byte : UInt8) :
    Beside root (root ++ byte :: rest) ↔ root ≠ [47] ∧ byte ≠ 47 := by
  constructor
  · rintro ⟨hroot, other, rest', hother, hpath⟩
    obtain ⟨rfl, -⟩ := List.cons.inj (List.append_cancel_left hpath)
    exact ⟨hroot, hother⟩
  · rintro ⟨hroot, hbyte⟩
    exact ⟨hroot, byte, rest, hbyte, rfl⟩

private theorem contained_cons_iff (root rest : List UInt8) (byte : UInt8) :
    Contained root (root ++ byte :: rest) ↔ root = [47] ∨ byte = 47 := by
  have hne : root ++ byte :: rest ≠ root := by simp
  rw [Contained, or_iff_right hne, List.prefix_append_right_inj, List.cons_prefix_cons]
  simp only [List.nil_prefix, and_true, eq_comm]

/-- What passes the check of the code lies below the root unless it lies beside it. -/
theorem contained_iff_not_beside {root path : List UInt8} (h : root <+: path) :
    Contained root path ↔ ¬ Beside root path := by
  obtain ⟨rest, rfl⟩ := h
  cases rest with
  | nil =>
    apply iff_of_true (.inl (List.append_nil root))
    rintro ⟨-, byte, rest, -, hpath⟩
    exact List.cons_ne_nil _ _ (List.append_cancel_left hpath).symm
  | cons byte rest =>
    rw [contained_cons_iff, beside_cons_iff, not_and_or, not_not, not_not]

theorem Path.target_starts {fs : FileSystem} {p root : List UInt8} {path : CanonicalPath}
    (h : Path.target fs p root = some path) : root <+: path.1 := by
  rw [Path.target, Option.filter_eq_some_iff] at h
  exact List.isPrefixOf_iff_prefix.mp h.2

theorem firstIndex_starts {fs : FileSystem} {directory : List UInt8} {names : List StringT}
    {index : CanonicalPath} (h : firstIndex fs directory names = .ok (some index)) :
    directory <+: index.1 := by
  induction names with
  | nil => cases h
  | cons name names ih =>
    rw [firstIndex] at h
    cases hname : name.cstr with
    | error e =>
      rw [hname] at h
      cases h
    | ok n =>
      rw [hname, checked_ok_bind] at h
      cases ht : Path.target fs n directory with
      | none =>
        rw [ht] at h
        exact ih h
      | some path =>
        rw [ht] at h
        cases h
        exact Path.target_starts ht

namespace Worker

section Specifications

variable {fs : FileSystem}

theorem isFile_canonical (path : CanonicalPath) :
    isFile fs (StringT.fromBuffer path.1) = .ok (fs.isRegular path.1) := by
  rw [isFile, Path.cstr_canonical]
  rfl

theorem isExecutable_canonical (path : CanonicalPath) :
    isExecutable fs (StringT.fromBuffer path.1) = .ok (fs.isExecutable path.1) := by
  rw [isExecutable, Path.cstr_canonical]
  rfl

variable [FreshBytes]

/-- The routing of an existing path. -/
def routeCanonical (fs : FileSystem) (method : HttpMethod) (path : CanonicalPath) : Reply :=
  route method (StringT.fromBuffer path.1) (fs.isRegular path.1) (fs.isExecutable path.1)

/-- The loop visits the names in order, whatever the cursor of the list. -/
theorem indexLoop_eq (directory : CanonicalPath) {list : ListT StringT} {names : List StringT}
    (h : list.Holds names) (rounds i : Nat) (hi : i + rounds = names.length)
    (hc : i = 0 ∨ i = list.currentIndex + 1) :
    (indexLoop fs (StringT.fromBuffer directory.1) rounds i list).map Prod.fst =
      (firstIndex fs directory.1 (names.drop i)).map
        (Option.map (fun path ↦ StringT.fromBuffer path.1)) := by
  induction rounds generalizing list i with
  | zero =>
    rw [List.drop_of_length_le (by omega)]
    rfl
  | succ rounds ih =>
    have hlt : i < names.length := by omega
    obtain ⟨list', hget, hholds, hcursor⟩ := h.getValue_inOrder hlt hc
    have hrest := ih hholds (i + 1) (by omega) hcursor
    rw [List.drop_eq_getElem_cons hlt, firstIndex, indexLoop, hget, checked_ok_bind]
    dsimp only
    rw [deref_some, checked_ok_bind, Path.resolve_eq]
    cases hname : names[i].cstr with
    | error e => rfl
    | ok name =>
      rw [checked_ok_bind, checked_ok_map, checked_ok_bind]
      cases Path.target fs name directory.1 with
      | none => exact hrest
      | some path => rfl

theorem resolveIndex_eq (server : Server) (directory : CanonicalPath) :
    (resolveIndex fs server.toServerConfigT (StringT.fromBuffer directory.1)).map Prod.fst =
      (firstIndex fs directory.1 server.names).map
        (Option.map (fun path ↦ StringT.fromBuffer path.1)) := by
  have hholds := server.directoryIndex_holds
  unfold resolveIndex
  cases hindex : server.directoryIndex with
  | none =>
    rw [hindex] at hholds
    rw [hholds]
    rfl
  | some list =>
    rw [hindex] at hholds
    have hloop := @indexLoop_eq fs _ directory list server.names hholds list.length 0
      (by rw [ListT.Holds.length_eq hholds, Nat.zero_add]) (.inl rfl)
    rw [List.drop_zero] at hloop
    rw [← hloop]
    dsimp only
    cases indexLoop fs (StringT.fromBuffer directory.1) list.length 0 list <;> rfl

/-- The reply to a request is the routing of what its path finds. -/
theorem handleRequest_eq (server : Server) (method : HttpMethod) (path : StringT) :
    (handleRequest fs server.toServerConfigT method path).map Prod.fst =
      (server.found fs path).map (fun found ↦ found.elim .notFound (routeCanonical fs method)) := by
  rw [handleRequest, Server.found, server.rootDirectory_eq, Path.resolve_eq]
  cases path.cstr with
  | error e => rfl
  | ok p =>
    rw [checked_ok_map, checked_ok_bind, checked_ok_bind]
    cases Path.target fs p server.root.1 with
    | none => rfl
    | some resolved =>
      dsimp only [Option.map_some]
      rw [isFile_canonical, isExecutable_canonical, checked_ok_bind, checked_ok_bind]
      cases hregular : fs.isRegular resolved.1 with
      | true =>
        rw [if_pos rfl, if_pos rfl]
        simp only [pure, Except.pure, checked_ok_map, Option.elim_some, routeCanonical, hregular]
      | false =>
        rw [if_neg Bool.false_ne_true, if_neg Bool.false_ne_true]
        have hindex := @resolveIndex_eq fs _ server resolved
        cases hfirst : firstIndex fs resolved.1 server.names with
        | error e =>
          rw [hfirst] at hindex
          obtain ⟨e', hresolve, he⟩ | ⟨_, _, _, he⟩ := checked_fst_cases hindex
          · cases he
            rw [hresolve]
            rfl
          · cases he
        | ok index =>
          rw [hfirst] at hindex
          obtain ⟨_, _, he⟩ | ⟨indexPath, config, hresolve, he⟩ := checked_fst_cases hindex
          · cases he
          · cases he
            rw [hresolve, checked_ok_bind]
            cases index with
            | none =>
              simp only [Option.map_none, checked_ok_bind, pure, Except.pure, checked_ok_map,
                Option.elim_some, Option.getD_none, routeCanonical, hregular]
            | some index =>
              dsimp only [Option.map_some]
              rw [isFile_canonical, isExecutable_canonical, checked_ok_bind, checked_ok_bind]
              rfl

end Specifications

end Worker

/-! ### Containment -/

private theorem Server.found_cases {server : Server} {fs : FileSystem} {path : StringT}
    {found : CanonicalPath} (h : server.found fs path = .ok (some found)) :
    ∃ p resolved, path.cstr = .ok p ∧ Path.target fs p server.root.1 = some resolved ∧
      ((fs.isRegular resolved.1 = true ∧ found = resolved) ∨
        (fs.isRegular resolved.1 = false ∧ ∃ index,
          firstIndex fs resolved.1 server.names = .ok index ∧ found = index.getD resolved)) := by
  unfold Server.found at h
  cases hp : path.cstr with
  | error e =>
    rw [hp] at h
    cases h
  | ok p =>
    rw [hp, checked_ok_bind] at h
    cases htarget : Path.target fs p server.root.1 with
    | none =>
      rw [htarget] at h
      cases h
    | some resolved =>
      rw [htarget] at h
      refine ⟨p, resolved, rfl, htarget, ?_⟩
      cases hregular : fs.isRegular resolved.1 with
      | true =>
        simp only [hregular, if_true] at h
        cases h
        exact .inl ⟨rfl, rfl⟩
      | false =>
        simp only [hregular, Bool.false_eq_true, if_false] at h
        cases hfirst : firstIndex fs resolved.1 server.names with
        | error e =>
          rw [hfirst] at h
          cases h
        | ok index =>
          rw [hfirst] at h
          cases h
          exact .inr ⟨rfl, index, rfl, rfl⟩

private theorem Server.found_starts {server : Server} {fs : FileSystem} {path : StringT}
    {found : CanonicalPath} (h : server.found fs path = .ok (some found)) :
    server.root.1 <+: found.1 := by
  obtain ⟨p, resolved, -, htarget, ⟨-, rfl⟩ | ⟨-, index, hfirst, rfl⟩⟩ := Server.found_cases h
  · exact Path.target_starts htarget
  · cases index with
    | none => exact Path.target_starts htarget
    | some index => exact (Path.target_starts htarget).trans (firstIndex_starts hfirst)

private theorem Server.namesBeside_iff {server : Server} {fs : FileSystem} {path : StringT} :
    server.NamesBeside fs path ↔ ∃ found, server.found fs path = .ok (some found) ∧
      fs.isRegular found.1 ∧ Beside server.root.1 found.1 := by
  constructor
  · rintro ⟨p, resolved, hp, htarget, h⟩
    unfold Server.found
    rw [hp, checked_ok_bind, htarget]
    dsimp only
    split at h
    · next hregular =>
      rw [if_pos hregular]
      exact ⟨resolved, rfl, hregular, h⟩
    · next hregular =>
      obtain ⟨index, hfirst, h⟩ := h
      rw [if_neg hregular, hfirst]
      exact ⟨index, rfl, h⟩
  · rintro ⟨found, hfound, hregular, hbeside⟩
    obtain ⟨p, resolved, hp, htarget, ⟨hresolved, rfl⟩ | ⟨hresolved, index, hfirst, rfl⟩⟩ :=
      Server.found_cases hfound
    · exact ⟨p, found, hp, htarget, by rwa [if_pos hregular]⟩
    · refine ⟨p, resolved, hp, htarget, ?_⟩
      rw [hresolved, if_neg Bool.false_ne_true]
      cases index with
      | none =>
        rw [Option.getD_none, hresolved] at hregular
        exact absurd hregular Bool.false_ne_true
      | some index => exact ⟨index, hfirst, hregular, hbeside⟩

/-- Regular files are executed or, for `GET` and `HEAD`, served; nothing else is. -/
private theorem path_routeCanonical (fs : FileSystem) (method : HttpMethod)
    (path : CanonicalPath) : (Worker.routeCanonical fs method path).path =
      if fs.isRegular path.1 ∧ (fs.isExecutable path.1 ∨ method = .get ∨ method = .head) then
        some (StringT.fromBuffer path.1)
      else none := by
  unfold Worker.routeCanonical Worker.route
  cases fs.isRegular path.1 <;> cases fs.isExecutable path.1 <;>
    by_cases hmethod : method = .get ∨ method = .head <;> simp [hmethod, Reply.path]

/-- Requests are answered from below the root unless they name a file beside it. -/
theorem servesBelow_iff [FreshBytes] (fs : FileSystem) (server : Server) (path : StringT) :
    server.ServesBelow fs path ↔ ¬ server.NamesBeside fs path := by
  rw [Server.namesBeside_iff]
  constructor
  · rintro hserves ⟨found, hfound, hregular, hbeside⟩
    have hreply := @Worker.handleRequest_eq fs _ server .get path
    rw [hfound, checked_ok_map, Option.elim_some] at hreply
    obtain ⟨e, -, he⟩ | ⟨reply, config, hrequest, he⟩ := checked_fst_cases hreply
    · cases he
    · cases he
      have hcontained := hserves _ _ _ _ hrequest
        (by rw [path_routeCanonical, if_pos ⟨hregular, .inr (.inl rfl)⟩])
      rw [Path.fromBuffer_canonical, StringT.content_fromBufferWithLength] at hcontained
      exact (contained_iff_not_beside (Server.found_starts hfound)).mp hcontained hbeside
  · intro hnot method reply config served hrequest hserved
    have hreply := @Worker.handleRequest_eq fs _ server method path
    rw [hrequest, checked_ok_map] at hreply
    cases hfound : server.found fs path with
    | error e =>
      rw [hfound] at hreply
      cases hreply
    | ok found =>
      rw [hfound, checked_ok_map] at hreply
      obtain rfl := Except.ok.inj hreply
      cases found with
      | none => cases hserved
      | some found =>
        rw [Option.elim_some, path_routeCanonical] at hserved
        obtain ⟨⟨hregular, -⟩, hserved⟩ := Option.ite_none_right_eq_some.mp hserved
        cases hserved
        rw [Path.fromBuffer_canonical, StringT.content_fromBufferWithLength]
        apply (contained_iff_not_beside (Server.found_starts hfound)).mpr
        exact fun hbeside ↦ hnot ⟨found, hfound, hregular, hbeside⟩

/-- The server of a root directory, without an index. -/
def Server.ofRoot (root : CanonicalPath) : Server where
  rootDirectory := StringT.fromBuffer root.1
  directoryIndex := none
  root := root
  names := []
  rootDirectory_eq := rfl
  directoryIndex_holds := rfl

/-- A file system with the root `/srv/www` and the file `/srv/www-secret/key` beside it. -/
def FileSystem.secret : FileSystem where
  realpath path :=
    if path = ascii "/srv/www//../www-secret/key" then
      some ⟨ascii "/srv/www-secret/key", by decide⟩
    else if path = ascii "/srv/www" ∨ path = ascii "/srv/www//" then
      some ⟨ascii "/srv/www", by decide⟩
    else none
  isRegular path := path = ascii "/srv/www-secret/key"
  isExecutable path := path = ascii "/srv/www"

/-- The server of that root, without an index. -/
def Server.www : Server where
  rootDirectory := StringT.fromBuffer (ascii "/srv/www")
  directoryIndex := none
  root := ⟨ascii "/srv/www", by decide⟩
  names := []
  rootDirectory_eq := rfl
  directoryIndex_holds := rfl

/-- A request for `/../www-secret/key` is answered with the file beside the root. -/
theorem www_not_servesBelow : ¬ @Server.ServesBelow FreshBytes.zero Server.www FileSystem.secret
    (StringT.fromBuffer (ascii "/../www-secret/key")) := by
  intro h
  have hcode : (@Worker.handleRequest FreshBytes.zero FileSystem.secret Server.www.toServerConfigT
      .get (StringT.fromBuffer (ascii "/../www-secret/key"))).map (fun r ↦ r.1.path) =
        .ok (some (StringT.fromBuffer (ascii "/srv/www-secret/key"))) := by
    decide +kernel
  cases hrequest : @Worker.handleRequest FreshBytes.zero FileSystem.secret
      Server.www.toServerConfigT .get (StringT.fromBuffer (ascii "/../www-secret/key")) with
  | error e =>
    rw [hrequest] at hcode
    cases hcode
  | ok r =>
    rw [hrequest] at hcode
    have hcontained := h _ r.1 r.2 _ hrequest (Except.ok.inj hcode)
    revert hcontained
    decide

end Wsic
