import Wsic.Worker.Scripts

/-!
# The environment of a script

`worker_createEnvironment`, `src/worker/worker.c:367–432`, fills a hash table, and the child of
`cgi_spawn`, `src/cgi/cgi.c:91–106`, makes the strings of it that the script is run with. A script
looks its variables up in these strings by name. The result is what the names stand for in the
request, and nothing else.
-/

open CMemory Effects Effects.Outcome

namespace Wsic.Worker

/-! ### Strings of variables -/

/-- What `getenv` of the C library finds in the strings of an environment. -/
def getenv (environment : List (List UInt8)) (name : List UInt8) : Option (List UInt8) :=
  (environment.find? (fun entry ↦ (name ++ [61]).isPrefixOf entry)).map
    (·.drop (name.length + 1))

/-- The string of a variable. -/
def bindingText (binding : List UInt8 × List UInt8) : List UInt8 := binding.1 ++ 61 :: binding.2

/-- Names without `=` are found again. -/
theorem getenv_map_bindingText {bindings : List (List UInt8 × List UInt8)}
    (h : ∀ binding ∈ bindings, 61 ∉ binding.1) {name : List UInt8} (hname : 61 ∉ name) :
    getenv (bindings.map bindingText) name = bindings.lookup name := by
  induction bindings with
  | nil => rfl
  | cons head bindings ih =>
    obtain ⟨key, value⟩ := head
    have hkey : 61 ∉ key := h _ List.mem_cons_self
    have hrest := ih (fun binding hb ↦ h binding (List.mem_cons_of_mem _ hb))
    rw [List.map_cons, List.lookup_cons]
    by_cases he : name = key
    · subst he
      have hbefore : (name ++ [61]).isPrefixOf (bindingText (name, value)) = true := by
        rw [List.isPrefixOf_iff_prefix]
        exact ⟨value, by rw [bindingText, List.append_assoc, List.singleton_append]⟩
      rw [getenv, List.find?_cons_of_pos hbefore, Option.map_some, beq_self_eq_true]
      simp [bindingText]
    · have hbefore : ¬ (name ++ [61]).isPrefixOf (bindingText (key, value)) = true := by
        rw [List.isPrefixOf_iff_prefix]
        rintro ⟨rest, hrest⟩
        rw [bindingText, List.append_assoc, List.singleton_append] at hrest
        exact he (append_cons_unique hname hkey hrest).1
      rw [getenv, List.find?_cons_of_neg hbefore, beq_false_of_ne he]
      exact hrest

/-! ### Filling the table -/

/-- The entry of a variable. -/
def Assigned (entry : HashTableEntryT (Option StringT)) (binding : List UInt8 × List UInt8) :
    Prop :=
  entry.key = StringT.fromBufferWithLength binding.1 ∧
    ∃ value, entry.value = some value ∧ value.cstr = .ok binding.2

/-- A table with these variables, in this order. -/
def Binds (environment : HashTableT (Option StringT)) (bindings : List (List UInt8 × List UInt8)) :
    Prop :=
  ∃ m, environment.Represents m ∧ List.Forall₂ Assigned m.entries bindings

theorem binds_create : Binds HashTableT.create [] :=
  ⟨KeyedList.empty, HashTableT.represents_create, .nil⟩

/-- A new variable is added behind the others. -/
theorem Binds.setVariable {environment : HashTableT (Option StringT)}
    {bindings : List (List UInt8 × List UInt8)} (h : Binds environment bindings) {name : String}
    (hname : 0 ∉ ascii name)
    (hnew : ∀ binding ∈ bindings, HashTableT.hash binding.1 ≠ HashTableT.hash (ascii name))
    {value : StringT} {text : List UInt8} (hvalue : value.cstr = .ok text) :
    ∃ environment', setVariable environment name value = .ok environment' ∧
      Binds environment' (bindings ++ [(ascii name, text)]) := by
  obtain ⟨m, hrep, hentries⟩ := h
  obtain ⟨environment', hset, hrep'⟩ :=
    hrep.setValue (HashTableT.freshKey (ascii name)) (some value)
  have hkey : StringT.fromBuffer (ascii name) = (HashTableT.freshKey (ascii name)).1 := by
    rw [StringT.fromBuffer, cString_eq_self hname]
    rfl
  refine ⟨environment', ?_, _, hrep', ?_⟩
  · rw [Worker.setVariable, hkey, hset]
    rfl
  · rw [KeyedList.set_of_forall_ne]
    · exact List.rel_append hentries (.cons ⟨rfl, value, rfl, hvalue⟩ .nil)
    · intro entry hentry
      obtain ⟨i, hi, rfl⟩ := List.getElem_of_mem hentry
      have hi' : i < bindings.length := hentries.length_eq ▸ hi
      obtain ⟨hkey, -⟩ := hentries.get hi hi'
      have hhash := hrep.2 _ hentry
      rw [show m.entries[i].key = (HashTableT.freshKey (bindings.get ⟨i, hi'⟩).1).1 from hkey,
        HashTableT.Key.keyHash_eq, HashTableT.hash_freshKey] at hhash
      rw [← Except.ok.inj hhash]
      change _ ≠ (HashTableT.freshKey (ascii name)).hash
      rw [HashTableT.hash_freshKey]
      exact hnew _ (List.get_mem _ _)

/-- A value is the string of a text, or neither is there. -/
abbrev Reads : Option StringT → Option (List UInt8) → Prop :=
  Option.Rel (fun value text ↦ value.cstr = .ok text)

/-- The variables that have a text. -/
def bindingsOf (texts : List (String × Option (List UInt8))) : List (List UInt8 × List UInt8) :=
  texts.filterMap (fun t ↦ t.2.map (ascii t.1, ·))

theorem mem_bindingsOf {texts : List (String × Option (List UInt8))}
    {binding : List UInt8 × List UInt8} (h : binding ∈ bindingsOf texts) :
    ∃ t ∈ texts, binding.1 = ascii t.1 := by
  obtain ⟨t, ht, hb⟩ := List.mem_filterMap.mp h
  obtain ⟨text, -, rfl⟩ := Option.map_eq_some_iff.mp hb
  exact ⟨t, ht, rfl⟩

/-- Variables whose names have different hashes are set one after the other, unless they have no
value. -/
theorem Binds.setVariables {environment : HashTableT (Option StringT)}
    {bindings : List (List UInt8 × List UInt8)} (h : Binds environment bindings)
    {assignments : List (String × Option StringT)} {texts : List (String × Option (List UInt8))}
    (hreads : List.Forall₂ (fun a t ↦ a.1 = t.1 ∧ Reads a.2 t.2) assignments texts)
    (hnames : ∀ t ∈ texts, 0 ∉ ascii t.1)
    (hdistinct : (texts.map (fun t ↦ HashTableT.hash (ascii t.1))).Nodup)
    (hnew : ∀ binding ∈ bindings, ∀ t ∈ texts,
      HashTableT.hash binding.1 ≠ HashTableT.hash (ascii t.1)) :
    ∃ environment', assignments.foldlM (fun environment a ↦ setVariableIf environment a.1 a.2)
        environment = .ok environment' ∧ Binds environment' (bindings ++ bindingsOf texts) := by
  induction hreads generalizing environment bindings with
  | nil => exact ⟨environment, rfl, by rwa [bindingsOf, List.filterMap_nil, List.append_nil]⟩
  | @cons a t assignments texts hhead hrest ih =>
    obtain ⟨name, value⟩ := a
    obtain ⟨name', text⟩ := t
    obtain ⟨rfl, hread⟩ := hhead
    rw [List.map_cons, List.nodup_cons] at hdistinct
    have hnames' := fun t ht ↦ hnames t (List.mem_cons_of_mem _ ht)
    rw [List.foldlM_cons]
    cases hread with
    | none =>
      exact ih h hnames' hdistinct.2 (fun b hb t ht ↦ hnew b hb t (List.mem_cons_of_mem _ ht))
    | @some value text hvalue =>
      obtain ⟨environment', hset, hbinds⟩ := h.setVariable (hnames _ List.mem_cons_self)
        (fun b hb ↦ hnew b hb _ List.mem_cons_self) hvalue
      have hnew' : ∀ b ∈ bindings ++ [(ascii name, text)], ∀ t ∈ texts,
          HashTableT.hash b.1 ≠ HashTableT.hash (ascii t.1) := by
        intro b hb t ht
        rcases List.mem_append.mp hb with hb | hb
        · exact hnew b hb t (List.mem_cons_of_mem _ ht)
        · rw [List.mem_singleton.mp hb]
          exact fun he ↦ hdistinct.1 (List.mem_map.mpr ⟨t, ht, he.symm⟩)
      obtain ⟨environment'', hfold, hbinds'⟩ := ih hbinds hnames' hdistinct.2 hnew'
      refine ⟨environment'', ?_, ?_⟩
      · rw [setVariableIf, hset, checked_ok_bind]
        exact hfold
      · rw [List.append_assoc] at hbinds'
        exact hbinds'

variable {P : UInt8 → Prop} [FreshBytes]

/-! ### The strings of a table -/

/-- The string of an entry, `cgi.c:95–100`. -/
def keyValuePair (key value : StringT) : Checked StringT := do
  let keyValuePair := StringT.fromBufferWithLength key.content
  let keyValuePair := keyValuePair.appendChar 61
  keyValuePair.append value

/-- The buffer of the environment, `cgi.c:91–106`, as `execve` reads it. -/
def environmentBuffer (environment : HashTableT (Option StringT)) :
    Checked (List (List UInt8)) := do
  let (entries, _) ← environment.iterate
  entries.mapM fun (key, value) ↦ do
    let keyValuePair ← keyValuePair (← deref key) (← deref value.join)
    keyValuePair.cstr

theorem keyValuePair_ok {name : List UInt8} (hname : 0 ∉ name) {value : StringT}
    {text : List UInt8} (hvalue : value.cstr = .ok text) :
    ∃ pair, keyValuePair (StringT.fromBufferWithLength name) value = .ok pair ∧
      pair.cstr = .ok (bindingText (name, text)) := by
  have hprints := (StringT.prints_fromBufferWithLength name).appendChar
    (show (61 : UInt8) ≠ 0 by decide)
  obtain ⟨pair, happend, hprints⟩ := hprints.append hvalue
  rw [List.append_assoc, List.singleton_append] at hprints
  refine ⟨pair, ?_, hprints.cstr ?_ (by simp)⟩
  · rw [keyValuePair, StringT.content_fromBufferWithLength]
    exact happend
  · simp [hname, StringT.zero_notMem_of_cstr hvalue]

/-- The script is run with a string for each variable. -/
theorem Binds.environmentBuffer {environment : HashTableT (Option StringT)}
    {bindings : List (List UInt8 × List UInt8)} (h : Binds environment bindings)
    (hnames : ∀ binding ∈ bindings, 0 ∉ binding.1) :
    environmentBuffer environment = .ok (bindings.map bindingText) := by
  obtain ⟨m, hrep, hentries⟩ := h
  obtain ⟨table, hiterate, -⟩ := hrep.iterate
  rw [Worker.environmentBuffer, hiterate, checked_ok_bind]
  dsimp only
  clear hiterate
  generalize m.entries = entries at hentries
  induction hentries with
  | nil => rfl
  | cons hhead hrest ih =>
    obtain ⟨hkey, value, hvalue, htext⟩ := hhead
    obtain ⟨pair, hpair, hcstr⟩ := keyValuePair_ok (hnames _ List.mem_cons_self) htext
    rw [List.map_cons, List.mapM_cons, hkey, hvalue, ih (fun binding hb ↦
      hnames binding (List.mem_cons_of_mem _ hb))]
    simp only [deref_some, checked_ok_bind, Option.join_some, hpair, hcstr]
    rfl

/-! ### The variables of a request -/

/-- The text of a string. -/
def textOf (s : StringT) : List UInt8 := cString s.content

/-- The path of the script below the root, unless it is the root or outside of it. -/
def scriptName (fs : FileSystem) (path root : CanonicalPath) : Option (List UInt8) :=
  (fs.realpath path.1).bind fun resolved ↦
    if root.1 <+: resolved.1 ∧ root.1 ≠ resolved.1 then some (resolved.1.drop root.1.length)
    else none

/-- What the names stand for. -/
def requestTexts (context : Context) (request : HttpT) (url : UrlT) (root path : CanonicalPath) :
    List (String × Option (List UInt8)) :=
  [("HTTPS", some (ascii "off")),
    ("SERVER_SOFTWARE", some (ascii "WSIC")),
    ("REMOTE_ADDR", some (textOf context.sourceAddress)),
    ("REMOTE_PORT", some (StringT.decimal context.sourcePort.toNat)),
    ("REQUEST_METHOD", match request.method with
      | .get => some (ascii "GET")
      | .post => some (ascii "POST")
      | _ => none),
    ("HTTP_COOKIE", (request.headerValue "Cookie").map textOf),
    ("HTTP_REFERER", (request.headerValue "Referer").map textOf),
    ("HTTP_USER_AGENT", (request.headerValue "User-Agent").map textOf),
    ("HTTP_HOST", url.domainName.map textOf),
    ("SERVER_NAME", url.domainName.map textOf),
    ("SERVER_PORT", if url.port ≠ 0 then some (StringT.decimal url.port.toNat) else none),
    ("REQUEST_URI", url.path.map textOf),
    ("DOCUMENT_ROOT", some root.1),
    ("SCRIPT_FILENAME", some path.1),
    ("SCRIPT_NAME", scriptName context.fs path root),
    ("PATH", context.systemPath.map cString)]

/-- The values in the order in which `worker_createEnvironment` sets them. -/
def assignments (context : Context) (request : HttpT) (url : UrlT) (root path : CanonicalPath)
    (relativePath : Option StringT) : List (String × Option StringT) :=
  [("HTTPS", some (StringT.fromBuffer (ascii "off"))),
    ("SERVER_SOFTWARE", some (StringT.fromBuffer (ascii "WSIC"))),
    ("REMOTE_ADDR", some context.sourceAddress.copy),
    ("REMOTE_PORT", some (StringT.fromInt context.sourcePort.toNat)),
    ("REQUEST_METHOD", environmentMethod request.method),
    ("HTTP_COOKIE", (request.headerValue "Cookie").map StringT.copy),
    ("HTTP_REFERER", (request.headerValue "Referer").map StringT.copy),
    ("HTTP_USER_AGENT", (request.headerValue "User-Agent").map StringT.copy),
    ("HTTP_HOST", url.domainName.map StringT.copy),
    ("SERVER_NAME", url.domainName.map StringT.copy),
    ("SERVER_PORT", if url.port ≠ 0 then some (StringT.fromInt url.port.toNat) else none),
    ("REQUEST_URI", url.path.map StringT.copy),
    ("DOCUMENT_ROOT", some (StringT.fromBuffer root.1).copy),
    ("SCRIPT_FILENAME", some (StringT.fromBuffer path.1).copy),
    ("SCRIPT_NAME", relativePath),
    ("PATH", context.systemPath.map StringT.fromBuffer)]

/-- The lookups of the headers do not change what is set. -/
theorem createEnvironment_eq (context : Context) {request : HttpT} (h : request.MadeOf P)
    {url : UrlT} (hurl : request.url = some url) {root path : CanonicalPath}
    {relativePath : Option StringT} (hrelative : Path.relativeTo context.fs
      (StringT.fromBuffer path.1) (StringT.fromBuffer root.1) = .ok relativePath) :
    ∃ request', createEnvironment context request (StringT.fromBuffer root.1)
        (StringT.fromBuffer path.1) = (do
      let environment ← (assignments context request url root path relativePath).foldlM
        (fun environment a ↦ setVariableIf environment a.1 a.2) HashTableT.create
      return (environment, request')) := by
  obtain ⟨r₁, hr₁, hm₁, hl₁, -⟩ := h.getHeader "Cookie"
  obtain ⟨r₂, hr₂, hm₂, hl₂, -⟩ := hm₁.getHeader "Referer"
  obtain ⟨r₃, hr₃, hm₃, hl₃, -⟩ := hm₂.getHeader "User-Agent"
  have hurl₃ : r₃.url = some url := by rw [hl₃.url, hl₂.url, hl₁.url, hurl]
  refine ⟨r₃, ?_⟩
  rw [hl₁.headerValue] at hr₂
  rw [hl₂.headerValue, hl₁.headerValue] at hr₃
  simp only [createEnvironment, assignments, List.foldlM_cons, List.foldlM_nil, hr₁, hr₂, hr₃,
    hurl₃, hrelative, deref_some, checked_ok_bind, setVariableIf, bind_assoc, pure_bind]

omit [FreshBytes] in
/-- The path below the root is the text of `SCRIPT_NAME`. -/
theorem relativeTo_scriptName (fs : FileSystem) (path root : CanonicalPath) :
    ∃ relativePath, Path.relativeTo fs (StringT.fromBuffer path.1) (StringT.fromBuffer root.1) =
      .ok relativePath ∧ Reads relativePath (scriptName fs path root) := by
  unfold scriptName
  rw [Path.relativeTo, Path.cstr_canonical, checked_ok_bind]
  cases fs.realpath path.1 with
  | none => exact ⟨none, rfl, .none⟩
  | some resolved =>
    rw [Option.bind_some]
    have hroot := Path.cstr_canonical root
    rw [Path.fromBuffer_canonical] at hroot ⊢
    dsimp only
    rw [Path.fromBuffer_canonical, StringT.size_fromBufferWithLength,
      StringT.size_fromBufferWithLength]
    by_cases hlength : root.1.length ≤ resolved.1.length
    · have hpos : 0 < resolved.1.length := List.length_pos_iff.mpr (Path.canonical_ne_nil resolved)
      have htake : 0 ∉ resolved.1.take root.1.length :=
        fun hm ↦ resolved.2.1 (List.mem_of_mem_take hm)
      rw [StringT.substring_fresh _ (Nat.zero_le _) hpos hlength, checked_ok_bind]
      dsimp only
      rw [List.drop_zero, Nat.sub_zero, StringT.equals_of_cstr (StringT.cstr_fromBufferWithLength _)
        hroot, checked_ok_bind, cString_eq_self htake]
      by_cases hbefore : root.1 <+: resolved.1
      · rw [decide_eq_true (List.prefix_iff_eq_take.mp hbefore).symm, if_pos rfl]
        by_cases heq : root.1 = resolved.1
        · rw [if_neg (fun h ↦ h.2 heq), StringT.substring_of_not
            (.inl (by rw [StringT.size_fromBufferWithLength, heq]))]
          exact ⟨none, rfl, .none⟩
        · have hlt : root.1.length < resolved.1.length :=
            lt_of_le_of_ne hlength (fun h ↦ heq (hbefore.eq_of_length h))
          rw [if_pos ⟨hbefore, heq⟩, StringT.substring_rest hlt]
          have hdrop : 0 ∉ resolved.1.drop root.1.length :=
            fun hm ↦ resolved.2.1 (List.mem_of_mem_drop hm)
          refine ⟨_, rfl, .some ?_⟩
          rw [StringT.cstr_fromBufferWithLength, cString_eq_self hdrop]
      · have hne : resolved.1.take root.1.length ≠ root.1 :=
          fun h ↦ hbefore (List.prefix_iff_eq_take.mpr h.symm)
        rw [decide_eq_false hne, if_neg (by decide), if_neg (fun h ↦ hbefore h.1)]
        exact ⟨none, rfl, .none⟩
    · rw [StringT.substring_of_not (.inr (by rw [StringT.size_fromBufferWithLength]; omega)),
        if_neg (fun h ↦ hlength h.1.length_le)]
      exact ⟨none, rfl, .none⟩

omit [FreshBytes] in
theorem reads_copy (value : Option StringT) :
    Reads (value.map StringT.copy) (value.map textOf) := by
  cases value with
  | none => exact .none
  | some value => exact .some (StringT.cstr_fromBufferWithLength _)

theorem reads_assignments (context : Context) (request : HttpT) (url : UrlT)
    (root path : CanonicalPath) {relativePath : Option StringT}
    (hrelative : Reads relativePath (scriptName context.fs path root)) :
    List.Forall₂ (fun a t ↦ a.1 = t.1 ∧ Reads a.2 t.2)
      (assignments context request url root path relativePath)
      (requestTexts context request url root path) := by
  have hport : Reads (if url.port ≠ 0 then some (StringT.fromInt url.port.toNat) else none)
      (if url.port ≠ 0 then some (StringT.decimal url.port.toNat) else none) := by
    split
    · exact .some (StringT.cstr_fromInt_natCast _)
    · exact .none
  have hpath : Reads (context.systemPath.map StringT.fromBuffer)
      (context.systemPath.map cString) := by
    cases context.systemPath with
    | none => exact .none
    | some path => exact .some (StringT.cstr_fromBuffer _)
  have hcanonical (path : CanonicalPath) :
      Reads (some (StringT.fromBuffer path.1).copy) (some path.1) := by
    refine .some ?_
    rw [Path.fromBuffer_canonical, UrlT.copy_fromBufferWithLength, ← Path.fromBuffer_canonical,
      Path.cstr_canonical]
  have hmethod : Reads (environmentMethod request.method) (match request.method with
      | .get => some (ascii "GET")
      | .post => some (ascii "POST")
      | _ => none) := by
    cases request.method <;> first | exact .none | exact .some rfl
  unfold assignments requestTexts
  refine .cons ⟨rfl, .some rfl⟩ <| .cons ⟨rfl, .some rfl⟩ <|
    .cons ⟨rfl, .some (StringT.cstr_fromBufferWithLength _)⟩ <|
    .cons ⟨rfl, .some (StringT.cstr_fromInt_natCast _)⟩ <| .cons ⟨rfl, hmethod⟩ <|
    .cons ⟨rfl, reads_copy _⟩ <| .cons ⟨rfl, reads_copy _⟩ <| .cons ⟨rfl, reads_copy _⟩ <|
    .cons ⟨rfl, reads_copy _⟩ <| .cons ⟨rfl, reads_copy _⟩ <| .cons ⟨rfl, hport⟩ <|
    .cons ⟨rfl, reads_copy _⟩ <| .cons ⟨rfl, hcanonical _⟩ <| .cons ⟨rfl, hcanonical _⟩ <|
    .cons ⟨rfl, hrelative⟩ <| .cons ⟨rfl, hpath⟩ .nil

/-- The names of the variables. -/
def environmentNames : List String :=
  ["HTTPS", "SERVER_SOFTWARE", "REMOTE_ADDR", "REMOTE_PORT", "REQUEST_METHOD", "HTTP_COOKIE",
    "HTTP_REFERER", "HTTP_USER_AGENT", "HTTP_HOST", "SERVER_NAME", "SERVER_PORT", "REQUEST_URI",
    "DOCUMENT_ROOT", "SCRIPT_FILENAME", "SCRIPT_NAME", "PATH"]

omit [FreshBytes] in
theorem names_requestTexts (context : Context) (request : HttpT) (url : UrlT)
    (root path : CanonicalPath) :
    (requestTexts context request url root path).map Prod.fst = environmentNames := rfl

omit [FreshBytes] in
/-- No two names have the same hash. -/
theorem nodup_environmentNames :
    (environmentNames.map (fun name ↦ HashTableT.hash (ascii name))).Nodup := by decide +kernel

omit [FreshBytes] in
theorem nul_notMem_environmentNames : ∀ name ∈ environmentNames, 0 ∉ ascii name := by decide

omit [FreshBytes] in
theorem equals_notMem_environmentNames : ∀ name ∈ environmentNames, 61 ∉ ascii name := by decide

/-- The table that is made holds the variables of the request. -/
theorem createEnvironment_binds (context : Context) {request : HttpT} (h : request.MadeOf P)
    {url : UrlT} (hurl : request.url = some url) (root path : CanonicalPath) :
    ∃ environment request', createEnvironment context request (StringT.fromBuffer root.1)
        (StringT.fromBuffer path.1) = .ok (environment, request') ∧
      Binds environment (bindingsOf (requestTexts context request url root path)) := by
  obtain ⟨relativePath, hrelative, hreads⟩ := relativeTo_scriptName context.fs path root
  obtain ⟨request', hcreate⟩ := createEnvironment_eq context h hurl hrelative
  have hname (t : String × Option (List UInt8))
      (ht : t ∈ requestTexts context request url root path) : t.1 ∈ environmentNames := by
    rw [← names_requestTexts context request url root path]
    exact List.mem_map_of_mem ht
  obtain ⟨environment, hfold, hbinds⟩ := binds_create.setVariables
    (reads_assignments context request url root path hreads)
    (fun t ht ↦ nul_notMem_environmentNames _ (hname t ht))
    (by
      have hnodup := nodup_environmentNames
      rwa [← names_requestTexts context request url root path, List.map_map] at hnodup)
    (fun _ hb ↦ absurd hb List.not_mem_nil)
  refine ⟨environment, request', ?_, hbinds⟩
  rw [hcreate, hfold, checked_ok_bind]
  rfl

/-- A script finds under every name what the name stands for in its request, and under other names
nothing: the client cannot set a variable that the code does not name. The three header values are
those of the lookup by hash, whichever names the client has sent. -/
theorem returnCGI_getenv (context : Context) {request : HttpT} (h : request.MadeOf P) {url : UrlT}
    (hurl : request.url = some url) (root path : CanonicalPath) (body : Option StringT)
    (rounds : ℕ) {command : List UInt8} {environment : HashTableT (Option StringT)}
    (hspawn : .spawn command environment ∈ (returnCGI context rounds request
      (StringT.fromBuffer path.1) (StringT.fromBuffer root.1) body).events) :
    command = path.1 ∧ ∃ strings, environmentBuffer environment = .ok strings ∧
      ∀ name, 61 ∉ name → getenv strings name =
        (bindingsOf (requestTexts context request url root path)).lookup name := by
  obtain ⟨environment', request', hcreate, hbinds⟩ :=
    createEnvironment_binds context h hurl root path
  rw [returnCGI, hcreate, attempt_ok] at hspawn
  dsimp only at hspawn
  rw [Path.cstr_canonical, attempt_ok] at hspawn
  split at hspawn
  · cases hspawn
  · have hevents : ScriptEvents (fun event ↦ event ≠ .spawn command environment) :=
      ⟨fun _ ↦ by simp, by simp, fun _ ↦ by simp, fun _ ↦ by simp⟩
    rcases List.mem_cons.mp hspawn with heq | hmem
    · injection heq with hcommand henvironment
      subst henvironment
      have hname (binding : List UInt8 × List UInt8)
          (hb : binding ∈ bindingsOf (requestTexts context request url root path)) :
          ∃ name ∈ environmentNames, binding.1 = ascii name := by
        obtain ⟨t, ht, hb⟩ := mem_bindingsOf hb
        refine ⟨t.1, ?_, hb⟩
        rw [← names_requestTexts context request url root path]
        exact List.mem_map_of_mem ht
      refine ⟨hcommand, _, hbinds.environmentBuffer ?_, fun name hfree ↦
        getenv_map_bindingText ?_ hfree⟩
      · intro binding hb
        obtain ⟨name, hmem, heq⟩ := hname binding hb
        exact heq ▸ nul_notMem_environmentNames name hmem
      · intro binding hb
        obtain ⟨name, hmem, heq⟩ := hname binding hb
        exact heq ▸ equals_notMem_environmentNames name hmem
    · have hall := all_attempt (fun _ _ ↦ hevents.followed context rounds request' body) _ hmem
      exact absurd rfl hall

/-- A worker without servers on a machine that has no path of the script any more. -/
def scriptContext : Context where
  sites := ListT.create
  ssl := false
  sourceAddress := StringT.fromBuffer (ascii "127.0.0.1")
  sourcePort := 50000
  fs := ⟨fun _ ↦ none, fun _ ↦ true, fun _ ↦ true⟩
  openFile := fun _ ↦ none
  systemPath := some (ascii "/bin")
  script := ⟨true, fun _ ↦ 65536, none⟩

/-- A request that has only been created. -/
def emptyRequest : HttpT := { HttpT.create with method := .get, url := some HttpT.newUrl }

omit [FreshBytes] in
theorem returnCGI_getenv_get :
    ∃ command environment, .spawn command environment ∈
        (@returnCGI FreshBytes.zero scriptContext 0 emptyRequest
          (StringT.fromBuffer (ascii "/w/e")) (StringT.fromBuffer (ascii "/w")) none).events ∧
      ∃ strings, @environmentBuffer FreshBytes.zero environment = .ok strings ∧
        getenv strings (ascii "REQUEST_METHOD") = some (ascii "GET") ∧
        getenv strings (ascii "HTTP_PROXY") = none := by
  let _ := FreshBytes.zero
  have hmade : emptyRequest.MadeOf (fun _ ↦ True) :=
    ⟨HttpT.madeOf_create.headers, by rintro _ ⟨⟩; exact UrlT.madeOf_newUrl⟩
  let root : CanonicalPath := ⟨ascii "/w", by decide⟩
  let path : CanonicalPath := ⟨ascii "/w/e", by decide⟩
  obtain ⟨environment, request', hevents⟩ :=
    events_returnCGI scriptContext hmade rfl root path none
  have hspawn : .spawn path.1 environment ∈ (returnCGI scriptContext 0 emptyRequest
      (StringT.fromBuffer path.1) (StringT.fromBuffer root.1) none).events := by
    rw [hevents, if_neg (by decide)]
    exact List.mem_cons_self
  obtain ⟨-, strings, hstrings, hgetenv⟩ :=
    returnCGI_getenv scriptContext hmade rfl root path none 0 hspawn
  refine ⟨_, environment, hspawn, strings, hstrings, ?_, ?_⟩
  · rw [hgetenv _ (by decide)]
    decide +kernel
  · rw [hgetenv _ (by decide)]
    decide +kernel

end Wsic.Worker
