import Wsic.Http.Query

/-!
# The location of a redirect

A request that asks for an upgrade is answered with the URL of its TLS server,
`src/worker/worker.c:231–235`: a copy of the URL of the request, with another protocol and port,
is printed. The target of the request was cut into a path and parameters and is put together
again from the copied table.
-/

open CMemory

namespace Wsic

namespace Worker

/-- The value of the `Location` header, `worker.c:231–235`; the text and the URL of the request. -/
def location [FreshBytes] (url : UrlT) (port : UInt16) : Checked (StringT × UrlT) := do
  let (newUrl, url) ← url.copy
  let newUrl := newUrl.setProtocol (some (StringT.fromBuffer (ascii "https")))
  let newUrl := newUrl.setPort port
  let (text, newUrl) ← newUrl.toString
  newUrl.free
  return (text, url)

end Worker

namespace UrlT

/-! ### Parameters of a target -/

/-- The parameters of a text behind the beginning of a key and, when its `=` was read, of a value:
`=` ends a key, `&` ends a value. A key without `=` is no parameter. -/
def readParameters : List UInt8 → Option (List UInt8) → List UInt8 → List Parameter
  | _, none, [] => []
  | key, some value, [] => [(key, value)]
  | key, none, c :: text =>
    if c = 61 then readParameters key (some []) text else readParameters (key ++ [c]) none text
  | key, some value, c :: text =>
    if c = 38 then (key, value) :: readParameters [] none text
    else readParameters key (some (value ++ [c])) text

/-- The parameters of a query; its first character belongs to the first key. -/
def queryParameters : List UInt8 → List Parameter
  | [] => []
  | c :: query => readParameters [c] none query

/-- The parameters of a target, whose query starts behind the first `?`. -/
def targetParameters (target : List UInt8) : List Parameter :=
  queryParameters (target.dropWhile (· ≠ 63)).tail

/-- The target ends in the only `?` it has. -/
def EndsBare (target : List UInt8) : Prop := ∃ path, 63 ∉ path ∧ target = path ++ [63]

theorem targetParameters_of_path {target : List UInt8} (h : 63 ∉ target) :
    targetParameters target = [] := by
  have hdrop : target.dropWhile (· ≠ 63) = [] := by
    rw [List.dropWhile_eq_nil_iff]
    intro c hc
    simpa using fun he : c = 63 ↦ h (he ▸ hc)
  rw [targetParameters, hdrop]
  rfl

theorem targetParameters_of_query {path query : List UInt8} (h : 63 ∉ path) :
    targetParameters (path ++ 63 :: query) = queryParameters query := by
  have hdrop : (path ++ 63 :: query).dropWhile (· ≠ 63) = 63 :: query := by
    rw [List.dropWhile_append_of_pos]
    · rfl
    · intro c hc
      simpa using fun he : c = 63 ↦ h (he ▸ hc)
  rw [targetParameters, hdrop, List.tail_cons]

/-- Where a reader stands that has this much of a value. -/
def stateOf : Option (List UInt8) → HttpT.QueryState
  | none => .key
  | some [] => .emptyValue
  | some (_ :: _) => .value

/-- What a reader has read of a parameter. -/
def readText (key : List UInt8) : Option (List UInt8) → List UInt8
  | none => key
  | some value => key ++ 61 :: value

theorem stateOf_append (value : List UInt8) (c : UInt8) :
    stateOf (some (value ++ [c])) = .value := by
  cases value <;> rfl

theorem next_stateOf_some (value : List UInt8) (c : UInt8) :
    (stateOf (some value)).next c = if c = 38 then .key else .value := by
  cases value <;> rfl

private theorem queryText_cons_of_ne_nil (p : Parameter) {ps : List Parameter} (h : ps ≠ []) :
    queryText (p :: ps) = p.1 ++ 61 :: (p.2 ++ 38 :: queryText ps) := by
  cases ps with
  | nil => exact absurd rfl h
  | cons q ps => rfl

/-- A text whose last key has its `=` is the text of its parameters. -/
theorem queryText_readParameters {key : List UInt8} {value : Option (List UInt8)}
    {text : List UInt8} (h : text.foldl HttpT.QueryState.next (stateOf value) ≠ .key) :
    readParameters key value text ≠ [] ∧
      queryText (readParameters key value text) = readText key value ++ text := by
  induction text generalizing key value with
  | nil =>
    cases value with
    | none => exact absurd rfl h
    | some value =>
      rw [readParameters, queryText, readText, List.append_nil]
      exact ⟨List.cons_ne_nil _ _, rfl⟩
  | cons c text ih =>
    rw [List.foldl_cons] at h
    cases value with
    | none =>
      rw [readParameters, readText]
      by_cases hc : c = 61
      · have hstate : (stateOf none).next c = stateOf (some []) := if_pos hc
        rw [hstate] at h
        rw [if_pos hc, hc]
        simpa only [readText, List.append_assoc, List.cons_append, List.nil_append]
          using @ih key (some []) h
      · have hstate : (stateOf none).next c = stateOf none := if_neg hc
        rw [hstate] at h
        rw [if_neg hc]
        simpa only [readText, List.append_assoc, List.cons_append, List.nil_append]
          using @ih (key ++ [c]) none h
    | some value =>
      rw [next_stateOf_some] at h
      rw [readParameters, readText]
      by_cases hc : c = 38
      · rw [if_pos hc] at h ⊢
        obtain ⟨hne, htext⟩ := @ih [] none h
        refine ⟨List.cons_ne_nil _ _, ?_⟩
        rw [queryText_cons_of_ne_nil _ hne, htext, readText, hc]
        simp only [List.nil_append, List.append_assoc, List.cons_append]
      · rw [if_neg hc, ← stateOf_append value c] at h
        rw [if_neg hc]
        simpa only [readText, List.append_assoc, List.cons_append, List.nil_append]
          using @ih key (some (value ++ [c])) h

/-- The value that a reader is in has no `&`. -/
def OpenValue : Option (List UInt8) → Prop
  | none => True
  | some value => 38 ∉ value

/-- The parser reads the parameters of such a text back, unless the last value is empty. -/
theorem readsBack_readParameters {ahead : Nat} {key : List UInt8} {value : Option (List UInt8)}
    {text : List UInt8} (h : text.foldl HttpT.QueryState.next (stateOf value) ≠ .key)
    (hahead : ahead ≤ key.length) (hkey : 61 ∉ key.drop ahead) (hvalue : OpenValue value)
    (hlast : ∀ p, (readParameters key value text).getLast? = some p → p.2 ≠ []) :
    ReadsBack ahead (readParameters key value text) := by
  induction text generalizing ahead key value with
  | nil =>
    cases value with
    | none => exact absurd rfl h
    | some value => exact ⟨hahead, hkey, hvalue, hlast _ rfl⟩
  | cons c text ih =>
    rw [List.foldl_cons] at h
    cases value with
    | none =>
      rw [readParameters] at hlast ⊢
      by_cases hc : c = 61
      · have hstate : (stateOf none).next c = stateOf (some []) := if_pos hc
        rw [hstate] at h
        rw [if_pos hc] at hlast ⊢
        exact ih h hahead hkey List.not_mem_nil hlast
      · have hstate : (stateOf none).next c = stateOf none := if_neg hc
        rw [hstate] at h
        rw [if_neg hc] at hlast ⊢
        have hlen : ahead ≤ (key ++ [c]).length := by
          rw [List.length_append]
          omega
        refine ih h hlen ?_ trivial hlast
        rw [List.drop_append_of_le_length hahead, List.mem_append, not_or]
        exact ⟨hkey, fun hm ↦ hc (List.mem_singleton.mp hm).symm⟩
    | some value =>
      rw [next_stateOf_some] at h
      rw [readParameters] at hlast ⊢
      by_cases hc : c = 38
      · rw [if_pos hc] at h hlast ⊢
        obtain ⟨q, ps, hps⟩ :=
          List.exists_cons_of_ne_nil (@queryText_readParameters [] none text h).1
        have hrest := @ih 0 [] none h (Nat.zero_le _) List.not_mem_nil trivial
        rw [hps] at hlast hrest ⊢
        rw [List.getLast?_cons_cons] at hlast
        exact ⟨hahead, hkey, hvalue, hrest hlast⟩
      · rw [if_neg hc, ← stateOf_append value c] at h
        rw [if_neg hc] at hlast ⊢
        refine ih h hahead hkey ?_ hlast
        exact fun hm ↦ (List.mem_append.mp hm).elim hvalue
          (fun hm ↦ hc (List.mem_singleton.mp hm).symm)

/-! ### Copies -/

theorem copy_fromBufferWithLength (b : List UInt8) :
    (StringT.fromBufferWithLength b).copy = StringT.fromBufferWithLength b := by
  rw [StringT.copy, StringT.content_fromBufferWithLength]

private theorem copyParameters_eq (newUrl : UrlT) (ps : List Parameter) :
    (ps.map (fun p ↦ (some (StringT.fromBufferWithLength p.1),
        some (some (StringT.fromBufferWithLength p.2))))).foldlM copyParameter newUrl =
      ps.foldlM (fun url p ↦ url.setParameter (some (StringT.fromBufferWithLength p.1))
        (some (StringT.fromBufferWithLength p.2))) newUrl := by
  rw [List.foldlM_map]
  congr 1
  funext url p
  rw [copyParameter, deref_some, checked_ok_bind]
  dsimp only [Option.join_some]
  rw [deref_some, checked_ok_bind, copy_fromBufferWithLength, copy_fromBufferWithLength]

/-- A copy has copies of the strings, and the same parameters. -/
theorem Stores.copy {url : UrlT} {ps : List Parameter} (h : url.Stores ps)
    (hkeys : DistinctKeys ps) :
    ∃ newUrl url', url.copy = .ok (newUrl, url') ∧ newUrl.Stores ps ∧
      newUrl.domainName = url.domainName.map StringT.copy ∧
      newUrl.path = url.path.map StringT.copy := by
  let newUrl : UrlT := { create with
    protocol := url.protocol.map StringT.copy
    domainName := url.domainName.map StringT.copy
    port := url.port
    path := url.path.map StringT.copy }
  have hnew : newUrl.Stores [] := stores_nil HashTableT.represents_create
  obtain ⟨table, hit, -⟩ := h.iterate
  obtain ⟨table', hset, hstores⟩ := hnew.setParameters hkeys
  refine ⟨{ newUrl with parameters := table' }, { url with parameters := table }, ?_, hstores, rfl,
    rfl⟩
  rw [UrlT.copy, hit, checked_ok_bind]
  dsimp only
  rw [copyParameters_eq, hset, checked_ok_bind]
  rfl

theorem Stores.free {url : UrlT} {ps : List Parameter} (h : url.Stores ps) :
    url.free = .ok () := by
  obtain ⟨m, hrep, hentries⟩ := h
  apply free_of_hasValues hrep
  intro e he
  rw [hentries] at he
  obtain ⟨p, -, rfl⟩ := List.mem_map.mp he
  exact nonNull_fromBufferWithLength p.2

/-! ### Printing -/

section Printing

variable [FreshBytes]

/-- The query of a URL, with the `?` in front of it. -/
def queryPart (ps : List Parameter) : List UInt8 := if ps = [] then [] else 63 :: queryText ps

omit [FreshBytes] in
private theorem queryPart_eq (ps : List Parameter) :
    (if ps = [] then [] else [63]) ++ queryText ps = queryPart ps := by
  unfold queryPart
  split
  · next hnil =>
    rw [hnil]
    rfl
  · rfl

/-- A URL of fresh strings without NUL is printed in one piece. -/
theorem Stores.toString {url : UrlT} {ps : List Parameter} (h : url.Stores ps)
    (hz : ∀ p ∈ ps, 0 ∉ p.1 ∧ 0 ∉ p.2) {protocol domainName path : List UInt8}
    (hprotocol : url.protocol = some (StringT.fromBufferWithLength protocol))
    (hdomainName : url.domainName = some (StringT.fromBufferWithLength domainName))
    (hpath : url.path = some (StringT.fromBufferWithLength path))
    (hport : url.port ≠ 0 ∧ url.port ≠ 80) (hzp : 0 ∉ protocol) (hzd : 0 ∉ domainName)
    (hzpath : 0 ∉ path) :
    ∃ text url', url.toString = .ok (text, url') ∧ url'.Stores ps ∧
      text.Prints (protocol ++ ascii "://" ++ domainName ++ [58] ++
        StringT.decimal url.port.toNat ++ path ++ queryPart ps) := by
  have hcstr {b : List UInt8} (hb : 0 ∉ b) : (StringT.fromBufferWithLength b).cstr = .ok b := by
    rw [StringT.cstr_fromBufferWithLength, cString_eq_self hb]
  obtain ⟨table, hit, hstores⟩ := h.iterate
  have hcreate : StringT.create.Prints [] := ⟨StringT.clean_create, rfl⟩
  obtain ⟨r₁, h₁, hp₁⟩ := hcreate.append (hcstr hzp)
  obtain ⟨r₂, h₂, hp₂⟩ := (hp₁.appendBuffer (ascii "://")).append (hcstr hzd)
  obtain ⟨r₃, h₃, hp₃⟩ := (hp₂.appendChar (show (58 : UInt8) ≠ 0 by decide)).append
    (StringT.cstr_fromInt_natCast url.port.toNat)
  obtain ⟨r₄, h₄, hp₄⟩ := hp₃.append (hcstr hzpath)
  have hlength : url.parameters.getLength = ps.length := by
    obtain ⟨m, hrep, hentries⟩ := h
    rw [hrep.getLength, hentries, List.length_map]
  have hquestion : (if url.parameters.getLength > 0 then r₄.appendChar 63 else r₄).Prints
      ((protocol ++ ascii "://" ++ domainName ++ [58] ++ StringT.decimal url.port.toNat ++ path) ++
        if ps = [] then [] else [63]) := by
    have hseparator : cString (ascii "://") = ascii "://" := by decide
    rw [hseparator, List.nil_append] at hp₄
    rw [hlength]
    cases ps with
    | nil =>
      rw [if_pos rfl, List.append_nil]
      exact hp₄
    | cons p ps =>
      rw [if_neg (List.cons_ne_nil _ _)]
      exact hp₄.appendChar (by decide)
  obtain ⟨r₅, h₅, hp₅⟩ := appendParameters_prints hquestion ps hz
  refine ⟨r₅, { url with parameters := table }, ?_, hstores, ?_⟩
  · simp only [UrlT.toString, hprotocol, hdomainName, hpath, appendUnlessNull, appendPort, h₁, h₂,
      h₃, h₄, hit, h₅, checked_ok_bind, Option.isNone_some, Bool.false_eq_true, if_false,
      if_pos hport]
    rfl
  · rwa [List.append_assoc, queryPart_eq] at hp₅

end Printing

/-! ### Targets -/

private theorem zero_notMem_of_queryText {ps : List Parameter} (h : 0 ∉ queryText ps) :
    ∀ p ∈ ps, 0 ∉ p.1 ∧ 0 ∉ p.2 := by
  induction ps with
  | nil => exact fun p hp ↦ absurd hp List.not_mem_nil
  | cons q ps ih =>
    by_cases hne : ps = []
    · subst hne
      simp only [queryText, List.mem_append, List.mem_cons, not_or] at h
      rintro p hp
      cases List.mem_singleton.mp hp
      exact ⟨h.1, h.2.2⟩
    · rw [queryText_cons_of_ne_nil q hne] at h
      simp only [List.mem_append, List.mem_cons, not_or] at h
      intro p hp
      rcases List.mem_cons.mp hp with rfl | hp
      · exact ⟨h.1, h.2.2.1⟩
      · exact ih h.2.2.2.2 p hp

/-- An accepted target is stored as a path and parameters whose texts make it up. -/
theorem stores_of_accepted {target : List UInt8} (hne : target ≠ []) (hz : 0 ∉ target)
    (hkeys : DistinctKeys (targetParameters target))
    (hlast : ∀ p, (targetParameters target).getLast? = some p → p.2 ≠ [])
    (hbare : ¬ EndsBare target)
    {url url' : UrlT} (hurl : url.parameters.Represents KeyedList.empty)
    (h : HttpT.parseRequestTarget url (StringT.fromBufferWithLength target) = .ok (true, url')) :
    url'.Stores (targetParameters target) ∧
      ∃ path, url'.path = some (StringT.fromBufferWithLength path) ∧
        target = path ++ queryPart (targetParameters target) := by
  by_cases hq : 63 ∈ target
  · obtain ⟨path, query, rfl, hpath⟩ := List.eq_append_cons_of_mem hq
    rw [targetParameters_of_query hpath] at hkeys hlast ⊢
    cases query with
    | nil => exact absurd ⟨path, hpath, rfl⟩ hbare
    | cons c query =>
      obtain ⟨result, hparse, table, m, -, -, hresult⟩ :=
        HttpT.parseRequestTarget_loopResult hpath hz url hurl
      rw [h] at hparse
      cases hparse
      -- An accepted target ends in a value.
      have hend : query.foldl HttpT.QueryState.next (stateOf none) ≠ .key := by
        intro hend
        change query.foldl HttpT.QueryState.next .key = .key at hend
        rw [hend] at hresult
        cases hresult
      obtain ⟨hps, htext⟩ := @queryText_readParameters [c] none query hend
      have hreads : ReadsBack 1 (readParameters [c] none query) :=
        readsBack_readParameters hend (Nat.le_refl 1) List.not_mem_nil trivial hlast
      change queryText (queryParameters (c :: query)) = c :: query at htext
      rw [← htext] at hz h
      obtain ⟨table, hparse, hstores⟩ :=
        HttpT.parseRequestTarget_queryText hpath hz hreads hkeys hurl
      rw [h] at hparse
      cases hparse
      refine ⟨hstores, path, rfl, ?_⟩
      have hquery : queryPart (queryParameters (c :: query)) = 63 :: c :: query := by
        rw [queryPart, htext]
        exact if_neg hps
      rw [hquery]
  · rw [HttpT.parseRequestTarget_path hne hq] at h
    cases h
    rw [targetParameters_of_path hq]
    exact ⟨stores_nil hurl, target, rfl, (List.append_nil target).symm⟩

/-- The redirect names the target of the request on the domain of the request. -/
theorem location_eq [FreshBytes] {target : List UInt8} (hne : target ≠ []) (hz : 0 ∉ target)
    (hkeys : DistinctKeys (targetParameters target))
    (hlast : ∀ p, (targetParameters target).getLast? = some p → p.2 ≠ [])
    (hbare : ¬ EndsBare target)
    {url url' : UrlT} (hurl : url.parameters.Represents KeyedList.empty)
    (h : HttpT.parseRequestTarget url (StringT.fromBufferWithLength target) = .ok (true, url'))
    {domain : StringT} (hdomain : 0 ∉ domain.content) {port : UInt16}
    (hport : port ≠ 0 ∧ port ≠ 80) :
    ∃ text url'', Worker.location (url'.setDomainName (some domain)) port = .ok (text, url'') ∧
      text.content = ascii "https://" ++ domain.content ++ [58] ++ StringT.decimal port.toNat ++
        target ∧
      text.cstr = .ok text.content := by
  obtain ⟨hstores, path, hpath, htarget⟩ := stores_of_accepted hne hz hkeys hlast hbare hurl h
  set ps := targetParameters target
  have hzp : 0 ∉ path := fun hm ↦ hz (htarget ▸ List.mem_append_left _ hm)
  have hzq : ∀ p ∈ ps, 0 ∉ p.1 ∧ 0 ∉ p.2 := by
    apply zero_notMem_of_queryText
    intro hm
    apply hz
    rw [htarget, queryPart]
    split
    · next hnil =>
      rw [hnil] at hm
      exact absurd hm List.not_mem_nil
    · exact List.mem_append_right _ (List.mem_cons_of_mem _ hm)
  have hnamed : (url'.setDomainName (some domain)).Stores ps := hstores
  obtain ⟨newUrl, old, hcopy, hnew, hnewDomain, hnewPath⟩ := hnamed.copy hkeys
  have hlocated : ((newUrl.setProtocol (some (StringT.fromBuffer (ascii "https")))).setPort
      port).Stores ps := hnew
  have hcopied : newUrl.path = some (StringT.fromBufferWithLength path) := by
    rw [hnewPath, UrlT.setDomainName, hpath, Option.map_some, copy_fromBufferWithLength]
  obtain ⟨text, newUrl', htext, hfreed, hprints⟩ := @Stores.toString _ _ _ hlocated hzq
    (ascii "https") domain.content path rfl hnewDomain hcopied hport (by decide) hdomain hzp
  have hfits : ascii "https" ++ ascii "://" ++ domain.content ++ [58] ++
      StringT.decimal port.toNat ++ path ++ queryPart ps =
        ascii "https://" ++ domain.content ++ [58] ++ StringT.decimal port.toNat ++ target := by
    rw [htarget, ← List.append_assoc _ path]
    rfl
  change text.Prints (ascii "https" ++ ascii "://" ++ domain.content ++ [58] ++
      StringT.decimal port.toNat ++ path ++ queryPart ps) at hprints
  rw [hfits] at hprints
  refine ⟨text, old, ?_, hprints.2, ?_⟩
  · rw [Worker.location, hcopy, checked_ok_bind]
    dsimp only
    rw [htext, checked_ok_bind]
    dsimp only
    rw [hfreed.free, checked_ok_bind]
    rfl
  · rw [hprints.2]
    apply hprints.cstr _ (by simp)
    have hprotocol : (0 : UInt8) ∉ ascii "https://" := by decide
    simp [hprotocol, hdomain, StringT.zero_notMem_decimal, hz]

/-- The target `/x?a=&b=1` on the domain `d`, with port 8443: an empty value in the middle. -/
theorem location_eq_two : ∃ url' text url'',
    HttpT.parseRequestTarget UrlT.create (StringT.fromBufferWithLength (ascii "/x?a=&b=1")) =
      .ok (true, url') ∧
    @Worker.location FreshBytes.zero (url'.setDomainName (some (StringT.fromBuffer (ascii "d"))))
      8443 = .ok (text, url'') ∧
    text.content = ascii "https://" ++ ascii "d" ++ [58] ++ StringT.decimal 8443 ++
      ascii "/x?a=&b=1" ∧
    text.cstr = .ok text.content := by
  have hbare : ¬ EndsBare (ascii "/x?a=&b=1") := by
    rintro ⟨path, -, htarget⟩
    have hlast := congrArg List.getLast? htarget
    rw [List.getLast?_concat] at hlast
    exact absurd hlast (by decide)
  obtain ⟨text, url'', hlocation⟩ := @location_eq FreshBytes.zero (ascii "/x?a=&b=1") (by decide)
    (by decide) (by decide) (by rintro _ ⟨⟩; decide) hbare UrlT.create _
    HashTableT.represents_create rfl (StringT.fromBuffer (ascii "d")) (by decide) 8443 (by decide)
  exact ⟨_, text, url'', rfl, hlocation⟩

end UrlT
end Wsic
