import Wsic.Http.RequestLine

/-!
# Queries

`http_parseRequestTarget` of `src/http/http.c` cuts the query of a target into the keys and values
of a table; `url_toQueryString` of `src/url/url.c` prints such a table. The first character of a
query is read ahead, to tell a bare `?`, and so belongs to the first key whatever it is.
-/

open CMemory

namespace Wsic

namespace UrlT

/-! ### Texts of queries -/

/-- The key and the value of a parameter. -/
abbrev Parameter := List UInt8 × List UInt8

/-- The parameters with `=` between key and value and `&` between parameters. -/
def queryText : List Parameter → List UInt8
  | [] => []
  | [p] => p.1 ++ 61 :: p.2
  | p :: q :: rest => p.1 ++ 61 :: (p.2 ++ 38 :: queryText (q :: rest))

/-- The parser reads these parameters back, with `ahead` characters of the first key already
read: it takes the next `=` for the end of a key, and `&` for the end of a value; an empty value
at the end is not kept. -/
def ReadsBack (ahead : Nat) : List Parameter → Prop
  | [] => False
  | [p] => ahead ≤ p.1.length ∧ 61 ∉ p.1.drop ahead ∧ 38 ∉ p.2 ∧ p.2 ≠ []
  | p :: q :: rest => ahead ≤ p.1.length ∧ 61 ∉ p.1.drop ahead ∧ 38 ∉ p.2 ∧ ReadsBack 0 (q :: rest)

/-- The hashes of the keys are pairwise different. -/
def DistinctKeys (ps : List Parameter) : Prop := (ps.map (fun p ↦ HashTableT.hash p.1)).Nodup

instance (ps : List Parameter) : Decidable (DistinctKeys ps) :=
  inferInstanceAs (Decidable (List.Nodup _))

/-! ### Tables of parameters -/

/-- The entry of a parameter. -/
def parameterEntry (p : Parameter) : HashTableEntryT (Option StringT) :=
  HashTableT.entryOf (HashTableT.freshKey p.1) (some (StringT.fromBufferWithLength p.2))

/-- The URL has exactly these parameters, in this order. -/
def Stores (url : UrlT) (ps : List Parameter) : Prop :=
  ∃ m, url.parameters.Represents m ∧ m.entries = ps.map parameterEntry

theorem keyHash_parameterEntry (p : Parameter) :
    (parameterEntry p).keyHash = HashTableT.hash p.1 := HashTableT.hash_freshKey p.1

theorem stores_nil {url : UrlT} (h : url.parameters.Represents KeyedList.empty) :
    url.Stores [] := ⟨KeyedList.empty, h, rfl⟩

/-- Setting a parameter with a new hash appends it. -/
theorem Stores.setParameter {url : UrlT} {ps : List Parameter} (h : url.Stores ps) {p : Parameter}
    (hp : HashTableT.hash p.1 ∉ ps.map (fun p ↦ HashTableT.hash p.1)) :
    ∃ table, url.setParameter (some (StringT.fromBufferWithLength p.1))
        (some (StringT.fromBufferWithLength p.2)) = .ok { url with parameters := table } ∧
      Stores { url with parameters := table } (ps ++ [p]) := by
  obtain ⟨m, hrep, hentries⟩ := h
  obtain ⟨table, hset, hrep'⟩ := HttpT.setParameter_fresh hrep p.1
    (some (StringT.fromBufferWithLength p.2))
  refine ⟨table, hset, _, hrep', ?_⟩
  rw [KeyedList.set_of_forall_ne, hentries, List.map_append]
  · rfl
  · intro e he hkey
    rw [hentries] at he
    obtain ⟨q, hq, rfl⟩ := List.mem_map.mp he
    apply hp
    rw [← HashTableT.hash_freshKey p.1]
    exact List.mem_map.mpr ⟨q, hq, (keyHash_parameterEntry q).symm.trans hkey⟩

/-- Parameters with new hashes that are set one after another are appended in order. -/
theorem Stores.setParameters {url : UrlT} {done ps : List Parameter} (h : url.Stores done)
    (hkeys : DistinctKeys (done ++ ps)) :
    ∃ table, ps.foldlM (fun url p ↦ url.setParameter (some (StringT.fromBufferWithLength p.1))
        (some (StringT.fromBufferWithLength p.2))) url = .ok { url with parameters := table } ∧
      Stores { url with parameters := table } (done ++ ps) := by
  induction ps generalizing url done with
  | nil =>
    rw [List.append_nil]
    exact ⟨url.parameters, rfl, h⟩
  | cons p ps ih =>
    have hnew : HashTableT.hash p.1 ∉ done.map (fun p ↦ HashTableT.hash p.1) := by
      rw [DistinctKeys, List.map_append, List.map_cons] at hkeys
      exact fun hm ↦ (List.nodup_append.mp hkeys).2.2 _ hm _ List.mem_cons_self rfl
    rw [← List.singleton_append, ← List.append_assoc] at hkeys ⊢
    obtain ⟨table, hset, hstores⟩ := h.setParameter hnew
    obtain ⟨table', hrest, hstores'⟩ := ih hstores hkeys
    refine ⟨table', ?_, hstores'⟩
    rw [List.singleton_append, List.foldlM_cons, hset, checked_ok_bind]
    exact hrest

/-- Iterating visits the parameters in order. -/
theorem Stores.iterate {url : UrlT} {ps : List Parameter} (h : url.Stores ps) :
    ∃ table, url.parameters.iterate =
        .ok (ps.map (fun p ↦ (some (StringT.fromBufferWithLength p.1),
          some (some (StringT.fromBufferWithLength p.2)))), table) ∧
      Stores { url with parameters := table } ps := by
  obtain ⟨m, hrep, hentries⟩ := h
  obtain ⟨table, hit, hrep'⟩ := hrep.iterate
  refine ⟨table, ?_, m, hrep', hentries⟩
  rw [hit, hentries, List.map_map]
  rfl

/-! ### Printing -/

section Printing

variable [FreshBytes]

/-- Parameters without NUL are printed as their text. -/
theorem appendParameters_prints {result : StringT} {a : List UInt8} (h : result.Prints a)
    (ps : List Parameter) (hz : ∀ p ∈ ps, 0 ∉ p.1 ∧ 0 ∉ p.2) :
    ∃ r, appendParameters result (ps.map (fun p ↦ (some (StringT.fromBufferWithLength p.1),
        some (some (StringT.fromBufferWithLength p.2))))) = .ok r ∧
      r.Prints (a ++ queryText ps) := by
  induction ps generalizing result a with
  | nil =>
    rw [queryText, List.append_nil]
    exact ⟨result, rfl, h⟩
  | cons p ps ih =>
    obtain ⟨hkey, hvalue⟩ := hz p List.mem_cons_self
    obtain ⟨r₁, h₁, hp₁⟩ := h.append
      ((StringT.cstr_fromBufferWithLength p.1).trans (by rw [cString_eq_self hkey]))
    obtain ⟨r₂, h₂, hp₂⟩ := (hp₁.appendChar (show (61 : UInt8) ≠ 0 by decide)).append
      ((StringT.cstr_fromBufferWithLength p.2).trans (by rw [cString_eq_self hvalue]))
    rw [List.map_cons, appendParameters, deref_some, checked_ok_bind, h₁, checked_ok_bind]
    dsimp only [Option.join_some]
    rw [deref_some, checked_ok_bind, h₂, checked_ok_bind]
    cases ps with
    | nil =>
      refine ⟨r₂, rfl, ?_⟩
      rw [queryText]
      simpa only [List.append_assoc, List.singleton_append] using hp₂
    | cons q rest =>
      rw [if_neg (by simp)]
      obtain ⟨r, hr, hp⟩ := ih (hp₂.appendChar (show (38 : UInt8) ≠ 0 by decide))
        (fun x hx ↦ hz x (List.mem_cons_of_mem _ hx))
      refine ⟨r, hr, ?_⟩
      rw [queryText]
      simpa only [List.append_assoc, List.cons_append, List.nil_append] using hp

/-- The query string of a URL that has these parameters. -/
theorem Stores.toQueryString {url : UrlT} {ps : List Parameter} (h : url.Stores ps)
    (hz : ∀ p ∈ ps, 0 ∉ p.1 ∧ 0 ∉ p.2) :
    ∃ query url', url.toQueryString = .ok (query, url') ∧ query.Prints (queryText ps) := by
  obtain ⟨table, hit, -⟩ := h.iterate
  obtain ⟨r, hr, hp⟩ := appendParameters_prints ⟨StringT.clean_create, rfl⟩ ps hz
  refine ⟨r, { url with parameters := table }, ?_, hp⟩
  rw [UrlT.toQueryString, hit, checked_ok_bind]
  dsimp only
  rw [hr, checked_ok_bind]
  rfl

end Printing

end UrlT

namespace HttpT

open UrlT

/-! ### Parsing -/

private theorem queryText_cons (p : Parameter) (ps : List Parameter) :
    ∃ rest, queryText (p :: ps) = p.1 ++ 61 :: rest ∧
      ((ps = [] ∧ rest = p.2) ∨ (ps ≠ [] ∧ rest = p.2 ++ 38 :: queryText ps)) := by
  cases ps with
  | nil => exact ⟨p.2, rfl, .inl ⟨rfl, rfl⟩⟩
  | cons q ps => exact ⟨_, rfl, .inr ⟨List.cons_ne_nil _ _, rfl⟩⟩

private theorem readsBack_cons {ahead : Nat} {p : Parameter} {ps : List Parameter}
    (h : ReadsBack ahead (p :: ps)) :
    ahead ≤ p.1.length ∧ 61 ∉ p.1.drop ahead ∧ 38 ∉ p.2 ∧ (ps = [] → p.2 ≠ []) ∧
      (ps ≠ [] → ReadsBack 0 ps) := by
  cases ps with
  | nil =>
    obtain ⟨hlen, hkey, hvalue, hne⟩ := h
    exact ⟨hlen, hkey, hvalue, fun _ ↦ hne, fun hn ↦ absurd rfl hn⟩
  | cons q ps =>
    obtain ⟨hlen, hkey, hvalue, hrest⟩ := h
    exact ⟨hlen, hkey, hvalue, fun hn ↦ absurd hn (List.cons_ne_nil _ _), fun _ ↦ hrest⟩

/-- The loop takes the parameters off their text one by one. -/
theorem parametersLoop_queryText {target : List UInt8} (hz : 0 ∉ target) {rounds first ahead : Nat}
    {url : UrlT} {done ps : List Parameter} (h : url.Stores done)
    (hkeys : DistinctKeys (done ++ ps)) (hps : ReadsBack ahead ps)
    (htext : target.drop (first + 1) = queryText ps)
    (hr : (target.drop (first + 1 + ahead)).length < rounds) :
    ∃ table, parametersLoop (StringT.fromBufferWithLength target) rounds first
        ⟨StringT.fromBufferWithLength target, first + 1 + ahead⟩ url =
          .ok (true, { url with parameters := table }) ∧
      Stores { url with parameters := table } (done ++ ps) := by
  induction ps generalizing rounds first ahead url done with
  | nil => cases hps
  | cons p ps ih =>
    obtain ⟨rounds, rfl⟩ : ∃ n, rounds = n + 1 := ⟨rounds - 1, by omega⟩
    obtain ⟨hlen, hkey, hvalue, hlast, hmore⟩ := readsBack_cons hps
    obtain ⟨rest, hquery, hrest⟩ := queryText_cons p ps
    have hnew : HashTableT.hash p.1 ∉ done.map (fun p ↦ HashTableT.hash p.1) := by
      rw [DistinctKeys, List.map_append, List.map_cons] at hkeys
      exact fun hm ↦ (List.nodup_append.mp hkeys).2.2 _ hm _ List.mem_cons_self rfl
    obtain ⟨table, hset, hstores⟩ := h.setParameter hnew
    rw [hquery] at htext
    have hahead : target.drop (first + 1 + ahead) = p.1.drop ahead ++ 61 :: rest := by
      rw [← List.drop_drop, htext, List.drop_append_of_le_length hlen]
    obtain ⟨hafter, hlt⟩ := StringCursorT.drop_of_append htext
    have hindex : first + 1 + ahead + (p.1.drop ahead).length = first + 1 + p.1.length := by
      rw [List.length_drop]
      omega
    have hsubkey : (StringT.fromBufferWithLength target).substring (first + 1)
        (first + 1 + p.1.length) = .ok (some (StringT.fromBufferWithLength p.1)) :=
      StringT.substring_part (by omega) htext
    rw [parametersLoop, StringCursorT.findNextChar_fresh (by decide) hz hahead hkey]
    dsimp only
    rw [← Nat.add_assoc, hindex, hsubkey, checked_ok_bind]
    rw [← Nat.add_assoc] at hafter
    rcases hrest with ⟨rfl, rfl⟩ | ⟨hne, rfl⟩
    · -- The last value reaches to the end of the target.
      have hpos := List.length_pos_of_ne_nil (hlast rfl)
      rw [← hafter, List.length_drop] at hpos
      have hsub : (StringT.fromBufferWithLength target).substring (first + 1 + p.1.length + 1)
          target.length = .ok (some (StringT.fromBufferWithLength p.2)) := by
        rw [StringT.substring_rest (by omega), hafter]
      rw [StringCursorT.findNextChar_fresh_absent (by rw [hafter]; exact hvalue)]
      dsimp only
      rw [StringT.size_fromBufferWithLength, hsub, checked_ok_bind, hset, checked_ok_bind]
      exact ⟨table, rfl, hstores⟩
    · obtain ⟨hnext, hlt'⟩ := StringCursorT.drop_of_append hafter
      have hsub : (StringT.fromBufferWithLength target).substring (first + 1 + p.1.length + 1)
          (first + 1 + p.1.length + 1 + p.2.length) =
            .ok (some (StringT.fromBufferWithLength p.2)) :=
        StringT.substring_part (by omega) hafter
      rw [StringCursorT.findNextChar_fresh (by decide) hz hafter hvalue]
      dsimp only
      rw [hsub, checked_ok_bind, hset, checked_ok_bind]
      rw [← Nat.add_assoc] at hnext
      have hshort : (target.drop (first + 1 + p.1.length + 1 + p.2.length + 1 + 0)).length <
          rounds := by
        rw [List.length_drop] at hr ⊢
        omega
      have hdistinct : DistinctKeys (done ++ [p] ++ ps) := by
        rwa [List.append_assoc, List.singleton_append]
      obtain ⟨table', hloop, hstores'⟩ := ih hstores hdistinct (hmore hne) hnext hshort
      refine ⟨table', hloop, ?_⟩
      rwa [List.append_assoc, List.singleton_append] at hstores'

/-- A target of a path and a query is parsed into them. -/
theorem parseRequestTarget_queryText {path : List UInt8} {ps : List Parameter} (hp : 63 ∉ path)
    (hz : 0 ∉ path ++ 63 :: queryText ps) (hps : ReadsBack 1 ps) (hkeys : DistinctKeys ps)
    {url : UrlT} (h : url.parameters.Represents KeyedList.empty) :
    ∃ table, parseRequestTarget url
        (StringT.fromBufferWithLength (path ++ 63 :: queryText ps)) =
          .ok (true, { url with
            path := some (StringT.fromBufferWithLength path)
            parameters := table }) ∧
      Stores { url with
        path := some (StringT.fromBufferWithLength path)
        parameters := table } ps := by
  obtain ⟨d, query, hcons⟩ : ∃ d query, queryText ps = d :: query := by
    cases ps with
    | nil => cases hps
    | cons p ps =>
      obtain ⟨hlen, -⟩ := readsBack_cons hps
      obtain ⟨rest, hrest, -⟩ := queryText_cons p ps
      apply List.exists_cons_of_ne_nil
      rw [hrest]
      exact List.append_ne_nil_of_left_ne_nil (List.ne_nil_of_length_pos hlen) _
  have hquery : (path ++ 63 :: queryText ps).drop (path.length + 1) = queryText ps := by
    rw [← List.drop_drop, List.drop_left]
    rfl
  have hrounds : ((path ++ 63 :: queryText ps).drop (path.length + 1 + 1)).length <
      (path ++ 63 :: queryText ps).length := by
    rw [List.length_drop, List.length_append, List.length_cons]
    omega
  obtain ⟨table, hloop, hstores⟩ := @parametersLoop_queryText _ hz _ path.length 1
    (url.setPath (some (StringT.fromBufferWithLength path))) [] ps (stores_nil h) hkeys hps hquery
    hrounds
  refine ⟨table, ?_, hstores⟩
  rw [hcons] at hz hloop ⊢
  rw [parseRequestTarget_eq_loop hp hz]
  exact hloop

/-! ### Parsing what was printed -/

/-- Set the parameters one after another. -/
def setParameters (url : UrlT) (ps : List Parameter) : Checked UrlT :=
  ps.foldlM (fun url p ↦ url.setParameter (some (StringT.fromBuffer p.1))
    (some (StringT.fromBuffer p.2))) url

private theorem setParameters_eq (url : UrlT) {ps : List Parameter}
    (hz : ∀ p ∈ ps, 0 ∉ p.1 ∧ 0 ∉ p.2) :
    setParameters url ps = ps.foldlM (fun url p ↦ url.setParameter
      (some (StringT.fromBufferWithLength p.1)) (some (StringT.fromBufferWithLength p.2))) url := by
  unfold setParameters
  induction ps generalizing url with
  | nil => rw [List.foldlM_nil, List.foldlM_nil]
  | cons p ps ih =>
    obtain ⟨hkey, hvalue⟩ := hz p List.mem_cons_self
    have hfresh : url.setParameter (some (StringT.fromBuffer p.1)) (some (StringT.fromBuffer p.2)) =
        url.setParameter (some (StringT.fromBufferWithLength p.1))
          (some (StringT.fromBufferWithLength p.2)) := by
      rw [StringT.fromBuffer, StringT.fromBuffer, cString_eq_self hkey, cString_eq_self hvalue]
    rw [List.foldlM_cons, List.foldlM_cons, hfresh]
    exact bind_congr (fun url' ↦ ih url' (fun q hq ↦ hz q (List.mem_cons_of_mem _ hq)))

private theorem readsBack_of_forall {ps : List Parameter} (hne : ps ≠ [])
    (hkey : ∀ p ∈ ps, 61 ∉ p.1) (hvalue : ∀ p ∈ ps, 38 ∉ p.2)
    (hlast : ∀ p, ps.getLast? = some p → p.2 ≠ []) {ahead : Nat}
    (hfirst : ∀ p, ps.head? = some p → ahead ≤ p.1.length) : ReadsBack ahead ps := by
  induction ps generalizing ahead with
  | nil => exact absurd rfl hne
  | cons p ps ih =>
    have hp : 61 ∉ p.1.drop ahead := fun hm ↦ hkey p List.mem_cons_self (List.mem_of_mem_drop hm)
    cases ps with
    | nil => exact ⟨hfirst p rfl, hp, hvalue p List.mem_cons_self, hlast p rfl⟩
    | cons q ps =>
      refine ⟨hfirst p rfl, hp, hvalue p List.mem_cons_self, ?_⟩
      apply ih (List.cons_ne_nil _ _) (fun x hx ↦ hkey x (List.mem_cons_of_mem _ hx))
        (fun x hx ↦ hvalue x (List.mem_cons_of_mem _ hx)) _ (fun _ _ ↦ Nat.zero_le _)
      intro x hx
      exact hlast x (by rwa [List.getLast?_cons_cons])

private theorem zero_notMem_queryText {ps : List Parameter} (hz : ∀ p ∈ ps, 0 ∉ p.1 ∧ 0 ∉ p.2) :
    0 ∉ queryText ps := by
  induction ps with
  | nil => exact List.not_mem_nil
  | cons p ps ih =>
    obtain ⟨hkey, hvalue⟩ := hz p List.mem_cons_self
    have hrest := ih (fun q hq ↦ hz q (List.mem_cons_of_mem _ hq))
    cases ps with
    | nil => simp [queryText, hkey, hvalue]
    | cons q ps => simp [queryText, hkey, hvalue, hrest]

/-- Parameters that are printed behind a path and parsed again are those of the URL, and the path
is its path. -/
theorem parseRequestTarget_toQueryString [FreshBytes] {path : List UInt8} {ps : List Parameter}
    (hpath : 63 ∉ path ∧ 0 ∉ path) (hne : ps ≠ []) (hkeys : DistinctKeys ps)
    (hkey : ∀ p ∈ ps, 61 ∉ p.1) (hfirst : ∀ p, ps.head? = some p → p.1 ≠ [])
    (hvalue : ∀ p ∈ ps, 38 ∉ p.2) (hlast : ∀ p, ps.getLast? = some p → p.2 ≠ [])
    (hz : ∀ p ∈ ps, 0 ∉ p.1 ∧ 0 ∉ p.2)
    {url : UrlT} (hurl : url.parameters.Represents KeyedList.empty) :
    ∃ printed query printed' url' table, setParameters UrlT.create ps = .ok printed ∧
      printed.toQueryString = .ok (query, printed') ∧
      parseRequestTarget url (StringT.fromBufferWithLength (path ++ 63 :: query.content)) =
        .ok (true, url') ∧
      url'.path = some (StringT.fromBufferWithLength path) ∧
      url'.parameters.iterate = .ok (ps.map (fun p ↦
        (some (StringT.fromBufferWithLength p.1),
          some (some (StringT.fromBufferWithLength p.2)))), table) := by
  obtain ⟨table, hset, hstores⟩ :=
    (@stores_nil UrlT.create HashTableT.represents_create).setParameters hkeys
  rw [← setParameters_eq _ hz] at hset
  obtain ⟨query, printed', hquery, hprints⟩ := hstores.toQueryString hz
  have hreads : ReadsBack 1 ps := readsBack_of_forall hne hkey hvalue hlast
    (fun p hp ↦ List.length_pos_of_ne_nil (hfirst p hp))
  have hzero : 0 ∉ path ++ 63 :: queryText ps := by
    simp [hpath.2, zero_notMem_queryText hz]
  obtain ⟨table', hparse, hparsed⟩ :=
    parseRequestTarget_queryText hpath.1 hzero hreads hkeys hurl
  obtain ⟨table'', hit, -⟩ := hparsed.iterate
  refine ⟨_, query, printed', _, table'', hset, hquery, ?_, rfl, hit⟩
  rw [hprints.2]
  exact hparse

/-- The query `a=1&b=2` behind the path `/x`. -/
theorem parseRequestTarget_toQueryString_two :
    ∃ printed query printed' url' table,
      setParameters UrlT.create [(ascii "a", ascii "1"), (ascii "b", ascii "2")] = .ok printed ∧
      @UrlT.toQueryString FreshBytes.zero printed = .ok (query, printed') ∧
      parseRequestTarget UrlT.create
        (StringT.fromBufferWithLength (ascii "/x" ++ 63 :: query.content)) = .ok (true, url') ∧
      url'.path = some (StringT.fromBufferWithLength (ascii "/x")) ∧
      url'.parameters.iterate = .ok ([(ascii "a", ascii "1"), (ascii "b", ascii "2")].map (fun p ↦
        (some (StringT.fromBufferWithLength p.1),
          some (some (StringT.fromBufferWithLength p.2)))), table) := by
  apply @parseRequestTarget_toQueryString FreshBytes.zero (ascii "/x")
    [(ascii "a", ascii "1"), (ascii "b", ascii "2")] (by decide) (by decide) (by decide) (by decide)
    (by rintro _ ⟨⟩; decide) (by decide) (by rintro _ ⟨⟩; decide) (by decide) UrlT.create
    HashTableT.represents_create

end HttpT
end Wsic
