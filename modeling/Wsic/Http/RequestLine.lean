import Wsic.Http.HttpT
import Wsic.Http.Url

/-!
# Accepted request lines

When `http_parseRequestLine` of `src/http/http.c` accepts a line, is the URL it leaves well
formed? `string_substring` gives null for an empty range at the end of its string, and the
parser stores it unchecked: as the path of an empty target and as the value of a last
parameter that is empty. These are all the cases.
-/

open CMemory

namespace Wsic.HttpT

/-! ### The lines in question -/

/-- Where a reader of a query string stands: in a key, behind the `=` of a key, or in a
value that has begun. -/
inductive QueryState where
  | key
  | emptyValue
  | value
deriving DecidableEq

/-- One more character of the query: `=` ends a key, `&` ends a value. -/
def QueryState.next : QueryState → UInt8 → QueryState
  | .key, c => if c = 61 then .emptyValue else .key
  | .emptyValue, c | .value, c => if c = 38 then .key else .value

/-- Where the query ends; its first character always belongs to the first key. -/
def queryEnd (query : List UInt8) : QueryState := query.tail.foldl QueryState.next .key

/-- The target is empty, or it has a query whose last value is empty. -/
def TargetStoresNull (target : List UInt8) : Prop :=
  target = [] ∨ ∃ path query, target = path ++ 63 :: query ∧ 63 ∉ path ∧ query ≠ [] ∧
    queryEnd query = .emptyValue

/-- The text starts with `HTTP/`, a digit, a dot and a character from `0` up to the largest
signed one. -/
def VersionAccepted (text : List UInt8) : Prop :=
  ∃ first third rest, text = ascii "HTTP/" ++ first :: 46 :: third :: rest ∧
    48 ≤ first ∧ first ≤ 57 ∧ 48 ≤ third ∧ third < 128

/-- The line has a method, a target that stores null and an accepted version. -/
def StoresNull (line : List UInt8) : Prop :=
  ∃ method target rest, line = method ++ 32 :: (target ++ 32 :: rest) ∧
    method ≠ [] ∧ 32 ∉ method ∧ 0 ∉ method ∧ 32 ∉ target ∧ 0 ∉ target ∧
    VersionAccepted (cString rest) ∧ TargetStoresNull target

/-- If the line is accepted, the URL it leaves is well formed, and nothing that is done with
it later follows a null pointer. -/
def AcceptedWellFormed [FreshBytes] (line : StringT) : Prop :=
  ∀ http, parseRequestLine HttpT.create line = .ok (true, http) →
    ∃ url, http.url = some url ∧ url.WellFormed ∧ url.Usable

/-! ### Queries -/

private theorem foldl_key {a : List UInt8} (h : 61 ∉ a) :
    a.foldl QueryState.next .key = .key := by
  induction a with
  | nil => rfl
  | cons c a ih =>
    have hc : c ≠ 61 := fun he ↦ h (he ▸ List.mem_cons_self)
    rw [List.foldl_cons, QueryState.next, if_neg hc]
    exact ih (fun hm ↦ h (List.mem_cons_of_mem _ hm))

private theorem foldl_value {a : List UInt8} (h : 38 ∉ a) :
    a.foldl QueryState.next .value = .value := by
  induction a with
  | nil => rfl
  | cons c a ih =>
    have hc : c ≠ 38 := fun he ↦ h (he ▸ List.mem_cons_self)
    rw [List.foldl_cons, QueryState.next, if_neg hc]
    exact ih (fun hm ↦ h (List.mem_cons_of_mem _ hm))

private theorem foldl_emptyValue {a : List UInt8} (h : 38 ∉ a) :
    a.foldl QueryState.next .emptyValue = if a = [] then .emptyValue else .value := by
  cases a with
  | nil => rfl
  | cons c a =>
    have hc : c ≠ 38 := fun he ↦ h (he ▸ List.mem_cons_self)
    rw [List.foldl_cons, QueryState.next, if_neg hc, if_neg (List.cons_ne_nil _ _)]
    exact foldl_value (fun hm ↦ h (List.mem_cons_of_mem _ hm))

private theorem foldl_value_append {v r : List UInt8} (h : 38 ∉ v) :
    (v ++ 38 :: r).foldl QueryState.next .emptyValue = r.foldl QueryState.next .key := by
  rw [List.foldl_append, foldl_emptyValue h, List.foldl_cons]
  split <;> rfl

/-- A property of tables that setting a parameter to a text keeps. -/
def KeptByTexts (Q : HashTableT.Map (Option StringT) → Prop) : Prop :=
  ∀ m key b, Q m → Q (m.set (HashTableT.entryOf key (some (StringT.fromBufferWithLength b))))

/-- What the loop over the parameters leaves, told by where the query ends: only an empty last
value can break the property. -/
def LoopLeaves (Q : HashTableT.Map (Option StringT) → Prop) (url : UrlT) (state : QueryState)
    (result : Bool × UrlT) : Prop :=
  ∃ table m, result.2 = { url with parameters := table } ∧ table.Represents m ∧
    match state with
    | .key => result.1 = false
    | .value => result.1 = true ∧ Q m
    | .emptyValue => result.1 = true ∧ ¬ UrlT.HasValues m

/-- What the loop leaves of a table without null. -/
def LoopResult : UrlT → QueryState → Bool × UrlT → Prop := LoopLeaves UrlT.HasValues

theorem keptByTexts_hasValues : KeptByTexts UrlT.HasValues := by
  intro m key b h e he
  rcases KeyedList.mem_set he with rfl | he
  · exact nonNull_fromBufferWithLength b
  · exact h e he

section Loop

variable {target : List UInt8} {Q : HashTableT.Map (Option StringT) → Prop}

variable (target) in
private theorem substring_at (first last : Nat) (h : first ≤ last) (hf : first < target.length)
    (hl : last ≤ target.length) : ∃ b,
      (StringT.fromBufferWithLength target).substring first last =
        .ok (some (StringT.fromBufferWithLength b)) :=
  ⟨_, StringT.substring_fresh target h hf hl⟩

theorem setParameter_fresh {url : UrlT} {m : HashTableT.Map (Option StringT)}
    (h : url.parameters.Represents m) (b : List UInt8) (value : Option StringT) :
    ∃ table, url.setParameter (some (StringT.fromBufferWithLength b)) value =
        .ok { url with parameters := table } ∧
      table.Represents (m.set (HashTableT.entryOf (HashTableT.freshKey b) value)) :=
  UrlT.setParameter_spec h (HashTableT.freshKey b) value

/-- The value of the last parameter reaches to the end of the target: it is null exactly when
nothing follows the `=`. -/
private theorem lastParameter_spec (hQ : KeptByTexts Q) {url : UrlT}
    {m : HashTableT.Map (Option StringT)} (h : url.parameters.Represents m) (hm : Q m)
    (b : List UInt8) {first : Nat} (hf : first ≤ target.length) :
    ∃ result, (do
        let value ← (StringT.fromBufferWithLength target).substring first target.length
        let url ← url.setParameter (some (StringT.fromBufferWithLength b)) value
        return (true, url)) = Except.ok result ∧
      LoopLeaves Q url (if target.drop first = [] then .emptyValue else .value) result := by
  split
  · next hnil =>
    have hlen : target.length ≤ first := List.drop_eq_nil_iff.mp hnil
    rw [StringT.substring_of_not (.inl (by rw [StringT.size_fromBufferWithLength]; omega)),
      checked_ok_bind]
    obtain ⟨table, hset, hrep⟩ := setParameter_fresh h b none
    rw [hset, checked_ok_bind]
    refine ⟨_, rfl, table, _, rfl, hrep, rfl, ?_⟩
    intro hall
    obtain ⟨t, ht, -⟩ := hall _ (KeyedList.mem_set_self _ _)
    cases ht
  · next hcons =>
    have hlt : first < target.length := by
      by_contra hge
      exact hcons (List.drop_eq_nil_iff.mpr (Nat.not_lt.mp hge))
    obtain ⟨b', hsub⟩ := substring_at target first target.length hf hlt (Nat.le_refl _)
    rw [hsub, checked_ok_bind]
    obtain ⟨table, hset, hrep⟩ := setParameter_fresh h b (some (StringT.fromBufferWithLength b'))
    rw [hset, checked_ok_bind]
    exact ⟨_, rfl, table, _, rfl, hrep, rfl, hQ _ _ b' hm⟩

/-- Each round of the loop takes a key and a value off the query. -/
theorem parametersLoop_spec (hQ : KeptByTexts Q) (hz : 0 ∉ target) (rounds first offset : Nat)
    (hr : (target.drop offset).length < rounds) (hf : first < offset) (url : UrlT)
    {m : HashTableT.Map (Option StringT)} (h : url.parameters.Represents m) (hm : Q m) :
    ∃ result, parametersLoop (StringT.fromBufferWithLength target) rounds first
      ⟨StringT.fromBufferWithLength target, offset⟩ url = .ok result ∧
      LoopLeaves Q url ((target.drop offset).foldl QueryState.next .key) result := by
  induction rounds generalizing first offset url m with
  | zero => omega
  | succ rounds ih =>
    rw [parametersLoop]
    by_cases hkey : 61 ∈ target.drop offset
    · obtain ⟨key, r, hsplit, hk⟩ := List.eq_append_cons_of_mem hkey
      obtain ⟨hdrop, hlt⟩ := StringCursorT.drop_of_append hsplit
      obtain ⟨b, hsub⟩ := substring_at target (first + 1) (offset + key.length)
        (by omega) (by omega) (by omega)
      have hstate : (target.drop offset).foldl QueryState.next .key =
          r.foldl QueryState.next .emptyValue := by
        rw [hsplit, List.foldl_append, foldl_key hk]
        rfl
      rw [StringCursorT.findNextChar_fresh (by decide) hz hsplit hk, hstate]
      dsimp only
      rw [hsub, checked_ok_bind]
      by_cases hamp : 38 ∈ r
      · obtain ⟨value, r', rfl, hv⟩ := List.eq_append_cons_of_mem hamp
        obtain ⟨hdrop', hlt'⟩ := StringCursorT.drop_of_append hdrop
        obtain ⟨b', hsub'⟩ := substring_at target (offset + key.length + 1)
          (offset + (key.length + 1) + value.length) (by omega) (by omega) (by omega)
        obtain ⟨table, hset, hrep⟩ :=
          setParameter_fresh h b (some (StringT.fromBufferWithLength b'))
        rw [StringCursorT.findNextChar_fresh (by decide) hz hdrop hv]
        dsimp only
        rw [hsub', checked_ok_bind, hset, checked_ok_bind, foldl_value_append hv, ← hdrop']
        have hshort : (target.drop (offset + (key.length + 1) + (value.length + 1))).length <
            rounds := by
          rw [List.length_drop] at hr ⊢
          omega
        exact ih (offset + (key.length + 1) + value.length) _ hshort (by omega)
          { url with parameters := table } hrep (hQ _ _ b' hm)
      · rw [StringCursorT.findNextChar_fresh_absent (hdrop.symm ▸ hamp), foldl_emptyValue hamp,
          ← hdrop]
        exact lastParameter_spec hQ h hm b (by omega)
    · have hnone := StringCursorT.findNextChar_fresh_absent hkey
      dsimp only
      rw [hnone, foldl_key hkey]
      exact ⟨_, rfl, url.parameters, m, rfl, h, rfl⟩

end Loop

/-! ### Methods and versions -/

private theorem third_iff (c : UInt8) : ¬ c.toBitVec.toInt < 48 ↔ 48 ≤ c ∧ c < 128 := by
  rw [UInt8.le_iff_toNat_le, UInt8.lt_iff_toNat_lt, BitVec.toInt_eq_toNat_cond]
  change _ ↔ 48 ≤ c.toBitVec.toNat ∧ c.toBitVec.toNat < 128
  have hlt := c.toBitVec.isLt
  split <;> omega

private theorem first_iff (c : UInt8) :
    ¬ c.toBitVec.toInt < 48 ∧ ¬ c.toBitVec.toInt > 57 ↔ 48 ≤ c ∧ c ≤ 57 := by
  rw [UInt8.le_iff_toNat_le, UInt8.le_iff_toNat_le, BitVec.toInt_eq_toNat_cond]
  change _ ↔ 48 ≤ c.toBitVec.toNat ∧ c.toBitVec.toNat ≤ 57
  have hlt := c.toBitVec.isLt
  split <;> omega

/-- The three characters that the checks let through. -/
theorem isVersionNumber_iff (first second third : UInt8) :
    isVersionNumber (StringT.fromBufferWithLength [first, second, third]) = true ↔
      second = 46 ∧ 48 ≤ first ∧ first ≤ 57 ∧ 48 ≤ third ∧ third < 128 := by
  have h0 : (StringT.fromBufferWithLength [first, second, third]).getCharAt 0 = first := rfl
  have h1 : (StringT.fromBufferWithLength [first, second, third]).getCharAt 1 = second := rfl
  have h2 : (StringT.fromBufferWithLength [first, second, third]).getCharAt 2 = third := rfl
  simp only [isVersionNumber, h0, h1, h2, Bool.and_eq_true, Bool.not_eq_true',
    Bool.or_eq_false_iff, decide_eq_false_iff_not, beq_iff_eq]
  rw [first_iff]
  constructor
  · rintro ⟨⟨hf, hs⟩, ht, -⟩
    exact ⟨hs, hf.1, hf.2, (third_iff third).mp ht⟩
  · rintro ⟨hs, hf1, hf2, ht⟩
    exact ⟨⟨⟨hf1, hf2⟩, hs⟩, (third_iff third).mpr ht, ((first_iff first).mpr ⟨hf1, hf2⟩).2⟩

private theorem equalsBuffer_fresh {b : List UInt8} (hz : 0 ∉ b) (c : List UInt8) :
    (StringT.fromBufferWithLength b).equalsBuffer c = .ok (b == cString c) := by
  rw [StringT.equalsBuffer, StringT.cstr_fromBufferWithLength, checked_ok_bind,
    cString_eq_self hz]
  rfl

private theorem parseVersion_short {c : UInt8} {text : List UInt8} (hz : 0 ∉ c :: text)
    (hl : (c :: text).length < 8) :
    parseVersion (StringT.fromBufferWithLength (c :: text)) = .ok none := by
  set t := c :: text with ht
  unfold parseVersion
  rcases Nat.lt_or_ge t.length 5 with h5 | h5
  · rw [StringT.substring_of_not (.inr h5)]
    rfl
  · rw [StringT.substring_of_le (Nat.zero_le _) (Nat.succ_pos _) h5, checked_ok_bind]
    dsimp only
    rw [equalsBuffer_fresh (fun hm ↦ hz (by simpa using List.mem_of_mem_take hm)),
      checked_ok_bind, StringT.substring_of_not (.inr hl), checked_ok_bind]
    split <;> rfl

private theorem parseVersion_long (name rest : List UInt8) (first second third : UInt8)
    (hn : name.length = 5) (hz : 0 ∉ name) :
    parseVersion (StringT.fromBufferWithLength (name ++ first :: second :: third :: rest)) =
      .ok (if name = ascii "HTTP/" ∧
          isVersionNumber (StringT.fromBufferWithLength [first, second, third]) = true
        then some (StringT.fromBufferWithLength [first, second, third]) else none) := by
  have hl : (name ++ first :: second :: third :: rest).length = 8 + rest.length := by
    rw [List.length_append, hn, List.length_cons, List.length_cons, List.length_cons]
    omega
  have htake : (name ++ first :: second :: third :: rest).take 5 = name := by
    rw [← hn, List.take_left]
  have hdrop : ((name ++ first :: second :: third :: rest).drop 5).take 3 =
      [first, second, third] := by
    rw [← hn, List.drop_left]
    rfl
  unfold parseVersion
  rw [StringT.substring_of_le (Nat.zero_le _) (by simp) (by simp [hn]), checked_ok_bind]
  dsimp only
  rw [StringT.content_fromBufferWithLength, List.drop_zero, htake, equalsBuffer_fresh hz,
    checked_ok_bind, StringT.substring_of_le (by decide) (by simp [hn])
      (by rw [StringT.size_fromBufferWithLength]; omega),
    StringT.content_fromBufferWithLength, hdrop, checked_ok_bind,
    show cString (ascii "HTTP/") = ascii "HTTP/" by decide]
  by_cases hname : name = ascii "HTTP/"
  · simp only [hname, beq_self_eq_true, if_true, true_and]
    rfl
  · simp only [hname, beq_eq_false_iff_ne.mpr hname, false_and, if_false]
    rfl

private theorem parseMethod_ok {method : List UInt8} (hz : 0 ∉ method) :
    ∃ r, parseMethod (StringT.fromBufferWithLength method) = .ok r := by
  simp only [parseMethod, equalsBuffer_fresh hz, checked_ok_bind]
  repeat' split
  all_goals exact ⟨_, rfl⟩

/-! ### Targets -/

/-- What a target leaves, in a URL without parameters: null is stored exactly for the
targets in question, and these are accepted. -/
structure TargetResult (url : UrlT) (target : List UInt8) (result : Bool × UrlT) : Prop where
  protocol : result.2.protocol = url.protocol
  domainName : result.2.domainName = url.domainName
  represents : ∃ m, result.2.parameters.Represents m
  accepted : TargetStoresNull target → result.1 = true ∧ ¬ result.2.WellFormed
  wellFormed : result.1 = true → ¬ TargetStoresNull target → result.2.WellFormed

private theorem wellFormed_of_path {url : UrlT} (h : url.parameters.Represents KeyedList.empty)
    (b : List UInt8) :
    (url.setPath (some (StringT.fromBufferWithLength b))).WellFormed := by
  have h' : (url.setPath (some (StringT.fromBufferWithLength b))).parameters.Represents
      KeyedList.empty := h
  apply (UrlT.wellFormed_iff h').mpr
  exact ⟨nonNull_fromBufferWithLength b, fun _ he ↦ absurd he List.not_mem_nil⟩

/-- With a query, a target stores null exactly when the last value of the query is empty. -/
private theorem targetStoresNull_query_iff {path query : List UInt8} (hp : 63 ∉ path) :
    TargetStoresNull (path ++ 63 :: query) ↔ query ≠ [] ∧ queryEnd query = .emptyValue := by
  constructor
  · rintro (hnil | ⟨path', query', hsplit, hp', hq⟩)
    · exact absurd hnil (by simp)
    · obtain ⟨-, rfl⟩ := append_cons_unique hp hp' hsplit
      exact hq
  · intro hq
    exact .inr ⟨path, query, rfl, hp, hq⟩

private theorem not_targetStoresNull {c : UInt8} {target : List UInt8} (hq : 63 ∉ c :: target) :
    ¬ TargetStoresNull (c :: target) := by
  rintro (hnil | ⟨path, query, hsplit, -⟩)
  · exact absurd hnil (List.cons_ne_nil _ _)
  · exact absurd (hsplit ▸ List.mem_append_right _ List.mem_cons_self) hq

/-- What the loop over the parameters leaves is what the target leaves. -/
private theorem targetResult_of_loopResult {url : UrlT} {path query b : List UInt8} {d : UInt8}
    {result : Bool × UrlT} (hp : 63 ∉ path)
    (h : LoopResult (url.setPath (some (StringT.fromBufferWithLength b)))
      (query.foldl QueryState.next .key) result) :
    TargetResult url (path ++ 63 :: d :: query) result := by
  obtain ⟨table, m, hresult, hrep, hstate⟩ := h
  have hwf : result.2.WellFormed ↔ UrlT.HasValues m := by
    rw [hresult, UrlT.wellFormed_iff hrep]
    exact and_iff_right (nonNull_fromBufferWithLength b)
  refine ⟨by rw [hresult]; rfl, by rw [hresult]; rfl, ⟨m, by rw [hresult]; exact hrep⟩, ?_, ?_⟩
  · intro hn
    have hend : query.foldl QueryState.next .key = .emptyValue :=
      ((targetStoresNull_query_iff hp).mp hn).2
    rw [hend] at hstate
    exact ⟨hstate.1, fun hw ↦ hstate.2 (hwf.mp hw)⟩
  · intro htrue hn
    cases hend : query.foldl QueryState.next .key with
    | key =>
      rw [hend, htrue] at hstate
      cases hstate
    | value =>
      rw [hend] at hstate
      exact hwf.mpr hstate.2
    | emptyValue =>
      exact absurd ((targetStoresNull_query_iff hp).mpr ⟨List.cons_ne_nil _ _, hend⟩) hn

private theorem substring_path (path query : List UInt8) :
    (StringT.fromBufferWithLength (path ++ 63 :: query)).substring 0 path.length =
      .ok (some (StringT.fromBufferWithLength path)) := by
  rw [← Nat.zero_add path.length]
  exact StringT.substring_part (by simp) List.drop_zero

/-- A target that ends in `?` is its path. -/
theorem parseRequestTarget_bare {path : List UInt8} (hp : 63 ∉ path) (hz : 0 ∉ path ++ [63])
    (url : UrlT) :
    parseRequestTarget url (StringT.fromBufferWithLength (path ++ [63])) =
      .ok (true, url.setPath (some (StringT.fromBufferWithLength path))) := by
  have hsplit : (path ++ [63]).drop 0 = path ++ 63 :: [] := List.drop_zero
  obtain ⟨hquery, -⟩ := StringCursorT.drop_of_append hsplit
  unfold parseRequestTarget StringCursorT.create
  rw [StringCursorT.findNextChar_fresh (by decide) hz hsplit hp]
  dsimp only
  rw [Nat.zero_add, substring_path path [], checked_ok_bind,
    StringCursorT.getNextChar_nil ((StringCursorT.rest_fresh _ _).trans hquery)]
  rfl

/-- A target with a query: the loop over its parameters starts behind the first character. -/
theorem parseRequestTarget_eq_loop {path query : List UInt8} {d : UInt8} (hp : 63 ∉ path)
    (hz : 0 ∉ path ++ 63 :: d :: query) (url : UrlT) :
    parseRequestTarget url (StringT.fromBufferWithLength (path ++ 63 :: d :: query)) =
      parametersLoop (StringT.fromBufferWithLength (path ++ 63 :: d :: query))
        (path ++ 63 :: d :: query).length path.length
        ⟨StringT.fromBufferWithLength (path ++ 63 :: d :: query), path.length + 1 + 1⟩
        (url.setPath (some (StringT.fromBufferWithLength path))) := by
  have hsplit : (path ++ 63 :: d :: query).drop 0 = path ++ 63 :: d :: query := List.drop_zero
  obtain ⟨hquery, -⟩ := StringCursorT.drop_of_append hsplit
  have hd : d ≠ 0 := by
    rintro rfl
    exact hz (List.mem_append_right _ (List.mem_cons_of_mem _ List.mem_cons_self))
  unfold parseRequestTarget StringCursorT.create
  rw [StringCursorT.findNextChar_fresh (by decide) hz hsplit hp]
  dsimp only
  rw [Nat.zero_add, substring_path path (d :: query), checked_ok_bind,
    StringCursorT.getNextChar_cons ((StringCursorT.rest_fresh _ _).trans hquery)]
  dsimp only
  rw [if_neg hd, Nat.zero_add]
  rfl

/-- A target without `?` is its path. -/
theorem parseRequestTarget_path {target : List UInt8} (hne : target ≠ []) (hq : 63 ∉ target)
    (url : UrlT) :
    parseRequestTarget url (StringT.fromBufferWithLength target) =
      .ok (true, url.setPath (some (StringT.fromBufferWithLength target))) := by
  unfold parseRequestTarget StringCursorT.create
  dsimp only
  rw [StringCursorT.findNextChar_fresh_absent (by rwa [List.drop_zero])]
  dsimp only
  rw [StringT.size_fromBufferWithLength,
    StringT.substring_rest (List.length_pos_of_ne_nil hne), List.drop_zero]
  rfl

private theorem drop_query (path query : List UInt8) (d : UInt8) :
    (path ++ 63 :: d :: query).drop (path.length + 1 + 1) = query := by
  rw [← List.drop_drop, ← List.drop_drop, List.drop_left]
  rfl

/-- The loop over the parameters of a query. -/
theorem parseRequestTarget_loopLeaves {Q : HashTableT.Map (Option StringT) → Prop}
    (hQ : KeptByTexts Q) {path query : List UInt8} {d : UInt8} (hp : 63 ∉ path)
    (hz : 0 ∉ path ++ 63 :: d :: query) (url : UrlT) {m : HashTableT.Map (Option StringT)}
    (h : url.parameters.Represents m) (hm : Q m) :
    ∃ result,
      parseRequestTarget url (StringT.fromBufferWithLength (path ++ 63 :: d :: query)) =
        .ok result ∧
      LoopLeaves Q (url.setPath (some (StringT.fromBufferWithLength path)))
        (query.foldl QueryState.next .key) result := by
  rw [parseRequestTarget_eq_loop hp hz]
  have hlen : query.length < (path ++ 63 :: d :: query).length := by
    rw [List.length_append, List.length_cons, List.length_cons]
    omega
  obtain ⟨result, hloop, hresult⟩ := parametersLoop_spec hQ hz _ path.length
    (path.length + 1 + 1) (by rwa [drop_query]) (by omega)
    (url.setPath (some (StringT.fromBufferWithLength path))) h hm
  rw [drop_query] at hresult
  exact ⟨result, hloop, hresult⟩

/-- In a URL without parameters only an empty last value stores null. -/
theorem parseRequestTarget_loopResult {path query : List UInt8} {d : UInt8} (hp : 63 ∉ path)
    (hz : 0 ∉ path ++ 63 :: d :: query) (url : UrlT)
    (h : url.parameters.Represents KeyedList.empty) :
    ∃ result,
      parseRequestTarget url (StringT.fromBufferWithLength (path ++ 63 :: d :: query)) =
        .ok result ∧
      LoopResult (url.setPath (some (StringT.fromBufferWithLength path)))
        (query.foldl QueryState.next .key) result :=
  parseRequestTarget_loopLeaves keptByTexts_hasValues hp hz url h
    (fun _ he ↦ absurd he List.not_mem_nil)

/-- A target with a query. -/
private theorem parseRequestTarget_query {path query : List UInt8} (hp : 63 ∉ path)
    (hz : 0 ∉ path ++ 63 :: query) (url : UrlT) (h : url.parameters.Represents KeyedList.empty) :
    ∃ result, parseRequestTarget url (StringT.fromBufferWithLength (path ++ 63 :: query)) =
        .ok result ∧ TargetResult url (path ++ 63 :: query) result := by
  cases query with
  | nil =>
    refine ⟨_, parseRequestTarget_bare hp hz url, rfl, rfl, ⟨_, h⟩, ?_,
      fun _ _ ↦ wellFormed_of_path h path⟩
    intro hn
    exact absurd rfl ((targetStoresNull_query_iff hp).mp hn).1
  | cons d query =>
    obtain ⟨result, hparse, hresult⟩ := parseRequestTarget_loopResult hp hz url h
    exact ⟨result, hparse, targetResult_of_loopResult hp hresult⟩

section Parsing

variable [FreshBytes]

/-- The string that a loop over `string_appendChar` makes. -/
def token (b : List UInt8) : StringT := b.foldl StringT.appendChar StringT.create

theorem token_cons {c : UInt8} {b : List UInt8} (hz : 0 ∉ c :: b) :
    token (c :: b) = StringT.fromBufferWithLength (c :: b) :=
  StringCursorT.foldl_appendChar hz (List.cons_ne_nil _ _)

/-- The target is parsed without a fault. -/
theorem parseRequestTarget_spec {target : List UInt8} (hz : 0 ∉ target) (url : UrlT)
    (h : url.parameters.Represents KeyedList.empty) :
    ∃ result, parseRequestTarget url (token target) = .ok result ∧
      TargetResult url target result := by
  cases target with
  | nil =>
    refine ⟨(true, url.setPath none), rfl, rfl, rfl, ⟨_, h⟩, ?_, ?_⟩
    · intro _
      refine ⟨rfl, ?_⟩
      rintro ⟨⟨t, ht, -⟩, -⟩
      cases ht
    · intro _ hn
      exact absurd (.inl rfl) hn
  | cons c target =>
    rw [token_cons hz]
    by_cases hq : 63 ∈ c :: target
    · obtain ⟨path, query, hsplit, hp⟩ := List.eq_append_cons_of_mem hq
      rw [hsplit] at hz ⊢
      exact parseRequestTarget_query hp hz url h
    · exact ⟨_, parseRequestTarget_path (List.cons_ne_nil _ _) hq url, rfl, rfl, ⟨_, h⟩,
        fun hn ↦ absurd hn (not_targetStoresNull hq), fun _ _ ↦ wellFormed_of_path h _⟩

omit [FreshBytes] in
private theorem exists_version_split {text : List UInt8} (hl : 8 ≤ text.length) :
    ∃ name first second third rest, text = name ++ first :: second :: third :: rest ∧
      name.length = 5 := by
  have hrest : ∃ first second third rest, text.drop 5 = first :: second :: third :: rest := by
    match hd : text.drop 5 with
    | first :: second :: third :: rest => exact ⟨first, second, third, rest, rfl⟩
    | [] | [_] | [_, _] =>
      have := congrArg List.length hd
      simp only [List.length_drop, List.length_cons, List.length_nil] at this
      omega
  obtain ⟨first, second, third, rest, hrest⟩ := hrest
  refine ⟨text.take 5, first, second, third, rest, ?_, ?_⟩
  · rw [← hrest, List.take_append_drop]
  · rw [List.length_take]
    omega

/-- The version is read without a fault, it is accepted exactly in the checked form, and it is
the three characters behind the slash. -/
theorem parseVersion_spec {text : List UInt8} (hz : 0 ∉ text) :
    ∃ version, parseVersion (token text) = .ok version ∧
      (version.isSome = true ↔ VersionAccepted text) ∧
      ∀ first third rest, text = ascii "HTTP/" ++ first :: 46 :: third :: rest →
        version.isSome = true →
          version = some (StringT.fromBufferWithLength [first, 46, third]) := by
  by_cases hl : 8 ≤ text.length
  · obtain ⟨name, first, second, third, rest, htext, hlen⟩ := exists_version_split hl
    have hz5 : 0 ∉ name := fun hm ↦ hz (htext ▸ List.mem_append_left _ hm)
    have htoken : token text = StringT.fromBufferWithLength text :=
      StringCursorT.foldl_appendChar hz (List.ne_nil_of_length_pos (by omega))
    have hparse := parseVersion_long _ rest first second third hlen hz5
    rw [← htext] at hparse
    refine ⟨_, by rw [htoken, hparse], ?_, ?_⟩
    · rw [Option.isSome_ite, isVersionNumber_iff]
      constructor
      · rintro ⟨hname, hsecond, hdigits⟩
        refine ⟨first, third, rest, ?_, hdigits⟩
        rw [← hname, ← hsecond, ← htext]
      · rintro ⟨first', third', rest', htext', hdigits⟩
        rw [htext] at htext'
        obtain ⟨hname, htail⟩ := List.append_inj htext' (by rw [hlen]; rfl)
        cases htail
        exact ⟨hname, rfl, hdigits⟩
    · intro first' third' rest' htext' hsome
      rw [Option.isSome_ite] at hsome
      rw [htext] at htext'
      obtain ⟨-, htail⟩ := List.append_inj htext' (by rw [hlen]; rfl)
      cases htail
      rw [if_pos hsome]
  · have hnot : ¬ VersionAccepted text := by
      rintro ⟨first, third, rest, rfl, -⟩
      apply hl
      rw [List.length_append, show (ascii "HTTP/").length = 5 from rfl]
      simp only [List.length_cons]
      omega
    refine ⟨none, ?_, by simpa using hnot, fun _ _ _ _ hsome ↦ by cases hsome⟩
    cases text with
    | nil => rfl
    | cons c text =>
      rw [token_cons hz]
      exact parseVersion_short hz (by omega)

/-- The URL that the target is parsed into. -/
def requestUrl (http : HttpT) : UrlT :=
  (http.url.getD UrlT.create).setProtocol (some (StringT.fromBuffer (ascii "http")))

/-- The URL that the target is parsed into when the message is new. -/
def newUrl : UrlT := UrlT.create.setProtocol (some (StringT.fromBuffer (ascii "http")))

/-- A line without a space is refused. -/
theorem parseRequestLine_no_target {http : HttpT} {line : StringT}
    (h : 32 ∉ cString line.content) : parseRequestLine http line = .ok (false, http) := by
  obtain ⟨cursor, hc⟩ := StringCursorT.appendUntil_of_notMem (StringCursorT.create line)
    (by rw [StringCursorT.rest_create]; exact h)
  rw [parseRequestLine, hc]
  rfl

/-- After the first space: the line is refused, or it has a second one, and the method, the
target and the version are parsed in turn. -/
theorem parseRequestLine_of_tokens (http : HttpT) {line : StringT} {method r : List UInt8}
    (h : line.content = method ++ 32 :: r) (hm : 32 ∉ method) (hz : 0 ∉ method)
    (hne : method ≠ []) :
    (32 ∉ cString r → ∃ http', parseRequestLine http line = .ok (false, http')) ∧
    ∀ target rest, r = target ++ 32 :: rest → 32 ∉ target → 0 ∉ target →
      ∃ m, parseRequestLine http line = (do
        let (correctlyParsed, url) ← parseRequestTarget (requestUrl http) (token target)
        let http : HttpT := { http with method := m, url := some url }
        if correctlyParsed = false then return (false, http)
        else match ← parseVersion (token (cString rest)) with
          | none => return (false, http)
          | some version => return (true, http.setVersion (some version))) := by
  set cursor := (StringCursorT.create line).advance (method.length + 1) with hcursor
  have hfirst : (StringCursorT.create line).appendUntil 32 = (32, token method, cursor) :=
    StringCursorT.appendUntil_of_append _ hm hz (by rw [StringCursorT.rest_create, h])
  have hrest : cursor.rest = r := by
    rw [hcursor, StringCursorT.rest_advance, StringCursorT.rest_create, h, ← List.drop_drop,
      List.drop_left]
    rfl
  obtain ⟨m, hmethod⟩ := parseMethod_ok hz
  have htoken : token method = StringT.fromBufferWithLength method :=
    StringCursorT.foldl_appendChar hz hne
  constructor
  · intro hr
    obtain ⟨cursor', hsecond⟩ := StringCursorT.appendUntil_of_notMem cursor
      (by rw [hrest]; exact hr)
    rw [parseRequestLine, hfirst]
    dsimp only
    rw [if_neg (by decide), htoken, hmethod, checked_ok_bind, hsecond]
    exact ⟨_, rfl⟩
  · intro target rest hr ht htz
    have hsecond := StringCursorT.appendUntil_of_append cursor ht htz (by rw [hrest, hr])
    obtain ⟨cursor', hthird⟩ := StringCursorT.appendUntil_of_notMem
      (cursor.advance (target.length + 1)) (zero_notMem_cString _)
    have hrest' : (cursor.advance (target.length + 1)).rest = rest := by
      rw [StringCursorT.rest_advance, hrest, hr, ← List.drop_drop, List.drop_left]
      rfl
    refine ⟨m, ?_⟩
    rw [parseRequestLine, hfirst]
    dsimp only
    rw [if_neg (by decide), htoken, hmethod, checked_ok_bind, hsecond]
    dsimp only
    rw [if_neg (by decide), hthird, hrest']
    rfl

/-- The same on a new message. -/
theorem parseRequestLine_of_method {line : StringT} {method r : List UInt8}
    (h : line.content = method ++ 32 :: r) (hm : 32 ∉ method) (hz : 0 ∉ method)
    (hne : method ≠ []) :
    (32 ∉ cString r → ∃ http, parseRequestLine HttpT.create line = .ok (false, http)) ∧
    ∀ target rest, r = target ++ 32 :: rest → 32 ∉ target → 0 ∉ target →
      ∃ m, parseRequestLine HttpT.create line = (do
        let (correctlyParsed, url) ← parseRequestTarget newUrl (token target)
        let http : HttpT := { HttpT.create with method := m, url := some url }
        if correctlyParsed = false then return (false, http)
        else match ← parseVersion (token (cString rest)) with
          | none => return (false, http)
          | some version => return (true, http.setVersion (some version))) :=
  parseRequestLine_of_tokens HttpT.create h hm hz hne

/-- A line that starts with a space compares a string without a buffer. -/
theorem parseRequestLine_no_method {http : HttpT} {line : StringT} {r : List UInt8}
    (h : line.content = 32 :: r) : parseRequestLine http line = .error .nullPointer := by
  have hfirst := StringCursorT.appendUntil_of_append (StringCursorT.create line)
    List.not_mem_nil List.not_mem_nil (by rw [StringCursorT.rest_create, h]; rfl)
  rw [parseRequestLine, hfirst]
  rfl

/-- A line with a method, a target that parses and an accepted version is accepted. -/
theorem parseRequestLine_accepted {line : StringT} {method target rest : List UInt8} {url : UrlT}
    (h : line.content = method ++ 32 :: (target ++ 32 :: rest)) (hne : method ≠ [])
    (hm : 32 ∉ method) (hz : 0 ∉ method) (ht : 32 ∉ target) (htz : 0 ∉ target)
    (hversion : VersionAccepted (cString rest))
    (htarget : parseRequestTarget newUrl (token target) = .ok (true, url)) :
    ∃ http, parseRequestLine HttpT.create line = .ok (true, http) ∧ http.url = some url := by
  obtain ⟨m, heq⟩ := (parseRequestLine_of_method h hm hz hne).2 target rest rfl ht htz
  obtain ⟨version, hparse, hiff, -⟩ := parseVersion_spec (zero_notMem_cString rest)
  obtain ⟨v, rfl⟩ := Option.isSome_iff_exists.mp (hiff.mpr hversion)
  rw [htarget, checked_ok_bind, hparse] at heq
  exact ⟨_, heq, rfl⟩

/-- An accepted line has a method, a target and an accepted version, its URL is what the target
leaves, and it sets no header. -/
theorem accepted_cases {line : StringT} {http : HttpT}
    (h : parseRequestLine HttpT.create line = .ok (true, http)) :
    ∃ method target rest url, line.content = method ++ 32 :: (target ++ 32 :: rest) ∧
      method ≠ [] ∧ 32 ∉ method ∧ 0 ∉ method ∧ 32 ∉ target ∧ 0 ∉ target ∧
      VersionAccepted (cString rest) ∧ parseRequestTarget newUrl (token target) = .ok (true, url) ∧
      http.url = some url ∧ http.headers = HashTableT.create := by
  by_cases hs : 32 ∈ cString line.content
  · obtain ⟨method, r, hsplit, hm, hz⟩ := StringCursorT.exists_append_of_mem_cString hs
    by_cases hne : method = []
    · subst hne
      rw [parseRequestLine_no_method hsplit] at h
      cases h
    · obtain ⟨hfalse, hparse⟩ := parseRequestLine_of_method hsplit hm hz hne
      by_cases hs' : 32 ∈ cString r
      · obtain ⟨target, rest, rfl, ht, htz⟩ := StringCursorT.exists_append_of_mem_cString hs'
        obtain ⟨m, heq⟩ := hparse target rest rfl ht htz
        obtain ⟨⟨b, url⟩, htarget, -⟩ :=
          parseRequestTarget_spec htz newUrl HashTableT.represents_create
        obtain ⟨version, hversion, hiff, -⟩ := parseVersion_spec (zero_notMem_cString rest)
        rw [heq, htarget, checked_ok_bind, hversion] at h
        dsimp only at h
        cases b with
        | false => cases h
        | true =>
          cases version with
          | none => cases h
          | some v =>
            cases h
            exact ⟨method, target, rest, url, hsplit, hne, hm, hz, ht, htz, hiff.mp rfl,
              htarget, rfl, rfl⟩
      · obtain ⟨http', hf⟩ := hfalse hs'
        rw [hf] at h
        cases h
  · rw [parseRequestLine_no_target hs] at h
    cases h

/-- An accepted line leaves a well-formed URL unless it is one of the lines in question. -/
theorem acceptedWellFormed_iff (line : StringT) :
    AcceptedWellFormed line ↔ ¬ StoresNull line.content := by
  constructor
  · rintro hall ⟨method, target, rest, hsplit, hne, hm, hz, ht, htz, hversion, hnull⟩
    obtain ⟨⟨b, url⟩, htarget, hresult⟩ :=
      parseRequestTarget_spec htz newUrl HashTableT.represents_create
    obtain ⟨hb, hbad⟩ := hresult.accepted hnull
    dsimp only at hb
    rw [hb] at htarget
    obtain ⟨http, hparse, hurl⟩ :=
      parseRequestLine_accepted hsplit hne hm hz ht htz hversion htarget
    obtain ⟨url', hurl', hwf, -⟩ := hall _ hparse
    rw [hurl] at hurl'
    cases hurl'
    exact hbad hwf
  · intro hn http hparse
    obtain ⟨method, target, rest, url, hsplit, hne, hm, hz, ht, htz, hversion, htarget, hurl,
      -⟩ := accepted_cases hparse
    obtain ⟨result, htarget', hresult⟩ :=
      parseRequestTarget_spec htz newUrl HashTableT.represents_create
    rw [htarget] at htarget'
    cases htarget'
    have hnull : ¬ TargetStoresNull target := fun hnull ↦
      hn ⟨method, target, rest, hsplit, hne, hm, hz, ht, htz, hversion, hnull⟩
    have hwf := hresult.wellFormed rfl hnull
    obtain ⟨m', hrep⟩ := hresult.represents
    obtain ⟨hpath, hvalues⟩ := (UrlT.wellFormed_iff hrep).mp hwf
    have hprotocol : NonNull url.protocol := by
      rw [hresult.protocol]
      exact nonNull_fromBufferWithLength _
    have hintact : UrlT.Intact url m' :=
      ⟨hrep, hvalues, hpath, .inr hprotocol, .inl hresult.domainName⟩
    exact ⟨url, hurl, hwf, hintact.usable⟩

end Parsing

/-- `GET`, an empty target and `HTTP/1.1`: accepted, with a null path. -/
theorem empty_target_not_wellFormed :
    ¬ @AcceptedWellFormed FreshBytes.zero (StringT.fromBuffer (ascii "GET  HTTP/1.1")) := by
  intro h
  obtain ⟨url, hurl, hwf, -⟩ := h _ rfl
  cases hurl
  obtain ⟨path, hpath, -⟩ := hwf.path
  cases hpath

end Wsic.HttpT
