import Wsic.Www.Recognition

/-!
# What is left in the buffer of the key

`page_resolveTemplate` of `src/www/www.c` collects the letters of every placeholder that it
begins in one buffer. When it abandons one, `string_clear` overwrites the first byte and no other,
and the key is looked up as a C string. So behind the key of the placeholder that is completed
stand the letters of longer ones that were abandoned before it.
-/

open CMemory

namespace Wsic.PageT

/-! ### Abandoned placeholders -/

/-- The letters of a text. -/
def lettersOf (w : List UInt8) : List UInt8 := w.filter (fun c ↦ 97 ≤ c ∧ c ≤ 122)

/-- The letters and closing braces at the front of a text. -/
def looseFront (text : List UInt8) : List UInt8 :=
  text.takeWhile (fun c ↦ (97 ≤ c ∧ c ≤ 122) ∨ c = 125)

/-- The letters that are collected behind each pair of opening braces, in order. -/
def attempts : List UInt8 → List (List UInt8)
  | [] => []
  | c :: text =>
    if c = 123 ∧ text.head? = some 123 then lettersOf (looseFront text.tail) :: attempts text
    else attempts text

/-- The bytes of a buffer after another text was written to its front. -/
def overwrite (old new : List UInt8) : List UInt8 := new ++ old.drop new.length

/-- The letters of all attempts, written over each other. -/
def written (text : List UInt8) : List UInt8 := (attempts text).foldl overwrite []

/-- The letters that stand behind a key, when this text came before its placeholder. -/
def leftover (text key : List UInt8) : List UInt8 :=
  if key = [] then [] else (written text).drop key.length

example : leftover (ascii "\x7b\x7babcd \x7b\x7bxyz ") (ascii "k") = ascii "yzd" := by decide

theorem attempts_of_ne {c : UInt8} (h : c ≠ 123) (text : List UInt8) :
    attempts (c :: text) = attempts text := if_neg (fun hand ↦ h hand.1)

theorem attempts_brace {c : UInt8} (h : c ≠ 123) (text : List UInt8) :
    attempts (123 :: c :: text) = attempts text := by
  rw [attempts, if_neg, attempts_of_ne h]
  rintro ⟨-, hc⟩
  exact h (Option.some_inj.mp hc)

/-- Buffers that agree behind their first byte. -/
def Agree (a b : List UInt8) : Prop := ∀ i, a.getD (i + 1) 0 = b.getD (i + 1) 0

theorem getD_overwrite (old new : List UInt8) (i : ℕ) :
    (overwrite old new).getD i 0 = if i < new.length then new.getD i 0 else old.getD i 0 := by
  unfold overwrite
  split
  · next h => exact List.getD_append _ _ _ _ h
  · next h =>
    rw [List.getD_append_right _ _ _ _ (not_lt.mp h), List.getD_eq_getElem?_getD,
      List.getElem?_drop, Nat.add_sub_cancel' (not_lt.mp h), ← List.getD_eq_getElem?_getD]

theorem Agree.overwrite {a b : List UInt8} (h : Agree a b) (new : List UInt8) :
    Agree (overwrite a new) (overwrite b new) := by
  intro i
  rw [getD_overwrite, getD_overwrite, h i]

theorem Agree.foldl {a b : List UInt8} (h : Agree a b) (news : List (List UInt8)) :
    Agree (news.foldl PageT.overwrite a) (news.foldl PageT.overwrite b) := by
  induction news generalizing a b with
  | nil => exact h
  | cons new news ih => exact ih (h.overwrite new)

/-! ### The scan of a text -/

/-- A key is collected only inside of placeholders, behind their braces, and while there is none
the buffer reads as an empty string. -/
structure Collects (s : ScanState) : Prop where
  outside : s.inside = false → s.key = []
  opened : s.previous = 123 → s.key = []
  erased : s.key = [] → s.stale.getD 0 0 = 0

/-- What is left of the open placeholder is written to the buffer of the key. -/
def collected (s : ScanState) (text : List UInt8) : List UInt8 :=
  s.key ++ overwrite s.stale (if s.inside then lettersOf (looseFront text) else [])

/-- The text with the opening brace before it. -/
def withBrace (s : ScanState) (text : List UInt8) : List UInt8 :=
  if s.previous = 123 then 123 :: text else text

theorem collects_init : Collects .init := ⟨fun _ ↦ rfl, fun _ ↦ rfl, fun _ ↦ rfl⟩

theorem read_previous {s s' : ScanState} {c : UInt8} (h : s.read c = some s') :
    s'.previous = c := by
  unfold ScanState.read at h
  split_ifs at h <;> cases h <;> rfl

/-- An attempt begins with the second of two braces only. -/
theorem attempts_withBrace {s s' : ScanState} {c : UInt8} (h : ¬ (s.previous = 123 ∧ c = 123))
    (h' : s'.previous = c) (text : List UInt8) :
    attempts (withBrace s (c :: text)) = attempts (withBrace s' text) := by
  unfold withBrace
  rw [h']
  by_cases hc : c = 123
  · rw [if_neg (fun hp ↦ h ⟨hp, hc⟩), if_pos hc, hc]
  · rw [if_neg hc]
    split
    · exact attempts_brace hc text
    · exact attempts_of_ne hc text

section Fronts

variable {c : UInt8} (text : List UInt8)

theorem lettersOf_looseFront_letter (h : 97 ≤ c ∧ c ≤ 122) :
    lettersOf (looseFront (c :: text)) = c :: lettersOf (looseFront text) := by
  simp [lettersOf, looseFront, h]

theorem lettersOf_looseFront_brace :
    lettersOf (looseFront (125 :: text)) = lettersOf (looseFront text) := by
  simp [lettersOf, looseFront]

theorem lettersOf_looseFront_other (hletter : ¬ (97 ≤ c ∧ c ≤ 122)) (hclose : c ≠ 125) :
    lettersOf (looseFront (c :: text)) = [] := by
  simp [lettersOf, looseFront, hletter, hclose]

end Fronts

theorem Agree.refl (a : List UInt8) : Agree a a := fun _ ↦ rfl

/-- One character: the state collects on. -/
theorem Collects.read {s s' : ScanState} (hs : Collects s) {c : UInt8} (h : s.read c = some s') :
    Collects s' := by
  unfold ScanState.read at h
  split_ifs at h with htwo hinside hletter hne hclosed <;> cases h
  · exact ⟨fun hin ↦ (nomatch hin), fun _ ↦ hs.opened htwo.1, hs.erased⟩
  · refine ⟨fun hin ↦ absurd (hinside.symm.trans hin) (by decide), ?_, fun hnil ↦ ?_⟩
    · rintro rfl
      exact absurd hletter (by decide)
    · exact absurd hnil (List.append_ne_nil_of_right_ne_nil _ (List.cons_ne_nil _ _))
  · exact ⟨fun _ ↦ rfl, fun _ ↦ rfl, fun _ ↦ rfl⟩
  · refine ⟨fun hin ↦ absurd (hinside.symm.trans hin) (by decide), ?_, hs.erased⟩
    rintro rfl
    exact absurd hne (by decide)
  · exact ⟨hs.outside, fun _ ↦ hs.outside (by simpa using hinside), hs.erased⟩

/-- One character: what will have been written is what was. -/
theorem Collects.agree_read {s s' : ScanState} (hs : Collects s) {c : UInt8}
    (h : s.read c = some s') (text : List UInt8) :
    Agree ((attempts (withBrace s' text)).foldl overwrite (collected s' text))
      ((attempts (withBrace s (c :: text))).foldl overwrite (collected s (c :: text))) := by
  by_cases htwo : s.previous = 123 ∧ c = 123
  · -- The second opening brace begins a new attempt.
    obtain ⟨hprevious, rfl⟩ := htwo
    rw [ScanState.read, if_pos ⟨hprevious, rfl⟩] at h
    cases h
    have hfront : lettersOf (looseFront (123 :: text)) = [] :=
      lettersOf_looseFront_other text (by decide) (by decide)
    have hbefore : collected s (123 :: text) = s.stale := by
      unfold collected
      rw [hs.opened hprevious, hfront, ite_self]
      rfl
    have hattempts : attempts (withBrace s (123 :: text)) =
        lettersOf (looseFront text) :: attempts (123 :: text) := by
      rw [withBrace, if_pos hprevious]
      rfl
    rw [hattempts, List.foldl_cons, hbefore]
    unfold collected
    rw [hs.opened hprevious]
    exact .refl _
  · rw [attempts_withBrace htwo (read_previous h)]
    apply Agree.foldl
    unfold ScanState.read at h
    rw [if_neg htwo] at h
    unfold collected
    split_ifs at h with hinside hletter hne hclosed <;> cases h
    · rw [if_pos hinside, if_pos hinside, lettersOf_looseFront_letter text hletter]
      simp only [overwrite, List.append_assoc, List.cons_append, List.length_cons,
        ← List.drop_one, List.drop_drop, Nat.add_comm 1]
      exact .refl _
    · rw [if_pos hinside, lettersOf_looseFront_other text hletter hne]
      intro i
      cases hbytes : s.key ++ s.stale <;> simp [overwrite, hbytes]
    · have hc : c = 125 := not_not.mp hne
      rw [if_pos hinside, if_pos hinside, hc, lettersOf_looseFront_brace]
      exact .refl _
    · rw [if_neg hinside, if_neg hinside]
      exact .refl _

/-- A text in which nothing is completed leaves its attempts in the buffer of the key. -/
theorem Collects.exists_scan_append {s : ScanState} (hs : Collects s) {a : List UInt8}
    (h : scan s a = none) (hz : 0 ∉ a) :
    ∃ s', Collects s' ∧ s'.previous = a.getLast?.getD s.previous ∧
      Agree (s'.key ++ s'.stale) ((attempts (withBrace s a)).foldl overwrite (collected s a)) ∧
      ∀ b, scan s (a ++ b) = scan s' b := by
  induction a generalizing s with
  | nil =>
    refine ⟨s, hs, rfl, ?_, fun _ ↦ rfl⟩
    have hattempts : attempts (withBrace s []) = [] := by
      unfold withBrace
      split <;> rfl
    have hcollected : collected s [] = s.key ++ s.stale := by
      unfold collected
      split <;> rfl
    rw [hattempts, hcollected]
    exact .refl _
  | cons c a ih =>
    have hc : c ≠ 0 := fun he ↦ hz (he ▸ List.mem_cons_self)
    rw [scan, if_neg hc] at h
    cases hread : s.read c with
    | none =>
      rw [hread] at h
      cases h
    | some s₁ =>
      rw [hread] at h
      obtain ⟨s', hs', hprevious, hagree, hscan⟩ :=
        ih (hs.read hread) h (fun hm ↦ hz (List.mem_cons_of_mem _ hm))
      refine ⟨s', hs', ?_, fun i ↦ (hagree i).trans (hs.agree_read hread a i), fun b ↦ ?_⟩
      · rw [hprevious, read_previous hread, List.getLast?_cons, Option.getD_some]
      · rw [List.cons_append, scan, if_neg hc, hread]
        exact hscan b

/-! ### The scan of a placeholder -/

/-- Two opening braces erase the key that was collected. -/
theorem Collects.exists_scan_opening {s : ScanState} (hs : Collects s) (hp : s.previous ≠ 123) :
    ∃ stale, Agree stale (s.key ++ s.stale) ∧ stale.getD 0 0 = 0 ∧
      ∀ b, scan s (123 :: 123 :: b) = scan ⟨true, [], stale, 123⟩ b := by
  by_cases hinside : s.inside = true
  · refine ⟨0 :: (s.key ++ s.stale).tail, ?_, rfl, fun b ↦ ?_⟩
    · intro i
      cases s.key ++ s.stale <;> rfl
    · simp [scan, ScanState.read, hp, hinside]
  · have hkey := hs.outside (by simpa using hinside)
    refine ⟨s.stale, ?_, hs.erased hkey, fun b ↦ ?_⟩
    · rw [hkey]
      exact .refl _
    · simp [scan, ScanState.read, hp, hinside, hkey]

/-- The letters of a key are written over what is in the buffer. -/
theorem scan_key {key : List UInt8} (hkey : Letters key) (collected stale b : List UInt8)
    {previous : UInt8} (hp : previous ≠ 125) :
    scan ⟨true, collected, stale, previous⟩ (key ++ 125 :: 125 :: b) =
      some (cString (collected ++ key ++ stale.drop key.length), b) := by
  induction key generalizing collected stale previous with
  | nil => simp [scan, ScanState.read, hp, ScanState.keyText]
  | cons c key ih =>
    obtain ⟨hc, hletters⟩ := List.forall_mem_cons.mp hkey
    have hne (d : UInt8) (hd : ¬ (97 ≤ d ∧ d ≤ 122)) : c ≠ d := fun he ↦ hd (he ▸ hc)
    have hread : ScanState.read ⟨true, collected, stale, previous⟩ c =
        some ⟨true, collected ++ [c], stale.tail, c⟩ := by
      rw [ScanState.read, if_neg (fun hand ↦ hne 123 (by decide) hand.2), if_pos rfl, if_pos hc]
    rw [List.cons_append, scan, if_neg (hne 0 (by decide)), hread]
    dsimp only
    rw [ih hletters _ _ (hne 125 (by decide)), ← List.drop_one, List.drop_drop]
    simp only [List.append_assoc, List.singleton_append, List.length_cons, Nat.add_comm 1]

/-! ### What is looked up -/

/-- An attempt is what was collected behind two opening braces. -/
theorem exists_of_mem_attempts {text letters : List UInt8} (h : letters ∈ attempts text) :
    ∃ w, Loose w ∧ opening w <:+: text ∧ letters = lettersOf w := by
  induction text with
  | nil => cases h
  | cons c text ih =>
    have hbehind (hmem : letters ∈ attempts text) :
        ∃ w, Loose w ∧ opening w <:+: c :: text ∧ letters = lettersOf w := by
      obtain ⟨w, hw, hinfix, hletters⟩ := ih hmem
      exact ⟨w, hw, hinfix.trans (List.suffix_cons c text).isInfix, hletters⟩
    rw [attempts] at h
    split at h
    · next htwo =>
      rcases List.mem_cons.mp h with rfl | hmem
      · obtain ⟨rfl, hhead⟩ := htwo
        obtain ⟨text, rfl⟩ := List.head?_eq_some_iff.mp hhead
        refine ⟨looseFront text, fun d hd ↦ ?_, ?_, rfl⟩
        · simpa using List.mem_takeWhile_imp hd
        · have hfront : looseFront text <+: text := List.takeWhile_prefix _
          obtain ⟨rest, hrest⟩ := hfront
          exact ⟨[], rest, by simp [opening, hrest]⟩
      · exact hbehind hmem
    · exact hbehind h

private theorem foldl_overwrite_induction {P : List UInt8 → Prop} {news : List (List UInt8)}
    (hstep : ∀ old new, P old → new ∈ news → P (overwrite old new)) {old : List UInt8}
    (hold : P old) : P (news.foldl overwrite old) :=
  List.foldlRecOn news overwrite hold (fun old hold new hmem ↦ hstep old new hold hmem)

/-- Only letters are written. -/
theorem letters_written (text : List UInt8) : Letters (written text) := by
  refine foldl_overwrite_induction ?_ (fun _ hm ↦ nomatch hm)
  intro old new hold hmem c hc
  rcases List.mem_append.mp hc with hc | hc
  · obtain ⟨w, -, -, rfl⟩ := exists_of_mem_attempts hmem
    simpa using (List.mem_filter.mp hc).2
  · exact hold c (List.mem_of_mem_drop hc)

/-- Nothing is left behind a key that is as long as every attempt. -/
theorem leftover_eq_nil {text key : List UInt8}
    (h : ∀ w, Loose w → opening w <:+: text → (lettersOf w).length ≤ key.length) :
    leftover text key = [] := by
  have hlength : (written text).length ≤ key.length := by
    refine @foldl_overwrite_induction (fun l ↦ l.length ≤ key.length) _ ?_ _ (Nat.zero_le _)
    intro old new hold hmem
    obtain ⟨w, hw, hinfix, rfl⟩ := exists_of_mem_attempts hmem
    have hnew := h w hw hinfix
    rw [overwrite, List.length_append, List.length_drop]
    omega
  unfold leftover
  split
  · rfl
  · exact List.drop_eq_nil_of_le hlength

/-- The placeholder behind a text is looked up with what the text has left behind its key. -/
theorem scan_placeholder {a key : List UInt8} (h : scan .init a = none) (hz : 0 ∉ a)
    (hlast : a.getLast? ≠ some 123) (hkey : Letters key) (b : List UInt8) :
    scan .init (a ++ (placeholder key ++ b)) = some (key ++ leftover a key, b) := by
  obtain ⟨s, hs, hprevious, hagree, hscan⟩ := collects_init.exists_scan_append h hz
  have hp : s.previous ≠ 123 := by
    rw [hprevious]
    cases hlast' : a.getLast? with
    | none => decide
    | some c => exact fun hc ↦ hlast (by rw [hlast', ← hc]; rfl)
  obtain ⟨stale, hstale, hzero, hopening⟩ := hs.exists_scan_opening hp
  have htext : placeholder key ++ b = 123 :: 123 :: (key ++ 125 :: 125 :: b) := by
    simp [placeholder]
  have hwritten : Agree stale (written a) := fun i ↦ (hstale i).trans (hagree i)
  have hnul : 0 ∉ key := fun hm ↦ absurd (hkey 0 hm).1 (by decide)
  rw [hscan, htext, hopening, scan_key hkey [] stale b (by decide), List.nil_append,
    cString_append hnul]
  congr 3
  unfold leftover
  split
  · next hnil =>
    rw [hnil, List.length_nil, List.drop_zero]
    cases stale with
    | nil => rfl
    | cons x stale =>
      have hx : x = 0 := hzero
      rw [hx, cString_cons_zero]
  · next hne =>
    have hdrop : ∀ i, (stale.drop key.length).getD i 0 =
        ((written a).drop key.length).getD i 0 := by
      intro i
      obtain ⟨n, hn⟩ := Nat.exists_eq_succ_of_ne_zero (mt List.length_eq_zero_iff.mp hne)
      have hi := hwritten (n + i)
      simp only [List.getD_eq_getElem?_getD, List.getElem?_drop] at hi ⊢
      rwa [hn, Nat.succ_add]
    have hletters : 0 ∉ (written a).drop key.length := by
      intro hm
      exact absurd (letters_written a 0 (List.mem_of_mem_drop hm)).1 (by decide)
    rw [cString_congr hdrop, cString_eq_self hletters]

/-! ### The inserted text -/

/-- The table has the same text for the key as for what is looked up in its place: nothing is
left behind the key, or what is left makes no difference. -/
def KeyIntact (m : HashTableT.Map (Option StringT)) (a key : List UInt8) : Prop :=
  key = [] ∨ (∀ w, Loose w → opening w <:+: a → (lettersOf w).length ≤ key.length) ∨
    lookup m (key ++ leftover a key) = lookup m key

theorem keyIntact_iff {m : HashTableT.Map (Option StringT)} {a key : List UInt8} :
    KeyIntact m a key ↔ lookup m (key ++ leftover a key) = lookup m key := by
  constructor
  · rintro (rfl | hlonger | hsame)
    · rfl
    · rw [leftover_eq_nil hlonger, List.append_nil]
    · exact hsame
  · exact fun hsame ↦ .inr (.inr hsame)

section Inserted

variable [FreshBytes] {page page' : PageT} {source : StringT}
  {templates : HashTableT (Option StringT)} {m : HashTableT.Map (Option StringT)} {offset : ℕ}
  {a key b : List UInt8}

/-- The round has put in the place of the placeholder behind `a` the value that the table has
under its key, or nothing if it has none. -/
def InsertsValue (page' : PageT) (source : StringT) (templates : HashTableT (Option StringT))
    (offset : ℕ) (a key b : List UInt8) : Prop :=
  ∃ value templates' source', templates.getValue (StringT.fromBuffer key) =
      .ok (value, templates') ∧ page'.source = some source' ∧
    source'.content = source.content.take (offset + a.length) ++ (valueText value.join ++ b)

/-- A placeholder that is complete in `a` would have been replaced instead. -/
private theorem scan_none_of_resolveTemplate (hsource : page.source = some source)
    (htext : source.content.drop offset = a ++ b) (htemplates : page.templates = some templates)
    (hrep : templates.Represents m)
    (hcall : page.resolveTemplate offset = .ok (some (offset + a.length), page')) :
    scan .init a = none := by
  cases hfound : scan .init a with
  | none => rfl
  | some found =>
    have hfull := scan_append_of_some hfound b
    rw [← htext] at hfull
    obtain ⟨start, source', templates', hresolve, hlt, -⟩ :=
      resolveTemplate_of_scan hsource htemplates hrep hfull
    rw [hcall] at hresolve
    cases hresolve
    have hlength := congrArg List.length htext
    rw [List.length_drop, StringT.length_content, List.length_append] at hlength
    rw [List.length_append] at hlt
    omega

/-- When a round replaces the placeholder behind `a`, it inserts the value of its key if and only
if the key is intact. -/
theorem insertsValue_iff (hsource : page.source = some source)
    (htext : source.content.drop offset = a ++ (placeholder key ++ b))
    (htemplates : page.templates = some templates) (hrep : templates.Represents m)
    (hz : 0 ∉ a) (hlast : a.getLast? ≠ some 123) (hkey : Letters key)
    (hcall : page.resolveTemplate offset = .ok (some (offset + a.length), page')) :
    InsertsValue page' source templates offset a key b ↔ KeyIntact m a key := by
  have hnone := scan_none_of_resolveTemplate hsource htext htemplates hrep hcall
  have hscan := scan_placeholder hnone hz hlast hkey b
  rw [← htext] at hscan
  obtain ⟨start, source', templates', hresolve, -, hcontent, -⟩ :=
    resolveTemplate_of_scan hsource htemplates hrep hscan
  rw [hcall] at hresolve
  cases hresolve
  obtain ⟨templates'', hget, -⟩ := hrep.getValue (HashTableT.freshKey key)
  rw [HashTableT.hash_freshKey] at hget
  have hfresh : StringT.fromBuffer key = (HashTableT.freshKey key).1 := by
    rw [StringT.fromBuffer, cString_eq_self (fun hm ↦ absurd (hkey 0 hm).1 (by decide))]
    rfl
  rw [← hfresh] at hget
  rw [keyIntact_iff]
  constructor
  · rintro ⟨value, _, _, hvalue, ⟨⟩, hinserted⟩
    rw [hget] at hvalue
    cases hvalue
    rw [hcontent] at hinserted
    exact List.append_cancel_right (List.append_cancel_left hinserted)
  · intro hsame
    refine ⟨_, _, source', hget, rfl, ?_⟩
    rw [hcontent, hsame]
    rfl

end Inserted

/-- The entries with the value `1` for `x`. -/
def xTemplates : HashTableT.Map (Option StringT) :=
  KeyedList.empty.set (HashTableT.entryOf (HashTableT.freshKey (ascii "x"))
    (some (StringT.fromBuffer (ascii "1"))))

/-- A table with these entries. -/
def xTable : HashTableT (Option StringT) :=
  match HashTableT.create.setValue (StringT.fromBuffer (ascii "x"))
    (some (StringT.fromBuffer (ascii "1"))) with
  | .ok (_, table) => table
  | .error _ => HashTableT.create

theorem xTable_represents : xTable.Represents xTemplates := by
  obtain ⟨table, hset, hrep⟩ := HashTableT.represents_create.setValue
    (HashTableT.freshKey (ascii "x")) (some (StringT.fromBuffer (ascii "1")))
  have hfresh : StringT.fromBuffer (ascii "x") = (HashTableT.freshKey (ascii "x")).1 := by decide
  rw [xTable, hfresh, hset]
  exact hrep

/-- In `{{a {{x}}` nothing of the first key is left behind the second one. -/
theorem insertsValue_short : ∃ page', @resolveTemplate FreshBytes.zero
      ⟨some (StringT.fromBuffer (ascii "\x7b\x7ba \x7b\x7bx\x7d\x7d")), some xTable⟩ 0 =
        .ok (some 4, page') ∧
      InsertsValue page' (StringT.fromBuffer (ascii "\x7b\x7ba \x7b\x7bx\x7d\x7d")) xTable 0
        (ascii "\x7b\x7ba ") (ascii "x") [] := by
  have hstart : (@resolveTemplate FreshBytes.zero
      ⟨some (StringT.fromBuffer (ascii "\x7b\x7ba \x7b\x7bx\x7d\x7d")), some xTable⟩ 0).map
        Prod.fst = .ok (some 4) := by decide +kernel
  obtain ⟨_, -, ⟨⟩⟩ | ⟨_, page', hcall, ⟨⟩⟩ := checked_fst_cases hstart
  refine ⟨page', hcall, ?_⟩
  exact (@insertsValue_iff FreshBytes.zero _ page' _ xTable xTemplates 0 (ascii "\x7b\x7ba ")
    (ascii "x") [] rfl (by decide) rfl xTable_represents (by decide) (by decide) (by decide)
    hcall).mpr (.inr (.inr (by decide +kernel)))

/-- In `{{ab {{x}}` the second letter of the first key is left behind the second one, and nothing
is inserted for `xb`. -/
theorem longer_key_not_insertsValue : ∃ page', @resolveTemplate FreshBytes.zero
      ⟨some (StringT.fromBuffer (ascii "\x7b\x7bab \x7b\x7bx\x7d\x7d")), some xTable⟩ 0 =
        .ok (some 5, page') ∧
      ¬ InsertsValue page' (StringT.fromBuffer (ascii "\x7b\x7bab \x7b\x7bx\x7d\x7d")) xTable 0
        (ascii "\x7b\x7bab ") (ascii "x") [] := by
  have hcontent : (@resolveTemplate FreshBytes.zero
      ⟨some (StringT.fromBuffer (ascii "\x7b\x7bab \x7b\x7bx\x7d\x7d")), some xTable⟩ 0).map
        (fun r ↦ (r.1, r.2.source.map StringT.content)) =
      .ok (some 5, some (ascii "\x7b\x7bab ")) := by decide +kernel
  have hvalue : (xTable.getValue (StringT.fromBuffer (ascii "x"))).map Prod.fst =
      .ok (some (some (StringT.fromBuffer (ascii "1")))) := by decide +kernel
  cases hcall : @resolveTemplate FreshBytes.zero
      ⟨some (StringT.fromBuffer (ascii "\x7b\x7bab \x7b\x7bx\x7d\x7d")), some xTable⟩ 0 with
  | error fault =>
    rw [hcall] at hcontent
    cases hcontent
  | ok result =>
    obtain ⟨start, page'⟩ := result
    rw [hcall, checked_ok_map] at hcontent
    injection hcontent with hpair
    injection hpair with hstart hsource
    dsimp only at hstart hsource
    subst hstart
    refine ⟨page', rfl, ?_⟩
    rintro ⟨value, _, source', hget, hsource', hinserted⟩
    rw [hget, checked_ok_map] at hvalue
    cases Except.ok.inj hvalue
    rw [hsource', Option.map_some] at hsource
    rw [Option.some_inj.mp hsource] at hinserted
    exact absurd hinserted (by decide)

end Wsic.PageT
