import Wsic.Www.Templates

/-!
# Recognition of placeholders

Which part of the source `page_resolveTemplate` of `src/www/www.c` takes for the first
placeholder. A closing brace that is not followed by another one does not end an open
placeholder, so the scan finds the first part `{{w}}` with letters and closing braces in `w`.
This is the first placeholder unless a part of the first kind comes before it.
-/

open CMemory

namespace Wsic.PageT

/-- Letters and closing braces. -/
def Loose (w : List UInt8) : Prop := ∀ c ∈ w, (97 ≤ c ∧ c ≤ 122) ∨ c = 125

instance (w : List UInt8) : Decidable (Loose w) := List.decidableBAll _ w

/-- What opens a placeholder, with what has been read of its key. -/
def opening (w : List UInt8) : List UInt8 := 123 :: 123 :: w

theorem Letters.loose {key : List UInt8} (h : Letters key) : Loose key := fun c hc ↦ .inl (h c hc)

theorem loose_concat {w : List UInt8} {c : UInt8} :
    Loose (w ++ [c]) ↔ Loose w ∧ ((97 ≤ c ∧ c ≤ 122) ∨ c = 125) := by
  simp [Loose, or_imp, forall_and]

theorem opening_concat (w : List UInt8) (c : UInt8) : opening (w ++ [c]) = opening w ++ [c] := rfl

theorem placeholder_eq (w : List UInt8) : placeholder w = opening (w ++ [125]) ++ [125] := by
  simp [placeholder, opening]

/-! ### One more character -/

section Concat

variable {done w : List UInt8} {c : UInt8}

/-- A placeholder that has just been opened, or one that is read on. -/
theorem opening_suffix_concat (h : opening w <:+ done ++ [c]) :
    (w = [] ∧ c = 123 ∧ done.getLast? = some 123) ∨ ∃ v, w = v ++ [c] ∧ opening v <:+ done := by
  obtain hnil | ⟨t, ht, hsuffix⟩ := List.suffix_concat_iff.mp h
  · cases hnil
  · rcases List.eq_nil_or_concat w with rfl | ⟨v, d, rfl⟩
    · have htwo : [123] ++ [123] = t ++ [c] := ht
      obtain ⟨rfl, hc⟩ := List.append_inj' htwo rfl
      obtain ⟨before, rfl⟩ := hsuffix
      exact .inl ⟨rfl, (List.singleton_inj.mp hc).symm, by simp⟩
    · rw [List.concat_eq_append, opening_concat] at ht
      obtain ⟨rfl, hc⟩ := List.append_inj' ht rfl
      exact .inr ⟨v, by rw [List.concat_eq_append, hc], hsuffix⟩

/-- The second closing brace of a placeholder. -/
theorem placeholder_suffix_concat (h : placeholder w <:+ done ++ [c]) :
    c = 125 ∧ opening (w ++ [125]) <:+ done := by
  rw [placeholder_eq] at h
  obtain hnil | ⟨t, ht, hsuffix⟩ := List.suffix_concat_iff.mp h
  · cases hnil
  · obtain ⟨rfl, hc⟩ := List.append_inj' ht rfl
    exact ⟨(List.singleton_inj.mp hc).symm, hsuffix⟩

theorem getLast?_of_opening_suffix (h : opening (w ++ [c]) <:+ done) :
    done.getLast? = some c := by
  obtain ⟨before, rfl⟩ := h
  rw [opening_concat, ← List.append_assoc, List.getLast?_concat]

/-- Two closing braces at the end. -/
theorem braces_infix_concat (h : ¬ [125, 125] <:+: w)
    (hc : ¬ (c = 125 ∧ w.getLast? = some 125)) : ¬ [125, 125] <:+: w ++ [c] := by
  intro hinfix
  obtain hsuffix | hinfix := List.infix_concat_iff.mp hinfix
  · obtain hnil | ⟨t, ht, ⟨before, rfl⟩⟩ := List.suffix_concat_iff.mp hsuffix
    · cases hnil
    · have htwo : [125] ++ [125] = t ++ [c] := ht
      obtain ⟨rfl, hlast⟩ := List.append_inj' htwo rfl
      exact hc ⟨(List.singleton_inj.mp hlast).symm, by simp⟩
  · exact h hinfix

end Concat

/-! ### The scan -/

/-- What the variables of the scan say about the text that was read from an offset: nothing is
complete, and the end of the text is an open placeholder or not. -/
structure ScanT.Reads (scan : ScanT) (offset : ℕ) (done : List UInt8) : Prop where
  previous : scan.previous = done.getLast?.getD 0
  outside : scan.templateStart = none → ∀ w, Loose w → ¬ opening w <:+ done
  inside : ∀ start, scan.templateStart = some start → ∃ before w, done = before ++ opening w ∧
    start = offset + before.length ∧ Loose w ∧ ¬ [125, 125] <:+: w
  unclosed : ∀ w, Loose w → ¬ placeholder w <:+: done

namespace ScanT.Reads

variable {scan : ScanT} {offset : ℕ} {done : List UInt8} {c : UInt8}

theorem init (key : StringT) (offset : ℕ) : Reads ⟨key, none, 0⟩ offset [] where
  previous := rfl
  outside := by
    intro _ w _ hsuffix
    cases List.suffix_nil.mp hsuffix
  inside := by rintro _ ⟨⟩
  unclosed := by
    intro w _ hinfix
    cases List.infix_nil.mp hinfix

theorem getLast? (h : scan.Reads offset done) (hc : c ≠ 0) :
    scan.previous = c ↔ done.getLast? = some c := by
  rw [h.previous]
  cases done.getLast? with
  | none => exact iff_of_false (fun hz ↦ hc hz.symm) (Option.some_ne_none c).symm
  | some d => simp

/-- Nothing is completed by a character that is not a second closing brace. -/
private theorem unclosed_concat (h : scan.Reads offset done)
    (hc : c = 125 → ∀ w, Loose w → ¬ opening (w ++ [125]) <:+ done) :
    ∀ w, Loose w → ¬ placeholder w <:+: done ++ [c] := by
  intro w hw hinfix
  obtain hsuffix | hinfix := List.infix_concat_iff.mp hinfix
  · obtain ⟨hclose, hopen⟩ := placeholder_suffix_concat hsuffix
    exact hc hclose w hw hopen
  · exact h.unclosed w hw hinfix

/-- The second opening brace. -/
private theorem opens (h : scan.Reads offset done) (hlast : done.getLast? = some 123) :
    Reads ⟨scan.templateKey, some (offset + done.length + 1 - 2), 123⟩ offset (done ++ [123]) where
  previous := by simp
  outside := by rintro ⟨⟩
  inside := by
    rintro _ ⟨⟩
    obtain ⟨before, rfl⟩ := List.getLast?_eq_some_iff.mp hlast
    refine ⟨before, [], by simp [opening], ?_, fun _ hm ↦ (nomatch hm), by decide⟩
    rw [List.length_append, List.length_singleton]
    omega
  unclosed := h.unclosed_concat (by rintro ⟨⟩)

/-- Outside of placeholders. -/
private theorem passes (h : scan.Reads offset done) (hstart : scan.templateStart = none)
    (hc : ¬ (done.getLast? = some 123 ∧ c = 123)) :
    Reads ⟨scan.templateKey, none, c⟩ offset (done ++ [c]) where
  previous := by simp
  outside := by
    intro _ w hw hsuffix
    obtain ⟨-, hopen, hlast⟩ | ⟨v, rfl, hdone⟩ := opening_suffix_concat hsuffix
    · exact hc ⟨hlast, hopen⟩
    · exact h.outside hstart v (loose_concat.mp hw).1 hdone
  inside := by rintro _ ⟨⟩
  unclosed := h.unclosed_concat (fun _ w hw hsuffix ↦
    h.outside hstart _ (loose_concat.mpr ⟨hw, .inr rfl⟩) hsuffix)

/-- A character that ends an open placeholder. -/
private theorem abandons (h : scan.Reads offset done)
    (hc : ¬ (done.getLast? = some 123 ∧ c = 123)) (hletter : ¬ (97 ≤ c ∧ c ≤ 122))
    (hclose : c ≠ 125) (key : StringT) : Reads ⟨key, none, c⟩ offset (done ++ [c]) where
  previous := by simp
  outside := by
    intro _ w hw hsuffix
    obtain ⟨-, hopen, hlast⟩ | ⟨v, rfl, -⟩ := opening_suffix_concat hsuffix
    · exact hc ⟨hlast, hopen⟩
    · exact (loose_concat.mp hw).2.elim hletter hclose
  inside := by rintro _ ⟨⟩
  unclosed := h.unclosed_concat (fun hc' ↦ absurd hc' hclose)

/-- A character that belongs to an open placeholder: a letter or a first closing brace. -/
private theorem continues (h : scan.Reads offset done) {start : ℕ}
    (hstart : scan.templateStart = some start) (hloose : (97 ≤ c ∧ c ≤ 122) ∨ c = 125)
    (hclose : ¬ (c = 125 ∧ done.getLast? = some 125)) (key : StringT) :
    Reads ⟨key, some start, c⟩ offset (done ++ [c]) where
  previous := by simp
  outside := by rintro ⟨⟩
  inside := by
    rintro _ ⟨⟩
    obtain ⟨before, w, rfl, hbefore, hw, hbraces⟩ := h.inside start hstart
    refine ⟨before, w ++ [c], ?_, hbefore, loose_concat.mpr ⟨hw, hloose⟩,
      braces_infix_concat hbraces ?_⟩
    · rw [List.append_assoc, opening_concat]
    · rintro ⟨rfl, hlast⟩
      obtain ⟨v, rfl⟩ := List.getLast?_eq_some_iff.mp hlast
      exact hclose ⟨rfl, getLast?_of_opening_suffix (List.suffix_append _ _)⟩
  unclosed := h.unclosed_concat (fun hc w _ hsuffix ↦
    hclose ⟨hc, getLast?_of_opening_suffix hsuffix⟩)

/-- The second closing brace. -/
private theorem closes (h : scan.Reads offset done) {start : ℕ}
    (hstart : scan.templateStart = some start) (hlast : done.getLast? = some 125) :
    ∃ before w, done ++ [125] = before ++ placeholder w ∧ start = offset + before.length ∧
      Loose w ∧ ¬ [125, 125] <:+: w ++ [125] := by
  obtain ⟨before, w, rfl, hbefore, hw, hbraces⟩ := h.inside start hstart
  rcases List.eq_nil_or_concat w with rfl | ⟨v, d, rfl⟩
  · simp [opening] at hlast
  · rw [List.concat_eq_append] at hlast hw hbraces ⊢
    rw [getLast?_of_opening_suffix (List.suffix_append _ _)] at hlast
    cases hlast
    refine ⟨before, v, ?_, hbefore, (loose_concat.mp hw).1, hbraces⟩
    rw [placeholder_eq, List.append_assoc]

/-- One character of the text. -/
theorem read [FreshBytes] (h : scan.Reads offset done) (c : UInt8) :
    (∃ scan', scan.read c (offset + done.length + 1) = some scan' ∧
      scan'.Reads offset (done ++ [c])) ∨
    (scan.read c (offset + done.length + 1) = none ∧
      ∃ before w, done ++ [c] = before ++ placeholder w ∧
        scan.templateStart = some (offset + before.length) ∧ Loose w ∧
        ¬ [125, 125] <:+: w ++ [125]) := by
  have hopen := h.getLast? (show (123 : UInt8) ≠ 0 by decide)
  have hclosed := h.getLast? (show (125 : UInt8) ≠ 0 by decide)
  unfold ScanT.read
  split
  · next htwo =>
    obtain ⟨hprevious, rfl⟩ := htwo
    exact .inl ⟨_, rfl, h.opens (hopen.mp hprevious)⟩
  · next htwo =>
    rw [hopen] at htwo
    cases hstart : scan.templateStart with
    | none => exact .inl ⟨_, rfl, h.passes hstart htwo⟩
    | some start =>
      dsimp only
      split
      · next hletter =>
        refine .inl ⟨_, rfl, h.continues hstart (.inl hletter) ?_ _⟩
        rintro ⟨rfl, -⟩
        exact absurd hletter (by decide)
      · next hletter =>
        split
        · next hne => exact .inl ⟨_, rfl, h.abandons htwo hletter hne _⟩
        · next heq =>
          have hc : c = 125 := not_not.mp heq
          split
          · next hprevious =>
            subst hc
            obtain ⟨before, w, hdone, rfl, hw, hbraces⟩ := h.closes hstart (hclosed.mp hprevious)
            exact .inr ⟨rfl, before, w, hdone, rfl, hw, hbraces⟩
          · next hprevious =>
            rw [hclosed] at hprevious
            exact .inl ⟨_, rfl, h.continues hstart (.inr hc) (fun hand ↦ hprevious hand.2) _⟩

end ScanT.Reads

/-- The first part `{{w}}` of a text with letters and closing braces in `w`. -/
structure FirstLoose (text before w rest : List UInt8) : Prop where
  text_eq : text = before ++ (placeholder w ++ rest)
  loose : Loose w
  braces : ¬ [125, 125] <:+: w ++ [125]
  first : ∀ v, Loose v → ¬ placeholder v <:+: before ++ opening (w ++ [125])

theorem FirstLoose.drop_eq {text before w rest : List UInt8} (h : FirstLoose text before w rest) :
    text.drop (before.length + w.length + 4) = rest := by
  rw [h.text_eq, ← List.append_assoc]
  apply List.drop_left'
  rw [List.length_append, length_placeholder, Nat.add_assoc]

/-- What is completed first is the first part. -/
private theorem ScanT.Reads.firstLoose {scan : ScanT} {offset : ℕ} {done before w : List UInt8}
    {c : UInt8} (h : scan.Reads offset done) (hdone : done ++ [c] = before ++ placeholder w)
    (hw : Loose w) (hbraces : ¬ [125, 125] <:+: w ++ [125]) (text : List UInt8) :
    FirstLoose (done ++ c :: text) before w text ∧
      done.length = before.length + w.length + 3 := by
  have htext : done ++ c :: text = before ++ (placeholder w ++ text) := by
    rw [← List.append_assoc, ← hdone, List.append_assoc]
    rfl
  rw [placeholder_eq, ← List.append_assoc] at hdone
  obtain ⟨rfl, -⟩ := List.append_inj' hdone rfl
  refine ⟨⟨htext, hw, hbraces, h.unclosed⟩, ?_⟩
  simp [opening]
  omega

/-- The scan finds the first part of this kind. -/
theorem scanLoop_reads [FreshBytes] {rounds offset : ℕ} {cursor : StringCursorT} {scan : ScanT}
    {done : List UInt8} (h : scan.Reads offset done)
    (hoffset : cursor.offset = offset + done.length) (hrounds : cursor.rest.length ≤ rounds)
    (hz : 0 ∉ cursor.rest) :
    (scanLoop rounds cursor scan = none ∧
      ∀ w, Loose w → ¬ placeholder w <:+: done ++ cursor.rest) ∨
    ∃ scan' before w rest, FirstLoose (done ++ cursor.rest) before w rest ∧
      scanLoop rounds cursor scan = some (scan', offset + before.length + w.length + 3) ∧
      scan'.templateStart = some (offset + before.length) := by
  induction rounds generalizing cursor scan done with
  | zero =>
    have hrest : cursor.rest = [] := List.eq_nil_of_length_eq_zero (Nat.le_zero.mp hrounds)
    rw [hrest, List.append_nil]
    exact .inl ⟨rfl, h.unclosed⟩
  | succ rounds ih =>
    rw [scanLoop]
    cases hrest : cursor.rest with
    | nil =>
      rw [StringCursorT.getNextChar_nil hrest, List.append_nil]
      exact .inl ⟨rfl, h.unclosed⟩
    | cons c text =>
      rw [hrest, List.length_cons] at hrounds
      rw [hrest, List.mem_cons, not_or] at hz
      rw [StringCursorT.getNextChar_cons hrest]
      dsimp only
      rw [if_neg (fun hc ↦ hz.1 hc.symm)]
      have hnext : (cursor.advance 1).rest = text := by
        rw [StringCursorT.rest_advance, hrest]
        rfl
      have hbehind : (cursor.advance 1).offset = offset + done.length + 1 := by
        rw [← hoffset]
        rfl
      rw [hbehind]
      obtain ⟨scan', hread, hreads⟩ | ⟨hread, before, w, hdone, hstart, hw, hbraces⟩ := h.read c
      · rw [hread]
        have hlength : (cursor.advance 1).offset = offset + (done ++ [c]).length := by
          rw [hbehind, List.length_append]
          rfl
        have hloop := ih hreads hlength (by rw [hnext]; omega) (by rw [hnext]; exact hz.2)
        rwa [hnext, List.append_assoc] at hloop
      · rw [hread]
        obtain ⟨hfirst, hlength⟩ := h.firstLoose hdone hw hbraces text
        refine .inr ⟨scan, before, w, text, hfirst, ?_, hstart⟩
        have hend : offset + done.length + 1 - 1 = offset + before.length + w.length + 3 := by
          omega
        rw [hend]

/-- One round on a source without NUL. -/
theorem resolveTemplate_reads [FreshBytes] {page : PageT} {source : StringT}
    (hsource : page.source = some source) {templates : HashTableT (Option StringT)}
    (htemplates : page.templates = some templates) {m : HashTableT.Map (Option StringT)}
    (hrep : templates.Represents m) (hz : 0 ∉ source.content) (offset : ℕ) :
    (page.resolveTemplate offset = .ok (none, page) ∧
      ∀ w, Loose w → ¬ placeholder w <:+: source.content.drop offset) ∨
    ∃ before w rest key page' source', FirstLoose (source.content.drop offset) before w rest ∧
      scan .init (source.content.drop offset) = some (key, rest) ∧
      page.resolveTemplate offset = .ok (some (offset + before.length), page') ∧
      page'.source = some source' ∧
      source'.content = source.content.take (offset + before.length) ++ lookup m key ++ rest := by
  have hrest : (StringCursorT.mk source offset).rest = source.content.drop offset := rfl
  have hzrest : 0 ∉ (StringCursorT.mk source offset).rest :=
    fun hm ↦ hz (List.mem_of_mem_drop hm)
  have hlength := Nat.le_of_eq (StringCursorT.length_rest ⟨source, offset⟩)
  have hreads := scanLoop_reads (ScanT.Reads.init (StringT.create.setBufferSize 100) offset)
    (show (StringCursorT.mk source offset).offset = _ from rfl) hlength hzrest
  rw [List.nil_append, hrest] at hreads
  cases hscan : scan .init (source.content.drop offset) with
  | none =>
    have hloop := @scanLoop_of_none _ (source.size - offset) ⟨source, offset⟩ _ _
      (shows_init offset) hscan
    obtain ⟨-, hnone⟩ | ⟨scan', before, w, rest, -, hsome, -⟩ := hreads
    · refine .inl ⟨?_, hnone⟩
      rw [resolveTemplate, hsource, deref_some, checked_ok_bind, hloop]
      rfl
    · dsimp only at hsome
      rw [hloop] at hsome
      cases hsome
  | some found =>
    obtain ⟨key, rest⟩ := found
    obtain ⟨scan', templateEnd, start, hloop, hstart, hle, hlt, hdrop, hbuffer, hkey⟩ :=
      @scanLoop_of_some _ _ ⟨source, offset⟩ _ _ _ _ hlength (shows_init offset) hscan
    dsimp only at hlt hdrop hloop hreads
    rw [hloop] at hreads
    obtain ⟨hnone, -⟩ | ⟨_, before, w, rest', hfirst, hsome, hstart'⟩ := hreads
    · cases hnone
    · cases hsome
      cases Option.some_inj.mp (hstart.symm.trans hstart')
      obtain rfl : rest' = rest := by
        rw [← hdrop, ← hfirst.drop_eq, List.drop_drop]
        congr 1
        omega
      obtain ⟨templates', hget, -⟩ := getValue_of_cString hrep hbuffer hkey
      refine .inr ⟨before, w, rest', key, _, _, hfirst, rfl,
        resolveTemplate_of_scanLoop hsource htemplates hloop hstart hget, rfl, ?_⟩
      rw [content_replaceTemplate source _ hle hlt, hdrop]
      rfl

/-! ### The first placeholder -/

/-- The text has a placeholder behind `before`. -/
structure HasPlaceholder (text before key rest : List UInt8) : Prop where
  text_eq : text = before ++ (placeholder key ++ rest)
  letters : Letters key

/-- The first placeholder of a text. -/
structure FirstPlaceholder (text before key rest : List UInt8) : Prop
    extends HasPlaceholder text before key rest where
  first : ∀ before' key' rest', HasPlaceholder text before' key' rest' →
    before.length ≤ before'.length

theorem exists_firstPlaceholder {text before key rest : List UInt8}
    (h : HasPlaceholder text before key rest) :
    ∃ before key rest, FirstPlaceholder text before key rest := by
  induction hn : before.length using Nat.strong_induction_on generalizing before key rest with
  | _ n ih =>
    by_cases hearlier : ∃ before' key' rest', HasPlaceholder text before' key' rest' ∧
        before'.length < before.length
    · obtain ⟨before', key', rest', h', hlt⟩ := hearlier
      exact ih before'.length (hn ▸ hlt) h' rfl
    · refine ⟨before, key, rest, h, fun before' key' rest' h' ↦ ?_⟩
      by_contra hlt
      exact hearlier ⟨before', key', rest', h', not_le.mp hlt⟩

namespace FirstLoose

variable {text before w rest : List UInt8}

/-- No other part of this kind starts before it: an opening brace stands only at the start. -/
theorem length_le (h : FirstLoose text before w rest) {before' v rest' : List UInt8}
    (hv : Loose v) (htext : text = before' ++ (placeholder v ++ rest')) :
    before.length ≤ before'.length := by
  by_contra hlt
  by_cases hend : before'.length + v.length + 4 ≤ before.length + w.length + 3
  · -- The other part ends before the last brace of the first one.
    have hleft : before' ++ placeholder v <+: text := ⟨rest', by rw [htext, List.append_assoc]⟩
    have hright : before ++ opening (w ++ [125]) <+: text := by
      refine ⟨125 :: rest, ?_⟩
      rw [h.text_eq, placeholder_eq]
      simp
    have hprefix := List.prefix_of_prefix_length_le hleft hright (by
      simp only [List.length_append, length_placeholder, opening, List.length_cons,
        List.length_nil]
      omega)
    exact h.first v hv ((List.suffix_append _ _).isInfix.trans hprefix.isInfix)
  · -- The second opening brace of the first part is inside the key of the other one.
    obtain ⟨q, hq⟩ : ∃ q, before.length = before'.length + 1 + q :=
      Nat.exists_eq_add_of_le (by omega)
    have hbrace : text[before.length + 1]? = some 123 := by
      rw [h.text_eq, List.getElem?_append_right (Nat.le_add_right _ 1), Nat.add_sub_cancel_left]
      rfl
    have hkey : text[before.length + 1]? = (v ++ [125, 125])[q]? := by
      have hopening : before' ++ (placeholder v ++ rest') =
          (before' ++ [123, 123]) ++ ((v ++ [125, 125]) ++ rest') := by simp [placeholder]
      rw [htext, hopening, List.getElem?_append_right (by simp; omega),
        List.getElem?_append_left (by simp; omega)]
      congr 1
      simp
      omega
    rw [hkey] at hbrace
    rcases List.mem_append.mp (List.mem_of_getElem? hbrace) with hmem | hmem
    · exact absurd (hv 123 hmem) (by decide)
    · exact absurd hmem (by decide)

theorem before_eq {before' v rest' : List UInt8} (h : FirstLoose text before w rest)
    (hv : Loose v) (htext : text = before' ++ (placeholder v ++ rest'))
    (hle : before'.length ≤ before.length) : before' = before := by
  have hlength := Nat.le_antisymm hle (h.length_le hv htext)
  rw [h.text_eq] at htext
  exact (List.append_inj htext.symm hlength).1

/-- With other characters than letters in it, it is not where a placeholder is. -/
theorem not_hasPlaceholder (h : FirstLoose text before w rest) (hw : ¬ Letters w)
    {key rest' : List UInt8} : ¬ HasPlaceholder text before key rest' := by
  rintro ⟨htext, hkey⟩
  have hclosed : 125 ∈ w := by
    by_contra hnot
    apply hw
    intro c hc
    exact (h.loose c hc).resolve_right (fun he ↦ hnot (he ▸ hc))
  obtain ⟨letters, others, rfl, hletters⟩ := List.eq_append_cons_of_mem hclosed
  have hnot : 125 ∉ key := fun hm ↦ absurd (hkey 125 hm).2 (by decide)
  have hsame : letters ++ 125 :: (others ++ 125 :: 125 :: rest) = key ++ 125 :: 125 :: rest' := by
    have hcancel := List.append_cancel_left (h.text_eq.symm.trans htext)
    simpa [placeholder] using hcancel
  obtain ⟨rfl, hothers⟩ := append_cons_unique hletters hnot hsame
  apply h.braces
  cases others with
  | nil => exact (List.suffix_append letters [125, 125]).isInfix.trans (by simp)
  | cons d others =>
    obtain ⟨rfl, -⟩ := List.cons.inj hothers
    exact ⟨letters, others ++ [125], by simp⟩

end FirstLoose

/-! ### Exact recognition -/

/-- A round returns -1 and leaves the page as it is if and only if there is no placeholder from
the offset on; else it returns the start of the first one and replaces exactly it, by what the
table has under some key. -/
def RecognizesExactly [FreshBytes] (page : PageT) (m : HashTableT.Map (Option StringT))
    (source : StringT) (offset : ℕ) : Prop :=
  (page.resolveTemplate offset = .ok (none, page) ↔
    ¬ ∃ before key rest, HasPlaceholder (source.content.drop offset) before key rest) ∧
  ∀ before key rest, FirstPlaceholder (source.content.drop offset) before key rest →
    ∃ found page' source',
      page.resolveTemplate offset = .ok (some (offset + before.length), page') ∧
      page'.source = some source' ∧
      source'.content = source.content.take (offset + before.length) ++ lookup m found ++ rest

/-- No part `{{w}}` with letters and closing braces in `w` starts before the first placeholder. -/
def PlaceholdersFirst (text : List UInt8) : Prop :=
  ∀ before w rest, text = before ++ (placeholder w ++ rest) → Loose w →
    ∃ before' key rest', HasPlaceholder text before' key rest' ∧ before'.length ≤ before.length

theorem FirstLoose.placeholdersFirst_iff {text before w rest : List UInt8}
    (h : FirstLoose text before w rest) : PlaceholdersFirst text ↔ Letters w := by
  constructor
  · intro hplaceholders
    by_contra hw
    obtain ⟨before', key, rest', hhas, hle⟩ := hplaceholders before w rest h.text_eq h.loose
    obtain rfl := h.before_eq hhas.letters.loose hhas.text_eq hle
    exact h.not_hasPlaceholder hw hhas
  · intro hw before' v rest' htext hv
    exact ⟨before, w, rest, ⟨h.text_eq, hw⟩, h.length_le hv htext⟩

section Exact

variable [FreshBytes] {page page' : PageT} {m : HashTableT.Map (Option StringT)}
  {source source' : StringT} {offset : ℕ} {before w rest found : List UInt8}

private theorem recognizesExactly_of_letters
    (hfirst : FirstLoose (source.content.drop offset) before w rest) (hw : Letters w)
    (hresolve : page.resolveTemplate offset = .ok (some (offset + before.length), page'))
    (hsource' : page'.source = some source')
    (hcontent : source'.content =
      source.content.take (offset + before.length) ++ lookup m found ++ rest) :
    RecognizesExactly page m source offset := by
  have hhas : HasPlaceholder (source.content.drop offset) before w rest := ⟨hfirst.text_eq, hw⟩
  refine ⟨iff_of_false ?_ (not_not.mpr ⟨before, w, rest, hhas⟩), ?_⟩
  · rw [hresolve]
    rintro ⟨⟩
  · intro before' key rest' hplaceholder
    obtain rfl := hfirst.before_eq hplaceholder.letters.loose hplaceholder.text_eq
      (hplaceholder.first _ _ _ hhas)
    have hsame := List.append_cancel_left (hfirst.text_eq.symm.trans hplaceholder.text_eq)
    obtain ⟨-, rfl⟩ := placeholder_append_inj hw hplaceholder.letters hsame
    exact ⟨found, page', source', hresolve, hsource', hcontent⟩

private theorem not_recognizesExactly
    (hfirst : FirstLoose (source.content.drop offset) before w rest) (hw : ¬ Letters w)
    (hresolve : page.resolveTemplate offset = .ok (some (offset + before.length), page')) :
    ¬ RecognizesExactly page m source offset := by
  rintro ⟨hiff, hexact⟩
  have hne : page.resolveTemplate offset ≠ .ok (none, page) := by
    rw [hresolve]
    rintro ⟨⟩
  obtain ⟨before₁, key₁, rest₁, hhas⟩ := not_not.mp (mt hiff.mpr hne)
  obtain ⟨before', key, rest', hplaceholder⟩ := exists_firstPlaceholder hhas
  obtain ⟨_, _, _, hcall, -, -⟩ := hexact before' key rest' hplaceholder
  have hlength : before'.length = before.length := by
    rw [hresolve] at hcall
    injection hcall with hpair
    injection hpair with hstart
    injection hstart with hstart
    omega
  obtain rfl := hfirst.before_eq hplaceholder.letters.loose hplaceholder.text_eq hlength.le
  exact hfirst.not_hasPlaceholder hw hplaceholder.toHasPlaceholder

/-- Recognition is exact if and only if the parts that look like placeholders come behind one. -/
theorem recognizesExactly_iff (hsource : page.source = some source)
    {templates : HashTableT (Option StringT)} (htemplates : page.templates = some templates)
    (hrep : templates.Represents m) (hz : 0 ∉ source.content) (offset : ℕ) :
    RecognizesExactly page m source offset ↔ PlaceholdersFirst (source.content.drop offset) := by
  obtain ⟨hnone, hloose⟩ | ⟨before, w, rest, found, page', source', hfirst, -, hresolve, hsource',
    hcontent⟩ := resolveTemplate_reads hsource htemplates hrep hz offset
  · have hno : ∀ before w rest, Loose w →
        source.content.drop offset ≠ before ++ (placeholder w ++ rest) := by
      intro before w rest hw htext
      exact hloose w hw ⟨before, rest, by rw [htext, List.append_assoc]⟩
    refine iff_of_true ⟨iff_of_true hnone ?_, ?_⟩ ?_
    · rintro ⟨before, key, rest, hhas⟩
      exact hno before key rest hhas.letters.loose hhas.text_eq
    · intro before key rest hplaceholder
      exact absurd hplaceholder.text_eq (hno before key rest hplaceholder.letters.loose)
    · intro before w rest htext hw
      exact absurd htext (hno before w rest hw)
  · rw [hfirst.placeholdersFirst_iff]
    by_cases hw : Letters w
    · exact iff_of_true (recognizesExactly_of_letters hfirst hw hresolve hsource' hcontent) hw
    · exact iff_of_false (not_recognizesExactly hfirst hw hresolve) hw

end Exact

/-- The source `{{b}}c`. -/
theorem recognizesExactly_one : @RecognizesExactly FreshBytes.zero
    ⟨some (StringT.fromBuffer (ascii "\x7b\x7bb\x7d\x7dc")), some HashTableT.create⟩ KeyedList.empty
    (StringT.fromBuffer (ascii "\x7b\x7bb\x7d\x7dc")) 0 := by
  refine (@recognizesExactly_iff FreshBytes.zero _ _ _ rfl _ rfl HashTableT.represents_create
    (by decide) 0).mpr ?_
  intro before w rest _ _
  exact ⟨[], ascii "b", ascii "c", ⟨by decide, by decide⟩, Nat.zero_le _⟩

/-- In `{{a}b}}` there is no placeholder, but the whole text is replaced. -/
theorem lone_brace_not_recognizesExactly : ¬ @RecognizesExactly FreshBytes.zero
    ⟨some (StringT.fromBuffer (ascii "\x7b\x7ba\x7db\x7d\x7d")), some HashTableT.create⟩
    KeyedList.empty (StringT.fromBuffer (ascii "\x7b\x7ba\x7db\x7d\x7d")) 0 := by
  rintro ⟨hiff, -⟩
  have hstart : (@resolveTemplate FreshBytes.zero
      ⟨some (StringT.fromBuffer (ascii "\x7b\x7ba\x7db\x7d\x7d")), some HashTableT.create⟩ 0).map
        Prod.fst = .ok (some 0) := by decide +kernel
  have hno : ¬ ∃ before key rest, HasPlaceholder
      ((StringT.fromBuffer (ascii "\x7b\x7ba\x7db\x7d\x7d")).content.drop 0) before key rest := by
    rintro ⟨before, key, rest, htext, hkey⟩
    have hbytes : (StringT.fromBuffer (ascii "\x7b\x7ba\x7db\x7d\x7d")).content.drop 0 =
      [123, 123, 97, 125, 98, 125, 125] := by decide
    rw [hbytes, placeholder] at htext
    have hlength := congrArg List.length htext
    rcases before with _ | ⟨_, _ | ⟨_, _ | ⟨_, _ | ⟨_, before⟩⟩⟩⟩
    · have hbraces : [97] ++ 125 :: [98, 125, 125] = key ++ 125 :: 125 :: rest := by
        simpa using htext
      have hnot : 125 ∉ key := fun hm ↦ absurd (hkey 125 hm).2 (by decide)
      obtain ⟨-, hrest⟩ := append_cons_unique (by decide) hnot hbraces
      exact absurd (List.cons.inj hrest).1 (by decide)
    · simp at htext
    · simp at htext
    · simp at htext
    · simp at hlength
      omega
  rw [hiff.mpr hno] at hstart
  cases hstart

end Wsic.PageT
