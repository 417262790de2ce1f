import Wsic.Www.NotFound

/-!
# The pages for errors

The pages of `src/www/www.c:28–113` with a fixed text. Neither the resources nor the descriptions
that the worker gives them hold a placeholder again, so a few rounds make them.
-/

open CMemory Rewriting

namespace Wsic.PageT

/-- Text without opening brace and NUL. -/
def BraceFree (text : List UInt8) : Prop := 123 ∉ text ∧ 0 ∉ text

instance (text : List UInt8) : Decidable (BraceFree text) := inferInstanceAs (Decidable (_ ∧ _))

theorem BraceFree.append {a b : List UInt8} (ha : BraceFree a) (hb : BraceFree b) :
    BraceFree (a ++ b) := by
  simp only [BraceFree, List.mem_append, not_or]
  exact ⟨⟨ha.1, hb.1⟩, ha.2, hb.2⟩

/-! ### Termination -/

/-- The entries of a page: the content, which gives way to text without braces in at most one
round, and values without braces. -/
structure ErrorText (m : HashTableT.Map (Option StringT)) (content : List UInt8) : Prop where
  content_eq : lookup m (ascii "content") = content
  values : ∀ key, lookup m key = content ∨ BraceFree (lookup m key)
  opens : BraceFree content ∨ ∃ a, BraceFree a ∧ ∀ X, expand m (content ++ X) = some (a ++ X)

namespace ErrorText

variable {m : HashTableT.Map (Option StringT)} {content : List UInt8}

/-- The content in front of a text is no worse than text without braces. -/
private theorem acc_content (h : ErrorText m content) {X : List UInt8}
    (hX : ∀ a, BraceFree a → Acc (Next (expand m)) (a ++ X)) :
    Acc (Next (expand m)) (content ++ X) := by
  obtain hfree | ⟨a, ha, hexpand⟩ := h.opens
  · exact hX content hfree
  · exact acc_of_next (hexpand X) (hX a ha)

private theorem acc_footerEnd {a : List UInt8} (ha : BraceFree a) :
    Acc (Next (expand m)) (a ++ footerEnd) := by
  obtain ⟨s, -, -, hs⟩ := @exists_scan_outside .init rfl (by decide) a ha.1 ha.2
  apply acc_of_stop
  rw [expand, hs, scan_footerEnd]
  rfl

private theorem acc_footer (h : ErrorText m content) {a : List UInt8} (ha : BraceFree a) :
    Acc (Next (expand m)) (a ++ footer) := by
  have hstart : BraceFree footerStart := by decide +kernel
  obtain ⟨s, hs, hp, hscan⟩ :=
    @exists_scan_outside .init rfl (by decide) _ (ha.append hstart).1 (ha.append hstart).2
  obtain ⟨key, hkey⟩ := exists_scan_version hs hp footerEnd
  have hexpand : expand m (a ++ footer) = some (lookup m key ++ footerEnd) := by
    rw [expand, footer, ← List.append_assoc, hscan, hkey]
    rfl
  apply acc_of_next hexpand
  obtain hcontent | hfree := h.values key
  · rw [hcontent]
    exact h.acc_content (fun _ ↦ acc_footerEnd)
  · exact acc_footerEnd hfree

/-- The expansion of the page stops. -/
theorem acc_templateHtml (h : ErrorText m content) : Acc (Next (expand m)) templateHtml := by
  have hexpand : expand m templateHtml = some (content ++ footer) := by
    rw [expand, scan_templateHtml, Option.map_some, h.content_eq]
  exact acc_of_next hexpand (h.acc_content (fun _ ↦ h.acc_footer))

end ErrorText

/-! ### The entries -/

/-- The entries without a description. -/
def errorTemplates (content : List UInt8) : HashTableT.Map (Option StringT) :=
  (KeyedList.empty.set (HashTableT.entryOf (HashTableT.freshKey (ascii "version"))
      (some (StringT.fromBuffer wsicVersion)))).set
    (HashTableT.entryOf (HashTableT.freshKey (ascii "content"))
      (some (StringT.fromBuffer content)))

/-- The entries with a description. -/
def describedTemplates (content description : List UInt8) : HashTableT.Map (Option StringT) :=
  (errorTemplates content).set (HashTableT.entryOf (HashTableT.freshKey (ascii "description"))
    (some (StringT.fromBuffer description)))

/-- The entries of a page. -/
def templatesOf (content : List UInt8) :
    Option (List UInt8) → HashTableT.Map (Option StringT)
  | none => errorTemplates content
  | some description => describedTemplates content description

/-- What is inserted after one more entry was set. -/
private theorem lookup_set (m : HashTableT.Map (Option StringT)) (name : List UInt8)
    {value : List UInt8} (hz : 0 ∉ value) (key : List UInt8) :
    lookup (m.set (HashTableT.entryOf (HashTableT.freshKey name)
        (some (StringT.fromBuffer value)))) key =
      if HashTableT.hash name = HashTableT.hash key then value else lookup m key := by
  rw [lookup, KeyedList.get_set, HashTableT.entryOf, HashTableT.hash_freshKey]
  split
  · exact valueText_fromBuffer hz
  · rfl

private theorem lookup_errorTemplates {content : List UInt8} (hz : 0 ∉ content)
    (key : List UInt8) : lookup (errorTemplates content) key =
      if HashTableT.hash (ascii "content") = HashTableT.hash key then content
      else if HashTableT.hash (ascii "version") = HashTableT.hash key then wsicVersion
      else [] := by
  rw [errorTemplates, lookup_set _ _ hz, lookup_set _ _ (by decide)]
  rfl

private theorem errorText_values {content : List UInt8} (hz : 0 ∉ content) (key : List UInt8) :
    lookup (errorTemplates content) key = content ∨
      BraceFree (lookup (errorTemplates content) key) := by
  rw [lookup_errorTemplates hz]
  split
  · exact .inl rfl
  · split
    · exact .inr (by decide)
    · exact .inr (by decide)

theorem errorText_braceFree {content : List UInt8} (h : BraceFree content) :
    ErrorText (errorTemplates content) content where
  content_eq := by
    rw [lookup_errorTemplates h.2]
    exact if_pos rfl
  values := errorText_values h.2
  opens := .inl h

section Pages

variable [FreshBytes]

/-- The page as it is handed to `page_resolveTemplates`. -/
private theorem createWith_eq (content : List UInt8) (description : Option (List UInt8)) :
    ∃ page : PageT, page.Remains (templatesOf content description) 0 templateHtml ∧
      page.Sourced ∧ ∀ rounds, createWith rounds content (description.map StringT.fromBuffer) =
        page.resolveTemplates rounds := by
  obtain ⟨t₁, h₁, hrep₁⟩ := @setTemplate_spec ⟨none, some HashTableT.create⟩ _ _ rfl
    HashTableT.represents_create (ascii "version") (by decide)
    (some (StringT.fromBuffer wsicVersion))
  obtain ⟨t₂, h₂, hrep₂⟩ := @setTemplate_spec
    ⟨some (StringT.fromBufferWithLength templateHtml), some t₁⟩ _ _ rfl hrep₁ (ascii "content")
    (by decide) (some (StringT.fromBuffer content))
  have hsource : (StringT.fromBufferWithLength templateHtml).content.drop 0 = templateHtml := by
    rw [StringT.content_fromBufferWithLength, List.drop_zero]
  cases description with
  | none =>
    refine ⟨⟨some (StringT.fromBufferWithLength templateHtml), some t₂⟩,
      ⟨⟨_, rfl, hsource⟩, ⟨t₂, rfl, hrep₂⟩⟩, ⟨_, rfl, Option.some_ne_none _⟩, fun rounds ↦ ?_⟩
    rw [createWith, create, h₁, checked_ok_bind]
    dsimp only [setSource]
    rw [h₂, checked_ok_bind]
    rfl
  | some description =>
    obtain ⟨t₃, h₃, hrep₃⟩ := @setTemplate_spec
      ⟨some (StringT.fromBufferWithLength templateHtml), some t₂⟩ _ _ rfl hrep₂
      (ascii "description") (by decide) (some (StringT.fromBuffer description))
    refine ⟨⟨some (StringT.fromBufferWithLength templateHtml), some t₃⟩,
      ⟨⟨_, rfl, hsource⟩, ⟨t₃, rfl, hrep₃⟩⟩, ⟨_, rfl, Option.some_ne_none _⟩, fun rounds ↦ ?_⟩
    rw [createWith, create, h₁, checked_ok_bind]
    dsimp only [setSource]
    rw [h₂, checked_ok_bind, Option.map_some]
    dsimp only
    rw [h₃, checked_ok_bind]

private theorem ErrorText.makes {content : List UInt8} {description : Option (List UInt8)}
    (h : ErrorText (templatesOf content description) content) :
    Makes (fun rounds ↦ createWith rounds content (description.map StringT.fromBuffer)) := by
  obtain ⟨page, hremains, hsourced, hcreate⟩ := createWith_eq content description
  simp only [hcreate]
  exact hremains.makes hsourced h.acc_templateHtml

variable {description : List UInt8}

theorem makes_create413 : Makes create413 :=
  @ErrorText.makes _ _ none (errorText_braceFree (by decide +kernel))

theorem makes_create417 : Makes create417 :=
  @ErrorText.makes _ _ none (errorText_braceFree (by decide +kernel))

/-! ### Pages with a source -/

omit [FreshBytes] in
private theorem Sourced.setTemplate {page page' : PageT} (h : page.Sourced) {key : StringT}
    {value : Option StringT} (hset : page.setTemplate key value = .ok page') : page'.Sourced := by
  obtain ⟨templates, -, hset⟩ := exists_of_bind_eq_ok hset
  obtain ⟨⟨_, table⟩, -, hset⟩ := exists_of_bind_eq_ok hset
  cases hset
  exact h

omit [FreshBytes] in
private theorem sourced_setSource (page : PageT) (text : List UInt8) :
    (page.setSource (StringT.fromBufferWithLength text)).Sourced :=
  ⟨_, rfl, Option.some_ne_none _⟩

/-- A page that was made has a source, however many rounds it took. -/
theorem sourced_create404 {rounds : ℕ} {path : StringT} {page : PageT}
    (h : create404 rounds path = .ok page) : page.Sourced := by
  obtain ⟨page₁, -, h⟩ := exists_of_bind_eq_ok h
  obtain ⟨page₂, h₂, h⟩ := exists_of_bind_eq_ok h
  obtain ⟨page₃, h₃, h⟩ := exists_of_bind_eq_ok h
  exact (((sourced_setSource page₁ _).setTemplate h₂).setTemplate h₃).resolveTemplates h

theorem sourced_createWith {rounds : ℕ} {content : List UInt8} {description : Option StringT}
    {page : PageT} (h : createWith rounds content description = .ok page) : page.Sourced := by
  obtain ⟨page₁, -, h⟩ := exists_of_bind_eq_ok h
  obtain ⟨page₂, h₂, h⟩ := exists_of_bind_eq_ok h
  have hsourced := (sourced_setSource page₁ _).setTemplate h₂
  cases description with
  | none => exact hsourced.resolveTemplates h
  | some description =>
    obtain ⟨page₃, h₃, h⟩ := exists_of_bind_eq_ok h
    exact (hsourced.setTemplate h₃).resolveTemplates h

end Pages

end Wsic.PageT
