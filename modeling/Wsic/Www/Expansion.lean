import Wsic.DataStructures.HashTableMap
import Wsic.Lib.Rewriting
import Wsic.Www.Scanner

/-!
# Expansion of templates

`page_resolveTemplates` as the iteration of a function on texts. Each round rewrites only the
text from the offset on: the first placeholder and what stands before it give way to the value
of its key, and scanning starts again at the front of the value.
-/

open CMemory Rewriting

namespace Wsic.PageT

/-- The text that is inserted for a key: keys with the same hash share a value. -/
def lookup (m : HashTableT.Map (Option StringT)) (key : List UInt8) : List UInt8 :=
  valueText ((m.get (HashTableT.hash key)).map (·.value)).join

/-- One round on the text from the offset on. -/
def expand (m : HashTableT.Map (Option StringT)) (text : List UInt8) : Option (List UInt8) :=
  (scan .init text).map (fun found ↦ lookup m found.1 ++ found.2)

/-- The page has the entries of the map, and this text from the offset on. -/
structure Remains (page : PageT) (m : HashTableT.Map (Option StringT)) (offset : Nat)
    (text : List UInt8) : Prop where
  source : ∃ source, page.source = some source ∧ source.content.drop offset = text
  templates : ∃ templates, page.templates = some templates ∧ templates.Represents m

variable [FreshBytes] {page : PageT} {m : HashTableT.Map (Option StringT)} {offset : Nat}
  {text : List UInt8}

theorem shows_init (offset : Nat) :
    ScanT.Shows ⟨StringT.create.setBufferSize 100, none, 0⟩ .init offset where
  inside := rfl
  start_le := by rintro _ ⟨⟩
  previous := rfl
  key := keyHolds_init
  buffer := Option.some_ne_none _

/-- A round that finds no placeholder leaves the page as it is. -/
theorem Remains.resolveTemplate_of_none (h : page.Remains m offset text)
    (hnone : expand m text = none) : page.resolveTemplate offset = .ok (none, page) := by
  obtain ⟨source, hsource, htext⟩ := h.source
  have hscan : scan .init (StringCursorT.mk source offset).rest = none := by
    rw [StringCursorT.rest, htext]
    exact Option.map_eq_none_iff.mp hnone
  rw [resolveTemplate, hsource, deref_some, checked_ok_bind,
    scanLoop_of_none (shows_init offset) hscan]
  rfl

omit [FreshBytes] in
/-- A key is looked up by the C string in its buffer. -/
theorem getValue_of_cString {templates : HashTableT (Option StringT)}
    (hrep : templates.Represents m) {key : StringT} (hbuffer : key.buffer ≠ none)
    {text : List UInt8} (hkey : cString key.bytes = text) :
    ∃ templates', templates.getValue key =
      .ok ((m.get (HashTableT.hash text)).map (·.value), templates') ∧
        templates'.Represents m := by
  have hhash : HashTableT.Key.hash ⟨key, hbuffer⟩ = HashTableT.hash text := by
    rw [HashTableT.Key.hash, ← HashTableT.hash_cString, hkey]
  rw [← hhash]
  exact hrep.getValue ⟨key, hbuffer⟩

/-- A round whose scan completes a placeholder puts what is found for the key in its place. -/
theorem resolveTemplate_of_scanLoop {source : StringT} (hsource : page.source = some source)
    {templates templates' : HashTableT (Option StringT)}
    (htemplates : page.templates = some templates) {scan' : ScanT} {templateEnd start : Nat}
    (hloop : scanLoop (source.size - offset) ⟨source, offset⟩
      ⟨StringT.create.setBufferSize 100, none, 0⟩ = some (scan', templateEnd))
    (hstart : scan'.templateStart = some start) {value : Option (Option StringT)}
    (hget : templates.getValue scan'.templateKey = .ok (value, templates')) :
    page.resolveTemplate offset = .ok (some start,
      ⟨some (replaceTemplate source start templateEnd value.join), some templates'⟩) := by
  rw [resolveTemplate, hsource, deref_some, checked_ok_bind, hloop]
  dsimp only
  rw [htemplates, deref_some, checked_ok_bind, hget, hstart]
  rfl

/-- A round that finds a placeholder keeps what is before it and behind it. -/
theorem resolveTemplate_of_scan {source : StringT} (hsource : page.source = some source)
    {templates : HashTableT (Option StringT)} (htemplates : page.templates = some templates)
    (hrep : templates.Represents m) {key rest : List UInt8}
    (hscan : scan .init (source.content.drop offset) = some (key, rest)) :
    ∃ start source' templates', page.resolveTemplate offset =
        .ok (some start, ⟨some source', some templates'⟩) ∧ start + rest.length < source.size ∧
      source'.content = source.content.take start ++ (lookup m key ++ rest) ∧
      templates'.Represents m := by
  obtain ⟨scan', templateEnd, start, hloop, hstart, hle, hlt, hrest, hbuffer, hkey⟩ :=
    @scanLoop_of_some _ _ ⟨source, offset⟩ _ _ _ _
      (Nat.le_of_eq (StringCursorT.length_rest _)) (shows_init offset) hscan
  dsimp only at hlt hrest
  obtain ⟨templates', hget, hrep'⟩ := getValue_of_cString hrep hbuffer hkey
  refine ⟨start, _, templates', resolveTemplate_of_scanLoop hsource htemplates hloop hstart hget,
    ?_, ?_, hrep'⟩
  · rw [← hrest, List.length_drop, StringT.length_content]
    omega
  · rw [content_replaceTemplate source _ hle hlt, hrest, List.append_assoc]
    rfl

/-- A round that finds a placeholder expands the text. -/
theorem Remains.resolveTemplate_of_some (h : page.Remains m offset text) {text' : List UInt8}
    (hsome : expand m text = some text') :
    ∃ offset' page', page.resolveTemplate offset = .ok (some offset', page') ∧
      page'.Remains m offset' text' := by
  obtain ⟨source, hsource, htext⟩ := h.source
  obtain ⟨templates, htemplates, hrep⟩ := h.templates
  obtain ⟨⟨key, rest⟩, hscan, rfl⟩ := Option.map_eq_some_iff.mp hsome
  rw [← htext] at hscan
  obtain ⟨start, source', templates', hresolve, hlt, hcontent, hrep'⟩ :=
    resolveTemplate_of_scan hsource htemplates hrep hscan
  refine ⟨start, _, hresolve, ⟨source', rfl, ?_⟩, ⟨templates', rfl, hrep'⟩⟩
  have hlen : (source.content.take start).length = start := by
    rw [List.length_take, StringT.length_content]
    omega
  rw [hcontent]
  exact List.drop_left' hlen

/-! ### The loop -/

/-- A loop that is given enough rounds stops with the entries as they were. -/
theorem Remains.resolveTemplatesLoop_of_stops {rounds : Nat} (h : page.Remains m offset text)
    (hstops : stopsWithin (expand m) rounds text = true) :
    ∃ page' templates, resolveTemplatesLoop rounds page offset = .ok page' ∧
      page'.templates = some templates ∧ templates.Represents m := by
  induction rounds generalizing page offset text with
  | zero => cases hstops
  | succ rounds ih =>
    rw [stopsWithin] at hstops
    rw [resolveTemplatesLoop]
    cases hnext : expand m text with
    | none =>
      obtain ⟨templates, htemplates, hrep⟩ := h.templates
      rw [h.resolveTemplate_of_none hnext]
      exact ⟨page, templates, rfl, htemplates, hrep⟩
    | some text' =>
      rw [hnext] at hstops
      obtain ⟨offset', page', hresolve, hremains⟩ := h.resolveTemplate_of_some hnext
      rw [hresolve, checked_ok_bind]
      exact ih hremains hstops

/-- A loop that is not given enough rounds does not stop. -/
theorem Remains.resolveTemplatesLoop_of_not {rounds : Nat} (h : page.Remains m offset text)
    (hstops : stopsWithin (expand m) rounds text = false) :
    resolveTemplatesLoop rounds page offset = .error .nonTermination := by
  induction rounds generalizing page offset text with
  | zero => rfl
  | succ rounds ih =>
    rw [stopsWithin] at hstops
    rw [resolveTemplatesLoop]
    cases hnext : expand m text with
    | none =>
      rw [hnext] at hstops
      cases hstops
    | some text' =>
      rw [hnext] at hstops
      obtain ⟨offset', page', hresolve, hremains⟩ := h.resolveTemplate_of_some hnext
      rw [hresolve, checked_ok_bind]
      exact ih hremains hstops

/-- A page whose rounds are enough is resolved. -/
theorem Remains.resolveTemplates_of_stops {rounds : Nat} (h : page.Remains m 0 text)
    (hstops : stopsWithin (expand m) rounds text = true) :
    ∃ page', page.resolveTemplates rounds = .ok page' := by
  obtain ⟨page', templates, hloop, htemplates, hrep⟩ := h.resolveTemplatesLoop_of_stops hstops
  obtain ⟨templates', hdrain, -⟩ := hrep.drain
  rw [resolveTemplates, hloop, checked_ok_bind, clearTemplates, htemplates]
  dsimp only
  rw [hdrain]
  exact ⟨_, rfl⟩

/-- All templates of a page are resolved in finitely many rounds exactly when the iteration on
its text stops. -/
theorem Remains.resolveTemplates_iff (h : page.Remains m 0 text) :
    (∃ rounds page', page.resolveTemplates rounds = .ok page') ↔
      Acc (Next (expand m)) text := by
  rw [← exists_stopsWithin_iff]
  apply exists_congr
  intro rounds
  cases hstops : stopsWithin (expand m) rounds text with
  | false =>
    rw [resolveTemplates, h.resolveTemplatesLoop_of_not hstops]
    constructor
    · rintro ⟨page', ⟨⟩⟩
    · rintro ⟨⟩
  | true => exact iff_of_true (h.resolveTemplates_of_stops hstops) rfl

/-- Then they are resolved in any larger number of rounds, too. -/
theorem Remains.resolveTemplates_of_acc (h : page.Remains m 0 text)
    (hacc : Acc (Next (expand m)) text) :
    ∃ n, ∀ rounds ≥ n, ∃ page', page.resolveTemplates rounds = .ok page' := by
  obtain ⟨n, hn⟩ := (exists_stopsWithin_iff text).mpr hacc
  exact ⟨n, fun rounds hrounds ↦ h.resolveTemplates_of_stops (stopsWithin_mono hn hrounds)⟩

/-! ### The source -/

omit [FreshBytes] in
/-- The page has a source with a buffer. -/
def Sourced (page : PageT) : Prop := ∃ source, page.source = some source ∧ source.buffer ≠ none

private theorem Sourced.resolveTemplate {page' : PageT} (h : page.Sourced) {next : Option Nat}
    (hresolve : page.resolveTemplate offset = .ok (next, page')) : page'.Sourced := by
  obtain ⟨source, hsource, hresolve⟩ := exists_of_bind_eq_ok hresolve
  dsimp only at hresolve
  split at hresolve
  · cases hresolve
    exact h
  · obtain ⟨templates, htemplates, hresolve⟩ := exists_of_bind_eq_ok hresolve
    obtain ⟨value, hvalue, hresolve⟩ := exists_of_bind_eq_ok hresolve
    cases hresolve
    exact ⟨_, rfl, Option.some_ne_none _⟩

private theorem Sourced.resolveTemplatesLoop {page' : PageT} (h : page.Sourced) {rounds : Nat}
    (hloop : resolveTemplatesLoop rounds page offset = .ok page') : page'.Sourced := by
  induction rounds generalizing page offset with
  | zero => cases hloop
  | succ rounds ih =>
    rw [PageT.resolveTemplatesLoop] at hloop
    obtain ⟨⟨next, page₁⟩, hresolve, hloop⟩ := exists_of_bind_eq_ok hloop
    have hnext := h.resolveTemplate hresolve
    cases next with
    | none =>
      cases hloop
      exact hnext
    | some next => exact ih hnext hloop

/-- A page keeps a source with a buffer. -/
theorem Sourced.resolveTemplates {page' : PageT} (h : page.Sourced) {rounds : Nat}
    (hresolve : page.resolveTemplates rounds = .ok page') : page'.Sourced := by
  obtain ⟨page₁, hloop, hclear⟩ := exists_of_bind_eq_ok hresolve
  have hsourced := h.resolveTemplatesLoop hloop
  unfold clearTemplates at hclear
  split at hclear
  · cases hclear
    exact hsourced
  · obtain ⟨_, _, hclear⟩ := exists_of_bind_eq_ok hclear
    cases hclear
    exact hsourced

end Wsic.PageT
