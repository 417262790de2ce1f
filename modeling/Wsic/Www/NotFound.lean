import Wsic.Www.Expansion

/-!
# The page for missing files

Termination of `page_create404`. The path of the request is one of the entries that the page is
expanded with, and inserted text is expanded again.
-/

open CMemory Rewriting

namespace Wsic.PageT

/-! ### The texts of the page -/

/-- The resource `404.html` behind its placeholder. -/
def closing : List UInt8 := resource ["</i> could not be found.</p>", "</center>"]

/-- The resource `template.html` between its placeholders. -/
def footerStart : List UInt8 :=
  resource ["", "    <footer>", "      <center>"] ++ ascii "        <p>WSIC "

/-- The resource `template.html` behind its last placeholder. -/
def footerEnd : List UInt8 := resource [" - A Web Server written in C</p>", "      </center>",
  "    </footer>", "  </body>", "</html>"]

/-- The resource `template.html` behind its first placeholder. -/
def footer : List UInt8 := footerStart ++ (ascii "\x7b\x7bversion\x7d\x7d" ++ footerEnd)

theorem scan_templateHtml : scan .init templateHtml = some (ascii "content", footer) := by
  decide +kernel

theorem scan_notFoundHtml : scan .init notFoundHtml = some (ascii "path", closing) := by
  decide +kernel

private theorem scan_wsicVersion (text : List UInt8) :
    scan .init (wsicVersion ++ text) = scan .init text := by
  have hread : scan .init (wsicVersion ++ text) =
      scan { ScanState.init with previous := 48 } text := rfl
  rw [hread]
  exact scan_previous rfl (by decide) (by decide) text

/-- Text that starts with an illegal character and opens no placeholder ends the scan. -/
private theorem scan_illegal (s : ScanState) {c : UInt8} {text : List UInt8} (hc : Illegal c)
    (ht : 123 ∉ text) : scan s (c :: text) = none := by
  obtain ⟨s', hread, hs', -⟩ := exists_read_illegal s hc
  rw [scan, if_neg hc.1, hread]
  exact scan_outside hs' ht

theorem scan_footerEnd (s : ScanState) : scan s footerEnd = none := by
  have h : footerEnd = 32 :: footerEnd.tail := by decide +kernel
  rw [h]
  exact scan_illegal s (by decide) (by decide +kernel)

theorem scan_closing_footerEnd (s : ScanState) : scan s (closing ++ footerEnd) = none := by
  have h : closing ++ footerEnd = 60 :: (closing ++ footerEnd).tail := by decide +kernel
  rw [h]
  exact scan_illegal s (by decide) (by decide +kernel)

theorem exists_scan_version {s : ScanState} (hs : s.inside = false)
    (hp : s.previous ≠ 123) (text : List UInt8) :
    ∃ key, scan s (ascii "\x7b\x7bversion\x7d\x7d" ++ text) = some (key, text) := by
  have htext : ascii "\x7b\x7bversion\x7d\x7d" =
      [123, 123, 118, 101, 114, 115, 105, 111, 110, 125, 125] := by decide
  rw [htext]
  simp [scan, ScanState.read, hs, hp]

/-- Whatever key was begun before, the placeholder of the footer is found, with some key. -/
theorem exists_scan_closing_footer (s : ScanState) :
    ∃ key, scan s (closing ++ footer) = some (key, footerEnd) := by
  have h : closing ++ footer = 60 :: ((closing ++ footerStart).tail ++
      (ascii "\x7b\x7bversion\x7d\x7d" ++ footerEnd)) := by decide +kernel
  obtain ⟨s', hread, hs', hp'⟩ := exists_read_illegal s (by decide : Illegal 60)
  have hprevious : s'.previous ≠ 123 := by
    rw [hp']
    decide
  obtain ⟨s'', hs'', hp'', hscan⟩ := exists_scan_outside hs' hprevious
    (by decide +kernel : 123 ∉ (closing ++ footerStart).tail)
    (by decide +kernel : 0 ∉ (closing ++ footerStart).tail)
  obtain ⟨key, hkey⟩ := exists_scan_version hs'' hp'' footerEnd
  refine ⟨key, ?_⟩
  rw [h, scan, if_neg (by decide), hread]
  exact (hscan _).trans hkey

/-! ### The entries -/

/-- The entries that the page is expanded with. -/
def notFoundTemplates (path : StringT) : HashTableT.Map (Option StringT) :=
  ((KeyedList.empty.set (HashTableT.entryOf (HashTableT.freshKey (ascii "version"))
      (some (StringT.fromBuffer wsicVersion)))).set
    (HashTableT.entryOf (HashTableT.freshKey (ascii "content"))
      (some (StringT.fromBuffer notFoundHtml)))).set
    (HashTableT.entryOf (HashTableT.freshKey (ascii "path")) (some path))

/-- A key that is looked up as another one. -/
def SameHash (key name : List UInt8) : Prop := HashTableT.hash key = HashTableT.hash name

instance (key name : List UInt8) : Decidable (SameHash key name) :=
  inferInstanceAs (Decidable (_ = _))

theorem valueText_fromBuffer {b : List UInt8} (h : 0 ∉ b) :
    valueText (some (StringT.fromBuffer b)) = b := by
  rw [StringT.fromBuffer, cString_eq_self h]
  exact StringT.content_fromBufferWithLength b

/-- What is inserted for a key. -/
theorem lookup_notFoundTemplates (path : StringT) (key : List UInt8) :
    lookup (notFoundTemplates path) key =
      if SameHash key (ascii "path") then path.content
      else if SameHash key (ascii "content") then notFoundHtml
      else if SameHash key (ascii "version") then wsicVersion
      else [] := by
  have hkey (name : List UInt8) (value : Option StringT) :
      ((HashTableT.entryOf (HashTableT.freshKey name) value).keyHash = HashTableT.hash key) =
        SameHash key name := by
    rw [HashTableT.entryOf, HashTableT.hash_freshKey, SameHash]
    exact propext eq_comm
  rw [lookup, notFoundTemplates, KeyedList.get_set, KeyedList.get_set, KeyedList.get_set]
  simp only [hkey]
  split
  · rfl
  · split
    · exact valueText_fromBuffer (by decide +kernel)
    · split
      · exact valueText_fromBuffer (by decide)
      · rfl

/-- The condition on a key of the path: it does not stand for an entry that holds a
placeholder again. -/
def Harmless (key : List UInt8) : Prop :=
  ¬ SameHash key (ascii "path") ∧ ¬ SameHash key (ascii "content")

theorem expand_wsicVersion (m : HashTableT.Map (Option StringT)) (text : List UInt8) :
    expand m (wsicVersion ++ text) = expand m text := by
  rw [expand, expand, scan_wsicVersion]

section Termination

variable {path : StringT}

private theorem expand_lookup_harmless {key : List UInt8} (h : Harmless key) (text : List UInt8) :
    expand (notFoundTemplates path) (lookup (notFoundTemplates path) key ++ text) =
      expand (notFoundTemplates path) text := by
  rw [lookup_notFoundTemplates, if_neg h.1, if_neg h.2]
  split
  · exact expand_wsicVersion _ text
  · rfl

private theorem expand_append {text key rest : List UInt8} (h : scan .init text = some (key, rest))
    (X : List UInt8) : expand (notFoundTemplates path) (text ++ X) =
      some (lookup (notFoundTemplates path) key ++ (rest ++ X)) := by
  rw [expand, scan_append_of_some h]
  rfl

/-- Text with harmless placeholders is expanded in finitely many rounds when this holds for
text without placeholders in its place. -/
theorem acc_append {text X : List UInt8} (hkeys : ∀ key ∈ placeholders text, Harmless key)
    (hX : ∀ a, 0 ∉ a → scan .init a = none →
      Acc (Next (expand (notFoundTemplates path))) (a ++ X)) :
    Acc (Next (expand (notFoundTemplates path))) (text ++ X) := by
  induction text using placeholders.induct with
  | case1 text hnone =>
    by_cases hz : 0 ∈ text
    · apply acc_of_stop
      rw [expand, scan_append_of_zero hnone hz]
      rfl
    · exact hX text hz hnone
  | case2 text key rest hsome ih =>
    rw [placeholders_of_some hsome] at hkeys
    apply acc_of_next (expand_append hsome X)
    apply acc_of_next_eq (expand_lookup_harmless (hkeys key List.mem_cons_self) (rest ++ X))
    exact ih (fun k hk ↦ hkeys k (List.mem_cons_of_mem _ hk))

/-- Text of the path behind which nothing is found. -/
private theorem acc_append_of_end {X : List UInt8} (hX : ∀ s, scan s X = none) {a : List UInt8}
    (hz : 0 ∉ a) (ha : scan .init a = none) :
    Acc (Next (expand (notFoundTemplates path))) (a ++ X) := by
  obtain ⟨s, hs⟩ := exists_scan_append ha hz
  apply acc_of_stop
  rw [expand, hs, hX]
  rfl

/-- The resource `404.html` gives way to the path. -/
private theorem expand_notFoundHtml (X : List UInt8) :
    expand (notFoundTemplates path) (notFoundHtml ++ X) =
      some (path.content ++ (closing ++ X)) := by
  have hpath : SameHash (ascii "path") (ascii "path") := rfl
  rw [expand_append scan_notFoundHtml, lookup_notFoundTemplates, if_pos hpath]

/-- The first round inserts the resource `404.html`. -/
private theorem expand_templateHtml :
    expand (notFoundTemplates path) templateHtml = some (notFoundHtml ++ footer) := by
  have hpath : ¬ SameHash (ascii "content") (ascii "path") := by decide
  have hcontent : SameHash (ascii "content") (ascii "content") := rfl
  rw [expand, scan_templateHtml, Option.map_some, lookup_notFoundTemplates, if_neg hpath,
    if_pos hcontent]

/-- Whatever stands for the version in the footer, the text behind it is the end. -/
private theorem acc_lookup_footerEnd (hkeys : ∀ key ∈ placeholders path.content, Harmless key)
    (key : List UInt8) : Acc (Next (expand (notFoundTemplates path)))
      (lookup (notFoundTemplates path) key ++ footerEnd) := by
  have hend : Acc (Next (expand (notFoundTemplates path))) footerEnd :=
    @acc_append_of_end path footerEnd scan_footerEnd [] List.not_mem_nil rfl
  rw [lookup_notFoundTemplates]
  split
  · exact acc_append hkeys (fun _ hz ha ↦ acc_append_of_end scan_footerEnd hz ha)
  · split
    · apply acc_of_next (expand_notFoundHtml footerEnd)
      exact acc_append hkeys (fun _ hz ha ↦ acc_append_of_end scan_closing_footerEnd hz ha)
    · split
      · exact acc_of_next_eq (expand_wsicVersion _ footerEnd) hend
      · exact hend

/-- With harmless keys in the path the expansion of the page stops. -/
theorem acc_templateHtml (hkeys : ∀ key ∈ placeholders path.content, Harmless key) :
    Acc (Next (expand (notFoundTemplates path))) templateHtml := by
  apply acc_of_next expand_templateHtml
  apply acc_of_next (expand_notFoundHtml footer)
  apply acc_append hkeys
  -- The last key begun in the path may have left bytes that the key of the footer ends in.
  intro a hz ha
  obtain ⟨s, hs⟩ := exists_scan_append ha hz
  obtain ⟨key, hkey⟩ := exists_scan_closing_footer s
  apply acc_of_next _ (acc_lookup_footerEnd hkeys key)
  rw [expand, hs, hkey]
  rfl

/-- Expanding text with a key that is not harmless comes back to the path. -/
theorem exists_transGen_append {text : List UInt8}
    (hkey : ∃ key ∈ placeholders text, ¬ Harmless key) (X : List UInt8) :
    ∃ Y, Relation.TransGen (Next (expand (notFoundTemplates path))) (path.content ++ Y)
      (text ++ X) := by
  induction text using placeholders.induct with
  | case1 text hnone =>
    rw [placeholders_of_none hnone] at hkey
    obtain ⟨key, hmem, -⟩ := hkey
    cases hmem
  | case2 text key rest hsome ih =>
    have hnext := @expand_append path text key rest hsome X
    by_cases hpath : SameHash key (ascii "path")
    · rw [lookup_notFoundTemplates, if_pos hpath] at hnext
      exact ⟨_, .single hnext⟩
    · by_cases hcontent : SameHash key (ascii "content")
      · rw [lookup_notFoundTemplates, if_neg hpath, if_pos hcontent] at hnext
        exact ⟨_, .tail (.single (expand_notFoundHtml (rest ++ X))) hnext⟩
      · rw [placeholders_of_some hsome] at hkey
        obtain ⟨bad, hmem, hbad⟩ := hkey
        have hrest : ∃ key ∈ placeholders rest, ¬ Harmless key := by
          refine ⟨bad, (List.mem_cons.mp hmem).resolve_left ?_, hbad⟩
          rintro rfl
          exact hbad ⟨hpath, hcontent⟩
        obtain ⟨Y, hY⟩ := ih hrest
        have hsame := @expand_lookup_harmless path key ⟨hpath, hcontent⟩ (rest ++ X)
        exact ⟨Y, .tail (transGen_of_next_eq hsame hY) hnext⟩

/-- With another key in the path the expansion of the page does not stop. -/
theorem not_acc_templateHtml (hkey : ∃ key ∈ placeholders path.content, ¬ Harmless key) :
    ¬ Acc (Next (expand (notFoundTemplates path))) templateHtml := by
  intro hacc
  have hpath := (hacc.inv expand_templateHtml).inv (expand_notFoundHtml footer)
  refine @not_acc_of_progress _ _ (fun text ↦ ∃ Y, text = path.content ++ Y) ?_ _ ⟨_, rfl⟩ hpath
  rintro _ ⟨X, rfl⟩
  obtain ⟨Y, hY⟩ := exists_transGen_append hkey X
  exact ⟨_, hY, Y, rfl⟩

end Termination

/-! ### The page -/

section Page

variable [FreshBytes]

/-- `page_create404` returns. -/
def Create404Terminates (path : StringT) : Prop :=
  ∃ rounds page, create404 rounds path = .ok page

omit [FreshBytes] in
theorem setTemplate_spec {page : PageT} {table : HashTableT (Option StringT)}
    {m : HashTableT.Map (Option StringT)} (htable : page.templates = some table)
    (hrep : table.Represents m) {name : List UInt8} (hname : 0 ∉ name) (value : Option StringT) :
    ∃ table', page.setTemplate (StringT.fromBuffer name) value =
        .ok { page with templates := some table' } ∧
      table'.Represents (m.set (HashTableT.entryOf (HashTableT.freshKey name) value)) := by
  obtain ⟨table', hset, hrep'⟩ := hrep.setValue (HashTableT.freshKey name) value
  refine ⟨table', ?_, hrep'⟩
  have hkey : StringT.fromBuffer name = (HashTableT.freshKey name).1 := by
    rw [StringT.fromBuffer, cString_eq_self hname]
    rfl
  rw [setTemplate, htable, deref_some, checked_ok_bind, hkey, hset]
  rfl

/-- The page as it is handed to `page_resolveTemplates`. -/
private theorem create404_eq (path : StringT) :
    ∃ page : PageT, page.Remains (notFoundTemplates path) 0 templateHtml ∧ page.Sourced ∧
      ∀ rounds, create404 rounds path = page.resolveTemplates rounds := by
  obtain ⟨t₁, h₁, hrep₁⟩ := @setTemplate_spec ⟨none, some HashTableT.create⟩ _ _ rfl
    HashTableT.represents_create (ascii "version") (by decide)
    (some (StringT.fromBuffer wsicVersion))
  obtain ⟨t₂, h₂, hrep₂⟩ := @setTemplate_spec
    ⟨some (StringT.fromBufferWithLength templateHtml), some t₁⟩ _ _ rfl hrep₁ (ascii "content")
    (by decide) (some (StringT.fromBuffer notFoundHtml))
  obtain ⟨t₃, h₃, hrep₃⟩ := @setTemplate_spec
    ⟨some (StringT.fromBufferWithLength templateHtml), some t₂⟩ _ _ rfl hrep₂ (ascii "path")
    (by decide) (some path)
  refine ⟨⟨some (StringT.fromBufferWithLength templateHtml), some t₃⟩,
    ⟨⟨_, rfl, ?_⟩, ⟨t₃, rfl, hrep₃⟩⟩, ⟨_, rfl, Option.some_ne_none _⟩, ?_⟩
  · rw [StringT.content_fromBufferWithLength, List.drop_zero]
  · intro rounds
    rw [create404, create, h₁, checked_ok_bind]
    dsimp only [setSource]
    rw [h₂, checked_ok_bind, h₃, checked_ok_bind]

theorem create404Terminates_iff_acc (path : StringT) :
    Create404Terminates path ↔ Acc (Next (expand (notFoundTemplates path))) templateHtml := by
  obtain ⟨page, hremains, -, hcreate⟩ := create404_eq path
  unfold Create404Terminates
  simp only [hcreate]
  exact hremains.resolveTemplates_iff

/-- From some number of rounds on, a page with a source is made. -/
def Makes (create : Nat → Checked PageT) : Prop :=
  ∃ n, ∀ rounds ≥ n, ∃ page, create rounds = .ok page ∧ page.Sourced

theorem Remains.makes {page : PageT} {m : HashTableT.Map (Option StringT)} {text : List UInt8}
    (h : page.Remains m 0 text) (hsourced : page.Sourced) (hacc : Acc (Next (expand m)) text) :
    Makes (fun rounds ↦ page.resolveTemplates rounds) := by
  obtain ⟨n, hn⟩ := h.resolveTemplates_of_acc hacc
  refine ⟨n, fun rounds hrounds ↦ ?_⟩
  obtain ⟨page', hpage'⟩ := hn rounds hrounds
  exact ⟨page', hpage', hsourced.resolveTemplates hpage'⟩

/-- The page for a path is made in finitely many rounds exactly when all placeholders that are
scanned in the path are harmless. -/
theorem create404Terminates_iff (path : StringT) :
    Create404Terminates path ↔ ∀ key ∈ placeholders path.content, Harmless key := by
  rw [create404Terminates_iff_acc]
  constructor
  · intro hacc key hmem
    by_contra hkey
    exact not_acc_templateHtml ⟨key, hmem, hkey⟩ hacc
  · exact acc_templateHtml

end Page

/-- The path `/{{path}}` is inserted into itself over and over. -/
theorem path_placeholder_not_terminates :
    ¬ @Create404Terminates FreshBytes.zero
      (StringT.fromBuffer (ascii "/\x7b\x7bpath\x7d\x7d")) := by
  have hscan : scan .init (StringT.fromBuffer (ascii "/\x7b\x7bpath\x7d\x7d")).content =
      some (ascii "path", []) := by decide
  rw [@create404Terminates_iff_acc FreshBytes.zero]
  apply not_acc_templateHtml
  refine ⟨ascii "path", ?_, fun h ↦ h.1 rfl⟩
  rw [placeholders_of_some hscan]
  exact List.mem_cons_self

end Wsic.PageT
