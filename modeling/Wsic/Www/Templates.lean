import Mathlib.Data.List.Sublists
import Mathlib.Data.Set.Finite.Lattice
import Wsic.Www.Expansion

/-!
# Recursive expansion of templates

What `page_resolveTemplates` of `src/www/www.c` is for: every placeholder gives way to the
expansion of its value. The code rewrites the source in place and scans an inserted value again,
so on texts whose braces all belong to placeholders, and with values that do not mention
themselves, the loop ends with the recursive expansion.
-/

open CMemory Relation

namespace Wsic.PageT

/-! ### Texts with placeholders -/

/-- Letters from `a` to `z`. -/
def Letters (key : List UInt8) : Prop := ∀ c ∈ key, 97 ≤ c ∧ c ≤ 122

instance (key : List UInt8) : Decidable (Letters key) := List.decidableBAll _ key

/-- The placeholder of a key. -/
def placeholder (key : List UInt8) : List UInt8 := 123 :: 123 :: (key ++ [125, 125])

theorem length_placeholder (key : List UInt8) : (placeholder key).length = key.length + 4 := by
  simp [placeholder]

/-- A character that is neither NUL nor a brace. -/
def Plain (c : UInt8) : Prop := c ≠ 0 ∧ c ≠ 123 ∧ c ≠ 125

instance (c : UInt8) : Decidable (Plain c) := inferInstanceAs (Decidable (_ ∧ _ ∧ _))

/-- A text without NUL whose braces all belong to placeholders. -/
inductive WellFormed : List UInt8 → Prop where
  | nil : WellFormed []
  | char {c : UInt8} {text : List UInt8} : Plain c → WellFormed text → WellFormed (c :: text)
  | hole {key text : List UInt8} :
      Letters key → WellFormed text → WellFormed (placeholder key ++ text)

/-- The full expansion of a text: a placeholder gives way to the expansion of what its key is
looked up as, which is empty when the key has no value. -/
inductive Expands (m : HashTableT.Map (Option StringT)) : List UInt8 → List UInt8 → Prop where
  | nil : Expands m [] []
  | char {c : UInt8} {text out : List UInt8} :
      Plain c → Expands m text out → Expands m (c :: text) (c :: out)
  | hole {key text value out : List UInt8} : Letters key → Expands m (lookup m key) value →
      Expands m text out → Expands m (placeholder key ++ text) (value ++ out)

private theorem letters_append_inj {key key' text text' : List UInt8} (hkey : Letters key)
    (hkey' : Letters key') (h : key ++ 125 :: text = key' ++ 125 :: text') :
    key = key' ∧ text = text' := by
  have hnot {k : List UInt8} (hk : Letters k) : (125 : UInt8) ∉ k := by
    intro hm
    exact absurd (hk 125 hm).2 (by decide)
  exact append_cons_unique (hnot hkey) (hnot hkey') h

theorem placeholder_append_inj {key key' text text' : List UInt8} (hkey : Letters key)
    (hkey' : Letters key') (h : placeholder key ++ text = placeholder key' ++ text') :
    key = key' ∧ text = text' := by
  simp only [placeholder, List.cons_append, List.append_assoc, List.cons.injEq, true_and,
    List.nil_append] at h
  obtain ⟨rfl, htext⟩ := letters_append_inj hkey hkey' h
  exact ⟨rfl, (List.cons.inj htext).2⟩

/-- A text has at most one expansion. -/
theorem Expands.unique {m : HashTableT.Map (Option StringT)} {text out out' : List UInt8}
    (h : Expands m text out) (h' : Expands m text out') : out = out' := by
  induction h generalizing out' with
  | nil => cases h' with
    | nil => rfl
  | char hc _ ih =>
    cases h' with
    | char _ h' => rw [ih h']
    | hole => exact absurd rfl hc.2.1
  | @hole key text value out hkey _ _ ihvalue ihtext =>
    generalize htext : placeholder key ++ text = all at h'
    cases h' with
    | nil => cases htext
    | char hc _ =>
      obtain ⟨rfl, -⟩ := List.cons.inj htext
      exact absurd rfl hc.2.1
    | hole hkey' hvalue' hout' =>
      obtain ⟨rfl, rfl⟩ := placeholder_append_inj hkey hkey' htext
      rw [ihvalue hvalue', ihtext hout']

/-! ### Expansions exist -/

section Acyclic

variable {m : HashTableT.Map (Option StringT)}

end Acyclic

/-! ### The rewriting of the code -/

/-- From a source that is done up to a place, with this text behind it, the rewriting ends in
this result: it stops at a text without placeholders, and else puts what the first key is looked
up as in the place of its placeholder. -/
inductive Ends (m : HashTableT.Map (Option StringT)) :
    List UInt8 → List UInt8 → List UInt8 → Prop where
  | stop {done text : List UInt8} : (∀ c ∈ text, Plain c) → Ends m done text (done ++ text)
  | step {done before key text result : List UInt8} : (∀ c ∈ before, Plain c) → Letters key →
      Ends m (done ++ before) (lookup m key ++ text) result →
      Ends m done (before ++ (placeholder key ++ text)) result

section Rewriting

variable {m : HashTableT.Map (Option StringT)}

/-- A plain character in front is passed over. -/
private theorem Ends.char {done text result : List UInt8} {c : UInt8} (hc : Plain c)
    (h : Ends m (done ++ [c]) text result) : Ends m done (c :: text) result := by
  generalize hdone : done ++ [c] = start at h
  cases h with
  | stop htext =>
    rw [← hdone, List.append_assoc, List.singleton_append]
    exact .stop (List.forall_mem_cons.mpr ⟨hc, htext⟩)
  | step hbefore hkey h =>
    rw [← List.cons_append]
    refine .step (List.forall_mem_cons.mpr ⟨hc, hbefore⟩) hkey ?_
    rwa [← hdone, List.append_assoc, List.singleton_append] at h

/-- The rewriting replaces a text by its expansion and goes on behind it. -/
private theorem Ends.of_expands {text out : List UInt8} (h : Expands m text out)
    {done rest result : List UInt8} (hrest : Ends m (done ++ out) rest result) :
    Ends m done (text ++ rest) result := by
  induction h generalizing done rest with
  | nil => rwa [List.append_nil] at hrest
  | @char c text out hc _ ih =>
    apply Ends.char hc
    apply ih
    rwa [List.append_assoc, List.singleton_append]
  | @hole key text value out hkey _ _ ihvalue ihtext =>
    rw [← List.append_assoc] at hrest
    rw [List.append_assoc]
    refine Ends.step (fun _ hm ↦ absurd hm List.not_mem_nil) hkey ?_
    rw [List.append_nil]
    exact ihvalue (ihtext hrest)

/-- The rewriting of a text ends in its expansion. -/
theorem Expands.ends {text out : List UInt8} (h : Expands m text out) : Ends m [] text out := by
  rw [← List.append_nil text]
  apply Ends.of_expands h
  have hstop : Ends m out [] (out ++ []) := .stop (fun _ hm ↦ absurd hm List.not_mem_nil)
  rwa [List.append_nil] at hstop

end Rewriting

/-! ### The scan of the code -/

section Scan

variable [FreshBytes]

/-- One round of the scan. -/
private theorem scanLoop_cons {rounds : Nat} {cursor : StringCursorT} {scan : ScanT} {c : UInt8}
    {r : List UInt8} (h : cursor.rest = c :: r) (hc : c ≠ 0) :
    scanLoop (rounds + 1) cursor scan = match scan.read c (cursor.offset + 1) with
      | none => some (scan, cursor.offset)
      | some scan => scanLoop rounds (cursor.advance 1) scan := by
  rw [scanLoop, StringCursorT.getNextChar_cons h]
  dsimp only
  rw [if_neg hc]
  rfl

/-- Characters in front of a placeholder are passed over. -/
private theorem scanLoop_plain {before r : List UInt8} (hbefore : ∀ c ∈ before, Plain c)
    {rounds : Nat} {cursor : StringCursorT} {key : StringT} {previous : UInt8}
    (hprevious : previous ≠ 123) (h : cursor.rest = before ++ r) :
    ∃ previous', previous' ≠ 123 ∧
      scanLoop (before.length + rounds) cursor ⟨key, none, previous⟩ =
        scanLoop rounds (cursor.advance before.length) ⟨key, none, previous'⟩ := by
  induction before generalizing cursor previous with
  | nil =>
    rw [List.length_nil, Nat.zero_add]
    exact ⟨previous, hprevious, rfl⟩
  | cons c before ih =>
    obtain ⟨hc, hbefore⟩ := List.forall_mem_cons.mp hbefore
    have hread : ScanT.read ⟨key, none, previous⟩ c (cursor.offset + 1) = some ⟨key, none, c⟩ := by
      rw [ScanT.read, if_neg (fun hand ↦ hprevious hand.1)]
    have hrest : (cursor.advance 1).rest = before ++ r := by
      rw [StringCursorT.rest_advance, h]
      rfl
    obtain ⟨previous', hp', hloop⟩ := ih hbefore hc.2.1 hrest
    refine ⟨previous', hp', ?_⟩
    rw [List.length_cons, Nat.add_right_comm, scanLoop_cons h hc.1, hread]
    dsimp only
    rw [hloop, StringCursorT.advance_advance, Nat.add_comm 1]

/-- Inside a placeholder the letters are appended to the key. -/
private theorem scanLoop_letters {letters r : List UInt8} (hletters : Letters letters)
    {rounds start : Nat} {cursor : StringCursorT} {key : StringT} {previous : UInt8}
    (hprevious : previous ≠ 125) (h : cursor.rest = letters ++ r) :
    ∃ previous', previous' ≠ 125 ∧
      scanLoop (letters.length + rounds) cursor ⟨key, some start, previous⟩ =
        scanLoop rounds (cursor.advance letters.length)
          ⟨letters.foldl StringT.appendChar key, some start, previous'⟩ := by
  induction letters generalizing cursor key previous with
  | nil =>
    rw [List.length_nil, Nat.zero_add]
    exact ⟨previous, hprevious, rfl⟩
  | cons c letters ih =>
    obtain ⟨hc, hletters⟩ := List.forall_mem_cons.mp hletters
    have hne (d : UInt8) (hd : ¬ (97 ≤ d ∧ d ≤ 122)) : c ≠ d := fun he ↦ hd (he ▸ hc)
    have hread : ScanT.read ⟨key, some start, previous⟩ c (cursor.offset + 1) =
        some ⟨key.appendChar c, some start, c⟩ := by
      rw [ScanT.read, if_neg (fun hand ↦ hne 123 (by decide) hand.2)]
      dsimp only
      rw [if_pos hc]
    have hrest : (cursor.advance 1).rest = letters ++ r := by
      rw [StringCursorT.rest_advance, h]
      rfl
    obtain ⟨previous', hp', hloop⟩ :=
      @ih hletters _ (key.appendChar c) _ (hne 125 (by decide)) hrest
    refine ⟨previous', hp', ?_⟩
    rw [List.length_cons, Nat.add_right_comm, scanLoop_cons h (hne 0 (by decide)), hread]
    dsimp only
    rw [hloop, StringCursorT.advance_advance, Nat.add_comm 1]
    rfl

omit [FreshBytes] in
private theorem rest_advance_one {cursor : StringCursorT} {c : UInt8} {r : List UInt8}
    (h : cursor.rest = c :: r) : (cursor.advance 1).rest = r := by
  rw [StringCursorT.rest_advance, h]
  rfl

/-- The two opening braces start a placeholder. -/
private theorem scanLoop_open {rounds : Nat} {cursor : StringCursorT} {key : StringT}
    {previous : UInt8} {r : List UInt8} (hprevious : previous ≠ 123)
    (h : cursor.rest = 123 :: 123 :: r) :
    scanLoop (2 + rounds) cursor ⟨key, none, previous⟩ =
      scanLoop rounds (cursor.advance 2) ⟨key, some cursor.offset, 123⟩ := by
  have hfirst : ScanT.read ⟨key, none, previous⟩ 123 (cursor.offset + 1) =
      some ⟨key, none, 123⟩ := by
    rw [ScanT.read, if_neg (fun hand ↦ hprevious hand.1)]
  have hsecond : ScanT.read ⟨key, none, 123⟩ 123 ((cursor.advance 1).offset + 1) =
      some ⟨key, some cursor.offset, 123⟩ := by
    rw [ScanT.read, if_pos ⟨rfl, rfl⟩]
    rfl
  have hnext := rest_advance_one h
  rw [show 2 + rounds = (rounds + 1) + 1 by omega, scanLoop_cons h (by decide), hfirst]
  dsimp only
  rw [scanLoop_cons hnext (by decide), hsecond]
  dsimp only
  rw [StringCursorT.advance_advance]

/-- The two closing braces complete it. -/
private theorem scanLoop_close {rounds start : Nat} {cursor : StringCursorT} {key : StringT}
    {previous : UInt8} {r : List UInt8} (hprevious : previous ≠ 125)
    (h : cursor.rest = 125 :: 125 :: r) :
    scanLoop (2 + rounds) cursor ⟨key, some start, previous⟩ =
      some (⟨key, some start, 125⟩, cursor.offset + 1) := by
  have hfirst : ScanT.read ⟨key, some start, previous⟩ 125 (cursor.offset + 1) =
      some ⟨key, some start, 125⟩ := by
    rw [ScanT.read, if_neg (by rintro ⟨-, ⟨⟩⟩)]
    dsimp only
    rw [if_neg (by decide), if_neg (by decide), if_neg hprevious]
  have hsecond : ScanT.read ⟨key, some start, 125⟩ 125 ((cursor.advance 1).offset + 1) = none := by
    rw [ScanT.read, if_neg (by rintro ⟨-, ⟨⟩⟩)]
    dsimp only
    rw [if_neg (by decide), if_neg (by decide), if_pos rfl]
  have hnext := rest_advance_one h
  rw [show 2 + rounds = (rounds + 1) + 1 by omega, scanLoop_cons h (by decide), hfirst]
  dsimp only
  rw [scanLoop_cons hnext (by decide), hsecond]
  rfl

/-- The first placeholder of a text, with its place. -/
private theorem scanLoop_placeholder {before key r : List UInt8} (hbefore : ∀ c ∈ before, Plain c)
    (hkey : Letters key) {cursor : StringCursorT} {templateKey : StringT}
    (h : cursor.rest = before ++ (placeholder key ++ r)) :
    scanLoop cursor.rest.length cursor ⟨templateKey, none, 0⟩ =
      some (⟨key.foldl StringT.appendChar templateKey, some (cursor.offset + before.length), 125⟩,
        cursor.offset + before.length + key.length + 3) := by
  have hlength : cursor.rest.length =
      before.length + (2 + (key.length + (2 + r.length))) := by
    rw [h, placeholder]
    simp only [List.length_append, List.length_cons, List.length_nil]
    omega
  have hopen : (cursor.advance before.length).rest = 123 :: 123 :: (key ++ 125 :: 125 :: r) := by
    rw [StringCursorT.rest_advance, h, List.drop_left, placeholder]
    simp only [List.cons_append, List.append_assoc, List.nil_append]
  have hletters : ((cursor.advance before.length).advance 2).rest = key ++ 125 :: 125 :: r := by
    rw [StringCursorT.rest_advance, hopen]
    rfl
  have hclose : (((cursor.advance before.length).advance 2).advance key.length).rest =
      125 :: 125 :: r := by
    rw [StringCursorT.rest_advance, hletters, List.drop_left]
  obtain ⟨p₁, hp₁, h₁⟩ := scanLoop_plain hbefore (by decide : (0 : UInt8) ≠ 123) h
  obtain ⟨p₂, hp₂, h₂⟩ := scanLoop_letters hkey (by decide : (123 : UInt8) ≠ 125) hletters
  rw [hlength, h₁, scanLoop_open hp₁ hopen, h₂, scanLoop_close hp₂ hclose]
  simp only [StringCursorT.advance, Option.some.injEq, Prod.mk.injEq, true_and]
  omega

/-- The key that is collected from letters. -/
private theorem collected_key {key : List UInt8} (hkey : Letters key) {templateKey : StringT}
    {a : List UInt8} (h : templateKey.Prints a) (hbuffer : templateKey.buffer ≠ none) :
    (key.foldl StringT.appendChar templateKey).Prints (a ++ key) ∧
      (key.foldl StringT.appendChar templateKey).buffer ≠ none := by
  induction key generalizing templateKey a with
  | nil =>
    rw [List.append_nil]
    exact ⟨h, hbuffer⟩
  | cons c key ih =>
    obtain ⟨hc, hkey⟩ := List.forall_mem_cons.mp hkey
    have hc0 : c ≠ 0 := by
      rintro rfl
      exact absurd hc.1 (by decide)
    rw [← List.singleton_append, ← List.append_assoc]
    exact ih hkey (h.appendChar hc0) (Option.some_ne_none _)

private theorem hash_collected {key : List UInt8} (hkey : Letters key) :
    ∃ hbuffer, HashTableT.Key.hash
      ⟨key.foldl StringT.appendChar (StringT.create.setBufferSize 100), hbuffer⟩ =
        HashTableT.hash key := by
  obtain ⟨hprints, hbuffer⟩ := collected_key hkey (StringT.prints_create_setBufferSize 100)
    (Option.some_ne_none _)
  refine ⟨hbuffer, ?_⟩
  obtain ⟨b, hb⟩ := Option.ne_none_iff_exists'.mp hbuffer
  have hz : 0 ∉ key := fun hm ↦ absurd (hkey 0 hm).1 (by decide)
  have hcstr := hprints.1.terminated.cstr_of_nulFree hb (by rwa [hprints.2])
  obtain ⟨b', hb', hcontent⟩ := StringT.exists_buffer_of_cstr hcstr
  rw [HashTableT.Key.hash, ← HashTableT.hash_cString, StringT.bytes, hb', Option.getD_some,
    hcontent, hprints.2, List.nil_append]

end Scan

/-! ### The loop of the code -/

/-- The page has the entries of the map, and a source that is done up to a place. -/
structure Stage (page : PageT) (m : HashTableT.Map (Option StringT)) (done text : List UInt8) :
    Prop where
  source : ∃ source, page.source = some source ∧ source.content = done ++ text
  templates : ∃ templates, page.templates = some templates ∧ templates.Represents m

section Loop

variable [FreshBytes] {page : PageT} {m : HashTableT.Map (Option StringT)}

/-- A round that finds no placeholder. -/
private theorem Stage.resolveTemplate_plain {done text : List UInt8} (h : page.Stage m done text)
    (htext : ∀ c ∈ text, Plain c) : page.resolveTemplate done.length = .ok (none, page) := by
  obtain ⟨source, hsource, hcontent⟩ := h.source
  have hremains : page.Remains m done.length text :=
    ⟨⟨source, hsource, by rw [hcontent, List.drop_left]⟩, h.templates⟩
  apply hremains.resolveTemplate_of_none
  rw [expand, scan_outside rfl (fun hm ↦ (htext 123 hm).2.1 rfl)]
  rfl

/-- A round that replaces the first placeholder. -/
private theorem Stage.resolveTemplate_hole {done before key text : List UInt8}
    (h : page.Stage m done (before ++ (placeholder key ++ text)))
    (hbefore : ∀ c ∈ before, Plain c) (hkey : Letters key) :
    ∃ page', page.resolveTemplate done.length = .ok (some (done ++ before).length, page') ∧
      page'.Stage m (done ++ before) (lookup m key ++ text) := by
  obtain ⟨source, hsource, hcontent⟩ := h.source
  obtain ⟨templates, htemplates, hrep⟩ := h.templates
  obtain ⟨hbuffer, hhash⟩ := hash_collected hkey
  obtain ⟨templates', hget, hrep'⟩ := hrep.getValue ⟨_, hbuffer⟩
  rw [hhash] at hget
  have hrest : (StringCursorT.mk source done.length).rest =
      before ++ (placeholder key ++ text) := by
    rw [StringCursorT.rest, hcontent, List.drop_left]
  have hscan := @scanLoop_placeholder _ _ _ _ hbefore hkey ⟨source, done.length⟩
    (StringT.create.setBufferSize 100) hrest
  rw [StringCursorT.length_rest] at hscan
  dsimp only at hscan
  have hsize : source.size = (done ++ (before ++ (placeholder key ++ text))).length := by
    rw [← hcontent, StringT.length_content]
  rw [List.length_append, List.length_append, List.length_append, length_placeholder] at hsize
  let value := ((m.get (HashTableT.hash key)).map (·.value)).join
  refine ⟨⟨some (replaceTemplate source (done.length + before.length)
    (done.length + before.length + key.length + 3) value), some templates'⟩, ?_,
    ⟨_, rfl, ?_⟩, ⟨templates', rfl, hrep'⟩⟩
  · rw [List.length_append]
    exact resolveTemplate_of_scanLoop hsource htemplates hscan rfl hget
  · have htake : source.content.take (done.length + before.length) = done ++ before := by
      rw [hcontent, ← List.append_assoc, ← List.length_append, List.take_left]
    have hdrop : source.content.drop (done.length + before.length + key.length + 3 + 1) = text := by
      have hplace : done.length + before.length + key.length + 3 + 1 =
          (done ++ before ++ placeholder key).length := by
        rw [List.length_append, List.length_append, length_placeholder]
        omega
      rw [hcontent, hplace, ← List.append_assoc, ← List.append_assoc, List.drop_left]
    rw [content_replaceTemplate source value (by omega) (by omega), htake, hdrop,
      List.append_assoc]
    rfl

/-- Given enough rounds, the loop of the code ends where the rewriting ends. -/
private theorem Ends.resolveTemplatesLoop {done text result : List UInt8}
    (h : Ends m done text result) (hpage : page.Stage m done text) :
    ∃ n, ∀ rounds ≥ n, ∃ page', resolveTemplatesLoop rounds page done.length = .ok page' ∧
      page'.Stage m result [] := by
  induction h generalizing page with
  | @stop done text htext =>
    refine ⟨1, fun rounds hrounds ↦ ?_⟩
    obtain ⟨rounds, rfl⟩ := Nat.exists_eq_add_of_le' hrounds
    refine ⟨page, ?_, ?_, hpage.templates⟩
    · rw [PageT.resolveTemplatesLoop, hpage.resolveTemplate_plain htext]
      rfl
    · rw [List.append_nil]
      exact hpage.source
  | @step done before key text result hbefore hkey _ ih =>
    obtain ⟨page', hresolve, hstage⟩ := hpage.resolveTemplate_hole hbefore hkey
    obtain ⟨n, hn⟩ := ih hstage
    refine ⟨n + 1, fun rounds hrounds ↦ ?_⟩
    obtain ⟨rounds, rfl⟩ := Nat.exists_eq_add_of_le' (Nat.le_of_add_left_le hrounds)
    obtain ⟨page'', hloop, hresult⟩ := hn rounds (by omega)
    refine ⟨page'', ?_, hresult⟩
    rw [PageT.resolveTemplatesLoop, hresolve, checked_ok_bind]
    exact hloop

end Loop

end Wsic.PageT
