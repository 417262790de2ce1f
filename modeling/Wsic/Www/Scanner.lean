import Wsic.Www.PageT

/-!
# The scanner on text

What one scan of `page_resolveTemplate` sees, as a function of the text from the offset on:
the key that is looked up for the first complete placeholder and the text behind it. The key
is the C string of a buffer that `string_clear` does not empty, so the bytes of earlier,
abandoned keys belong to the state.
-/

open CMemory

namespace Wsic

/-- The state of the scan: whether a placeholder is open, the letters of its key, the bytes
that the buffer of the key holds behind them, and the last character. -/
structure ScanState where
  inside : Bool
  key : List UInt8
  stale : List UInt8
  previous : UInt8

namespace ScanState

/-- Before the first character. -/
def init : ScanState := ⟨false, [], [], 0⟩

/-- The key that is looked up. -/
def keyText (s : ScanState) : List UInt8 := cString (s.key ++ s.stale)

/-- One character; nothing when it completes a placeholder. -/
def read (s : ScanState) (c : UInt8) : Option ScanState :=
  if s.previous = 123 ∧ c = 123 then some { s with inside := true, previous := c }
  else if s.inside then
    if 97 ≤ c ∧ c ≤ 122 then
      some { s with key := s.key ++ [c], stale := s.stale.tail, previous := c }
    else if c ≠ 125 then some ⟨false, [], 0 :: (s.key ++ s.stale).tail, c⟩
    else if s.previous = 125 then none
    else some { s with previous := c }
  else some { s with previous := c }

/-- Outside of placeholders only the last character changes, unless a placeholder is opened. -/
theorem read_outside {s : ScanState} {c : UInt8} (hs : s.inside = false)
    (h : ¬ (s.previous = 123 ∧ c = 123)) : s.read c = some { s with previous := c } := by
  unfold read
  rw [if_neg h, hs]
  rfl

end ScanState

/-- The first complete placeholder: its key and the text behind it. Scanning stops at NUL. -/
def scan : ScanState → List UInt8 → Option (List UInt8 × List UInt8)
  | _, [] => none
  | s, c :: text =>
    if c = 0 then none
    else match s.read c with
      | none => some (s.keyText, text)
      | some s => scan s text

theorem length_of_scan {s : ScanState} {text key rest : List UInt8}
    (h : scan s text = some (key, rest)) : rest.length < text.length := by
  induction text generalizing s with
  | nil => cases h
  | cons c text ih =>
    rw [scan] at h
    split at h
    · cases h
    · cases hs : s.read c with
      | none =>
        rw [hs] at h
        cases h
        exact Nat.lt_succ_self _
      | some s' =>
        rw [hs] at h
        exact (ih h).trans (Nat.lt_succ_self _)

/-! ### Scanning on -/

/-- A placeholder that is complete is found whatever comes behind it. -/
theorem scan_append_of_some {s : ScanState} {a key rest : List UInt8}
    (h : scan s a = some (key, rest)) (b : List UInt8) :
    scan s (a ++ b) = some (key, rest ++ b) := by
  induction a generalizing s with
  | nil => cases h
  | cons c a ih =>
    rw [scan] at h
    rw [List.cons_append, scan]
    split at h
    · cases h
    · next hc =>
      rw [if_neg hc]
      cases hs : s.read c with
      | none =>
        rw [hs] at h
        cases h
        rfl
      | some s' =>
        rw [hs] at h
        exact ih h

/-- Nothing behind a NUL is found. -/
theorem scan_append_of_zero {s : ScanState} {a : List UInt8} (h : scan s a = none) (hz : 0 ∈ a)
    (b : List UInt8) : scan s (a ++ b) = none := by
  induction a generalizing s with
  | nil => cases hz
  | cons c a ih =>
    rw [scan] at h
    rw [List.cons_append, scan]
    split at h
    · next hc => rw [if_pos hc]
    · next hc =>
      rw [if_neg hc]
      have ha : 0 ∈ a := (List.mem_cons.mp hz).resolve_left (fun he ↦ hc he.symm)
      cases hs : s.read c with
      | none =>
        rw [hs] at h
        cases h
      | some s' =>
        rw [hs] at h
        exact ih h ha

/-- Text without a complete placeholder leaves some state behind. -/
theorem exists_scan_append {s : ScanState} {a : List UInt8} (h : scan s a = none) (hz : 0 ∉ a) :
    ∃ s', ∀ b, scan s (a ++ b) = scan s' b := by
  induction a generalizing s with
  | nil => exact ⟨s, fun _ ↦ rfl⟩
  | cons c a ih =>
    have hc : c ≠ 0 := fun he ↦ hz (he ▸ List.mem_cons_self)
    rw [scan, if_neg hc] at h
    cases hs : s.read c with
    | none =>
      rw [hs] at h
      cases h
    | some s' =>
      rw [hs] at h
      obtain ⟨s'', hb⟩ := ih h (fun hm ↦ hz (List.mem_cons_of_mem _ hm))
      refine ⟨s'', fun b ↦ ?_⟩
      rw [List.cons_append, scan, if_neg hc, hs]
      exact hb b

/-- Outside of placeholders the last character matters only when it is a brace. -/
theorem scan_previous {s : ScanState} {previous : UInt8} (hs : s.inside = false)
    (hp : s.previous ≠ 123) (hp' : previous ≠ 123) (text : List UInt8) :
    scan { s with previous := previous } text = scan s text := by
  cases text with
  | nil => rfl
  | cons c text =>
    rw [scan, scan, ScanState.read_outside hs (fun h ↦ hp h.1),
      @ScanState.read_outside { s with previous := previous } c hs (fun h ↦ hp' h.1)]

/-- Without an opening brace nothing is found outside of placeholders. -/
theorem scan_outside {s : ScanState} (hs : s.inside = false) {text : List UInt8}
    (ht : 123 ∉ text) : scan s text = none := by
  induction text generalizing s with
  | nil => rfl
  | cons c text ih =>
    have hc : c ≠ 123 := fun he ↦ ht (he ▸ List.mem_cons_self)
    rw [scan, ScanState.read_outside hs (fun h ↦ hc h.2)]
    split
    · rfl
    · exact ih hs (fun hm ↦ ht (List.mem_cons_of_mem _ hm))

/-- Text without an opening brace leaves a state outside of placeholders behind. -/
theorem exists_scan_outside {s : ScanState} (hs : s.inside = false) (hp : s.previous ≠ 123)
    {a : List UInt8} (ha : 123 ∉ a) (hz : 0 ∉ a) :
    ∃ s', s'.inside = false ∧ s'.previous ≠ 123 ∧ ∀ b, scan s (a ++ b) = scan s' b := by
  induction a generalizing s with
  | nil => exact ⟨s, hs, hp, fun _ ↦ rfl⟩
  | cons c a ih =>
    have hc : c ≠ 123 := fun he ↦ ha (he ▸ List.mem_cons_self)
    have hc₀ : c ≠ 0 := fun he ↦ hz (he ▸ List.mem_cons_self)
    obtain ⟨s', hs', hp', hb⟩ := @ih { s with previous := c } hs hc
      (fun hm ↦ ha (List.mem_cons_of_mem _ hm)) (fun hm ↦ hz (List.mem_cons_of_mem _ hm))
    refine ⟨s', hs', hp', fun b ↦ ?_⟩
    rw [List.cons_append, scan, if_neg hc₀, ScanState.read_outside hs (fun h ↦ hc h.2)]
    exact hb b

/-- Characters that end a placeholder without completing it. -/
def Illegal (c : UInt8) : Prop := c ≠ 0 ∧ c ≠ 123 ∧ c ≠ 125 ∧ ¬ (97 ≤ c ∧ c ≤ 122)

instance (c : UInt8) : Decidable (Illegal c) := inferInstanceAs (Decidable (_ ∧ _ ∧ _ ∧ _))

theorem exists_read_illegal (s : ScanState) {c : UInt8} (hc : Illegal c) :
    ∃ s', s.read c = some s' ∧ s'.inside = false ∧ s'.previous = c := by
  obtain ⟨-, hopen, hclose, hletter⟩ := hc
  unfold ScanState.read
  rw [if_neg (fun h ↦ hopen h.2), if_neg hletter, if_pos hclose]
  split
  · exact ⟨_, rfl, rfl, rfl⟩
  · next hs => exact ⟨_, rfl, by simpa using hs, rfl⟩

/-- The keys of all placeholders of a text that are scanned one after another. -/
def placeholders (text : List UInt8) : List (List UInt8) :=
  match _h : scan .init text with
  | none => []
  | some (key, rest) => key :: placeholders rest
termination_by text.length
decreasing_by exact length_of_scan _h

theorem placeholders_of_none {text : List UInt8} (h : scan .init text = none) :
    placeholders text = [] := by
  rw [placeholders]
  split
  · rfl
  · next hsome =>
    rw [hsome] at h
    cases h

theorem placeholders_of_some {text key rest : List UInt8} (h : scan .init text = some (key, rest)) :
    placeholders text = key :: placeholders rest := by
  rw [placeholders]
  split
  · next hnone =>
    rw [hnone] at h
    cases h
  · next hsome =>
    rw [hsome] at h
    cases h
    rfl

namespace PageT

/-! ### The buffer of the key -/

/-- The content of the key, and the bytes of its buffer as far as they are not NUL. -/
def KeyHolds (key : StringT) (letters stale : List UInt8) : Prop :=
  key.content = letters ∧ ∀ i, key.bytes.getD i 0 = (letters ++ stale).getD i 0

/-- The scan of the code, at an offset, and the state on the text. -/
structure ScanT.Shows (scan : ScanT) (s : ScanState) (offset : Nat) : Prop where
  inside : scan.templateStart.isSome = s.inside
  start_le : ∀ start, scan.templateStart = some start → start ≤ offset
  previous : scan.previous = s.previous
  key : KeyHolds scan.templateKey s.key s.stale
  buffer : scan.templateKey.buffer ≠ none

section Keys

variable [FreshBytes]

theorem keyHolds_init : KeyHolds (StringT.create.setBufferSize 100) [] [] := by
  have hprints := StringT.prints_create_setBufferSize 100
  refine ⟨hprints.2, ?_⟩
  intro i
  have hsize : (StringT.create.setBufferSize 100).size = 0 := by
    rw [← StringT.length_content, hprints.2, List.length_nil]
  have hclean := hprints.1
  rw [StringT.Clean, hsize, List.drop_zero] at hclean
  rw [List.append_nil, List.getD_nil, List.getD_eq_getElem?_getD]
  cases hget : (StringT.create.setBufferSize 100).bytes[i]? with
  | none => rfl
  | some x => exact hclean x (List.mem_of_getElem? hget)

theorem KeyHolds.appendChar {key : StringT} {letters stale : List UInt8}
    (h : KeyHolds key letters stale) {c : UInt8} (hc : c ≠ 0) :
    KeyHolds (key.appendChar c) (letters ++ [c]) stale.tail := by
  have hcontent : (key.appendChar c).content = letters ++ [c] := by
    rw [StringT.content_appendChar key hc, h.1]
  have hsize : key.size = letters.length := by rw [← StringT.length_content, h.1]
  refine ⟨hcontent, ?_⟩
  intro i
  by_cases hi : i < (letters ++ [c]).length
  · rw [List.getD_append _ _ _ _ hi, StringT.bytes_eq, hcontent, List.getD_append _ _ _ _ hi]
  · rw [List.length_append, List.length_singleton, Nat.not_lt] at hi
    rw [StringT.appendChar,
      StringT.getD_bytes_appendBufferWithLength _ _ (by simpa [hsize] using hi), h.2,
      List.getD_append_right _ _ _ _ (by omega),
      List.getD_append_right _ _ _ _ (by simpa using hi)]
    cases stale with
    | nil => rfl
    | cons x stale =>
      have hj : i - letters.length = i - (letters ++ [c]).length + 1 := by
        rw [List.length_append, List.length_singleton]
        omega
      rw [hj]
      rfl

end Keys

theorem KeyHolds.clear {key : StringT} {letters stale : List UInt8}
    (h : KeyHolds key letters stale) :
    KeyHolds key.clear [] (0 :: (letters ++ stale).tail) := by
  refine ⟨rfl, ?_⟩
  have hbytes : key.clear.bytes = key.bytes.set 0 0 := by
    change (key.buffer.map (·.set 0 0)).getD [] = (key.buffer.getD []).set 0 0
    cases key.buffer <;> rfl
  intro i
  have hi := h.2 i
  cases i with
  | zero =>
    rw [hbytes]
    cases key.bytes <;> rfl
  | succ i =>
    rw [hbytes, List.nil_append, List.getD_cons_succ, List.getD_eq_getElem?_getD,
      List.getElem?_set_ne (Nat.succ_ne_zero i).symm, ← List.getD_eq_getElem?_getD, hi]
    cases letters ++ stale <;> rfl

/-! ### The scan -/

section Scan

variable [FreshBytes]

/-- One character on both. -/
theorem ScanT.Shows.read {scan : ScanT} {s : ScanState} {offset : Nat}
    (h : scan.Shows s offset) {c : UInt8} (hc : c ≠ 0) :
    (scan.read c (offset + 1) = none ∧ s.read c = none ∧ s.inside = true) ∨
      ∃ scan' s', scan.read c (offset + 1) = some scan' ∧ s.read c = some s' ∧
        scan'.Shows s' (offset + 1) := by
  unfold ScanT.read ScanState.read
  rw [h.previous]
  split
  · refine .inr ⟨_, _, rfl, rfl, rfl, ?_, rfl, h.key, h.buffer⟩
    rintro start ⟨⟩
    exact Nat.sub_le _ _
  · cases hs : scan.templateStart with
    | none =>
      have hinside : s.inside = false := by
        rw [← h.inside, hs]
        rfl
      rw [hinside]
      refine .inr ⟨_, _, rfl, rfl, rfl, ?_, rfl, h.key, h.buffer⟩
      rintro _ ⟨⟩
    | some start =>
      have hinside : s.inside = true := by
        rw [← h.inside, hs]
        rfl
      have hstart (start' : Nat) (he : some start = some start') : start' ≤ offset + 1 := by
        cases he
        exact (h.start_le start hs).trans (Nat.le_succ offset)
      rw [if_pos hinside]
      dsimp only
      split
      · exact .inr ⟨_, _, rfl, rfl, hinside.symm, hstart, rfl, h.key.appendChar hc,
          Option.some_ne_none _⟩
      · split
        · refine .inr ⟨_, _, rfl, rfl, rfl, ?_, rfl, h.key.clear, ?_⟩
          · rintro _ ⟨⟩
          · rw [StringT.clear, ne_eq, Option.map_eq_none_iff]
            exact h.buffer
        · split
          · exact .inl ⟨rfl, rfl, hinside⟩
          · exact .inr ⟨_, _, rfl, rfl, hinside.symm, hstart, rfl, h.key, h.buffer⟩

/-- A scan without a complete placeholder. -/
theorem scanLoop_of_none {rounds : Nat} {cursor : StringCursorT} {scan : ScanT} {s : ScanState}
    (h : scan.Shows s cursor.offset) (hnone : Wsic.scan s cursor.rest = none) :
    scanLoop rounds cursor scan = none := by
  induction rounds generalizing cursor scan s with
  | zero => rfl
  | succ rounds ih =>
    rw [scanLoop]
    cases hrest : cursor.rest with
    | nil =>
      rw [StringCursorT.getNextChar_nil hrest]
      rfl
    | cons c text =>
      rw [hrest, Wsic.scan] at hnone
      rw [StringCursorT.getNextChar_cons hrest]
      dsimp only
      split
      · rfl
      · next hc =>
        rw [if_neg hc] at hnone
        obtain ⟨-, hread, -⟩ | ⟨scan', s', hread, hread', hshows⟩ := h.read hc
        · rw [hread] at hnone
          cases hnone
        · rw [hread'] at hnone
          have hoffset : (cursor.advance 1).offset = cursor.offset + 1 := rfl
          rw [hoffset, hread]
          apply ih hshows
          rwa [StringCursorT.rest_advance, hrest]

/-- A scan that completes a placeholder. -/
theorem scanLoop_of_some {rounds : Nat} {cursor : StringCursorT} {scan : ScanT} {s : ScanState}
    {key rest : List UInt8} (hr : cursor.rest.length ≤ rounds) (h : scan.Shows s cursor.offset)
    (hsome : Wsic.scan s cursor.rest = some (key, rest)) :
    ∃ scan' templateEnd start, scanLoop rounds cursor scan = some (scan', templateEnd) ∧
      scan'.templateStart = some start ∧ start ≤ templateEnd ∧
      templateEnd < cursor.string.size ∧ cursor.string.content.drop (templateEnd + 1) = rest ∧
      scan'.templateKey.buffer ≠ none ∧ cString scan'.templateKey.bytes = key := by
  induction rounds generalizing cursor scan s with
  | zero =>
    rw [List.eq_nil_of_length_eq_zero (Nat.le_zero.mp hr)] at hsome
    cases hsome
  | succ rounds ih =>
    rw [scanLoop]
    cases hrest : cursor.rest with
    | nil =>
      rw [hrest] at hsome
      cases hsome
    | cons c text =>
      rw [hrest, Wsic.scan] at hsome
      rw [StringCursorT.getNextChar_cons hrest]
      dsimp only
      split
      · next hc =>
        rw [if_pos hc] at hsome
        cases hsome
      · next hc =>
        rw [if_neg hc] at hsome
        have hoffset : (cursor.advance 1).offset = cursor.offset + 1 := rfl
        have hlen := cursor.length_rest
        rw [hrest, List.length_cons] at hlen hr
        obtain ⟨hread, hread', hinside⟩ | ⟨scan', s', hread, hread', hshows⟩ := h.read hc
        · rw [hread'] at hsome
          cases hsome
          obtain ⟨start, hstart⟩ := Option.isSome_iff_exists.mp (h.inside.trans hinside)
          rw [hoffset, hread]
          refine ⟨scan, cursor.offset, start, rfl, hstart, h.start_le start hstart, by omega, ?_,
            h.buffer, cString_congr h.key.2⟩
          rw [← List.tail_drop]
          exact congrArg List.tail hrest
        · rw [hread'] at hsome
          rw [hoffset, hread]
          have hnext : (cursor.advance 1).rest = text := by
            rw [StringCursorT.rest_advance, hrest]
            rfl
          rw [← hnext] at hsome
          exact ih (by rw [hnext]; omega) hshows hsome

/-! ### The replacement -/

/-- The text of a value; a missing value has none. -/
def valueText (value : Option StringT) : List UInt8 := value.elim [] StringT.content

omit [FreshBytes] in
private theorem length_valueText (value : Option StringT) :
    (valueText value).length = templateValueLength value := by
  cases value with
  | none => rfl
  | some value => exact StringT.length_content value

private theorem appendTemplateValue_prints {source : StringT} {a : List UInt8}
    (h : source.Prints a) (value : Option StringT)
    (hf : a.length + templateValueLength value ≤ source.bufferSize) :
    (appendTemplateValue source value).Prints (a ++ valueText value) ∧
      source.bufferSize ≤ (appendTemplateValue source value).bufferSize := by
  cases value with
  | none =>
    rw [valueText, Option.elim_none, List.append_nil]
    exact ⟨h, Nat.le_refl _⟩
  | some value =>
    rw [appendTemplateValue]
    split
    · refine ⟨h.appendBufferWithLength ?_, StringT.bufferSize_le_appendBufferWithLength _ _⟩
      rwa [← length_valueText] at hf
    · next hz =>
      have hvalue : value.content = [] := by
        apply List.eq_nil_of_length_eq_zero
        rw [StringT.length_content]
        omega
      rw [valueText, Option.elim_some, hvalue, List.append_nil]
      exact ⟨h, Nat.le_refl _⟩

/-- The value stands in the place of the template. -/
theorem content_replaceTemplate (oldSource : StringT) {templateStart templateEnd : Nat}
    (value : Option StringT) (hle : templateStart ≤ templateEnd)
    (hlt : templateEnd < oldSource.size) :
    (replaceTemplate oldSource templateStart templateEnd value).content =
      oldSource.content.take templateStart ++ valueText value ++
        oldSource.content.drop (templateEnd + 1) := by
  have hbefore : oldSource.bytes.take templateStart = oldSource.content.take templateStart := by
    rw [StringT.content, List.take_take, Nat.min_eq_left (by omega)]
  have hafter : (oldSource.bytes.drop (templateEnd + 1)).take (oldSource.size - templateEnd - 1) =
      oldSource.content.drop (templateEnd + 1) := by
    rw [StringT.content, List.drop_take, Nat.sub_sub]
  have hlen := oldSource.length_content
  unfold replaceTemplate
  rw [hbefore, hafter]
  dsimp only
  generalize hn : oldSource.size - (templateEnd - templateStart) - 1 +
    templateValueLength value = n
  have hroom : n ≤ (StringT.create.setBufferSize n).bufferSize := by
    rw [StringT.bufferSize_create_setBufferSize]
    split <;> omega
  have hprints := (StringT.prints_create_setBufferSize n).appendBufferWithLength
    (b := oldSource.content.take templateStart)
    (by rw [List.length_nil, List.length_take]; omega)
  have hroom₁ := StringT.bufferSize_le_appendBufferWithLength (StringT.create.setBufferSize n)
    (oldSource.content.take templateStart)
  obtain ⟨hprints₂, hroom₂⟩ := appendTemplateValue_prints hprints value
    (by rw [List.nil_append, List.length_take]; omega)
  have hprints₃ := hprints₂.appendBufferWithLength
    (b := oldSource.content.drop (templateEnd + 1))
    (by rw [List.length_append, List.length_append, length_valueText, List.length_nil,
          List.length_take, List.length_drop]
        omega)
  rw [hprints₃.2, List.nil_append]

end Scan

end PageT

end Wsic
