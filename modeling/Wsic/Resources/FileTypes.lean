import Wsic.Resources.Resources

/-!
# Types of files in directories

Which type does `resources_getMIMEType`, `src/resources/resources.c:57–90`, find for a file that is
given with its directory, as `worker_return200` gives it? The extension begins at the first dot of
the path, so a dot in the name of a directory makes it an extension that is not in the table.
-/

open CMemory

namespace Wsic.Resources

/-- What stands from the first dot of a path on, nothing without a dot. -/
def extension (path : List UInt8) : List UInt8 := path.dropWhile (· ≠ 46)

/-- The extension of the path is in the table. -/
def HasKnownType (path : List UInt8) : Prop :=
  ∃ known ∈ mimeTypes, ascii known.1 = extension path

instance (path : List UInt8) : Decidable (HasKnownType path) :=
  inferInstanceAs (Decidable (∃ known ∈ mimeTypes, _))

/-- The type that the table has for a path. -/
def mimeTypeOf (path : List UInt8) : Option StringT :=
  (mimeTypes.find? (ascii ·.1 = extension path)).map (StringT.fromBuffer <| ascii ·.2)

theorem mimeTypeOf_eq_none_iff (path : List UInt8) :
    mimeTypeOf path = none ↔ ¬ HasKnownType path := by
  rw [mimeTypeOf, Option.map_eq_none_iff, List.find?_eq_none]
  simp [HasKnownType]

/-! ### The function -/

/-- The loop finds the first entry with the text of the extension. -/
theorem findMIMEType_eq {string : StringT} {text : List UInt8} (h : string.cstr = .ok text)
    (types : List (String × String)) (hz : ∀ known ∈ types, 0 ∉ ascii known.1) :
    findMIMEType string types =
      .ok ((types.find? (ascii ·.1 = text)).map (StringT.fromBuffer <| ascii ·.2)) := by
  induction types with
  | nil => rfl
  | cons known types ih =>
    obtain ⟨mimeExtension, mimeType⟩ := known
    obtain ⟨hknown, hrest⟩ := List.forall_mem_cons.mp hz
    rw [findMIMEType, StringT.equalsBuffer, h, checked_ok_bind, cString_eq_self hknown]
    by_cases htext : ascii mimeExtension = text
    · simp only [htext, beq_self_eq_true, List.find?_cons, decide_true, Option.map_some]
      rfl
    · have hne : (text == ascii mimeExtension) = false := beq_eq_false_iff_ne.mpr (Ne.symm htext)
      simp only [htext, hne, decide_false, List.find?_cons]
      exact ih hrest

private theorem zero_notMem_extensions : ∀ known ∈ mimeTypes, 0 ∉ ascii known.1 := by
  decide +kernel

private theorem slash_notMem_extensions : ∀ known ∈ mimeTypes, 47 ∉ ascii known.1 := by
  decide +kernel

private theorem extensions_ne_nil : ∀ known ∈ mimeTypes, ascii known.1 ≠ [] := by
  decide +kernel

theorem extension_of_notMem {path : List UInt8} (h : 46 ∉ path) : extension path = [] := by
  rw [extension, List.dropWhile_eq_nil_iff]
  intro c hc
  exact decide_eq_true (fun he ↦ h (he ▸ hc))

theorem extension_append {a b : List UInt8} (h : 46 ∉ a) : extension (a ++ b) = extension b := by
  rw [extension, List.dropWhile_append_of_pos]
  · rfl
  · intro c hc
    exact decide_eq_true (fun he ↦ h (he ▸ hc))

theorem extension_dot (b : List UInt8) : extension (46 :: b) = 46 :: b :=
  List.dropWhile_cons_of_neg (by decide)

/-- The type of a path without NUL is the one the table has for it. -/
theorem getMIMEType_eq {filePath : StringT} (hz : 0 ∉ filePath.content) :
    getMIMEType filePath = .ok (mimeTypeOf filePath.content) := by
  unfold getMIMEType
  by_cases hdot : 46 ∈ filePath.content
  · obtain ⟨a, b, hpath, ha⟩ := List.eq_append_cons_of_mem hdot
    have hza : 0 ∉ a := fun hm ↦ hz (hpath ▸ List.mem_append_left _ hm)
    have hsize := filePath.length_content
    rw [hpath, List.length_append, List.length_cons] at hsize
    rw [StringCursorT.findNextChar_of_append (by decide) ha hza (by rw [StringCursorT.rest_create,
      hpath])]
    have hoffset : (StringCursorT.create filePath).offset + a.length = a.length := Nat.zero_add _
    dsimp only
    rw [hoffset, StringT.substring_of_le (by omega) (by omega) (Nat.le_refl _), checked_ok_bind]
    dsimp only
    have hextension : (filePath.content.drop a.length).take (filePath.size - a.length) =
        extension filePath.content := by
      rw [hpath, List.drop_left, extension_append ha, extension_dot, List.take_of_length_le]
      rw [List.length_cons]
      omega
    have hcstr : (StringT.fromBufferWithLength (extension filePath.content)).cstr =
        .ok (extension filePath.content) := by
      rw [StringT.cstr_fromBufferWithLength, cString_eq_self]
      exact fun hm ↦ hz ((List.dropWhile_suffix _).subset hm)
    rw [hextension, findMIMEType_eq hcstr _ zero_notMem_extensions]
    rfl
  · have hnone : mimeTypeOf filePath.content = none := by
      rw [mimeTypeOf_eq_none_iff]
      rintro ⟨known, hknown, hextension⟩
      rw [extension_of_notMem hdot] at hextension
      exact extensions_ne_nil known hknown hextension
    rw [StringCursorT.findNextChar_of_notMem (by
      rw [StringCursorT.rest_create]
      exact fun hm ↦ hdot (List.takeWhile_subset _ hm)), hnone]

/-! ### Directories -/

/-- A dot in the directory hides the type of every file in it. -/
theorem not_hasKnownType_of_mem {directory : List UInt8} (h : 46 ∈ directory) (name : List UInt8) :
    ¬ HasKnownType (directory ++ 47 :: name) := by
  rintro ⟨known, hknown, hextension⟩
  obtain ⟨a, b, rfl, ha⟩ := List.eq_append_cons_of_mem h
  rw [List.append_assoc, extension_append ha, List.cons_append, extension_dot] at hextension
  apply slash_notMem_extensions known hknown
  rw [hextension]
  simp

/-- The type of a file in a directory is the type of its bare name if and only if the directory
has no dot, or the name has no extension that is in the table. -/
theorem sameType_iff {filePath fileName : StringT} {directory name : List UInt8}
    (hpath : filePath.content = directory ++ 47 :: name) (hname : fileName.content = name)
    (hdirectory : 0 ∉ directory) (hz : 0 ∉ name) :
    (∃ mimeType, getMIMEType filePath = .ok mimeType ∧ getMIMEType fileName = .ok mimeType) ↔
      46 ∉ directory ∨ ¬ HasKnownType name := by
  have hzpath : 0 ∉ filePath.content := by
    rw [hpath]
    simp [hdirectory, hz]
  rw [getMIMEType_eq hzpath, getMIMEType_eq (hname ▸ hz), hpath, hname]
  by_cases hdot : 46 ∈ directory
  · have hnone := (mimeTypeOf_eq_none_iff _).mpr (not_hasKnownType_of_mem hdot name)
    rw [hnone, ← mimeTypeOf_eq_none_iff name]
    constructor
    · rintro ⟨mimeType, ⟨⟩, hsame⟩
      exact .inr (Except.ok.inj hsame)
    · intro h
      obtain h := h.resolve_left (fun hno ↦ hno hdot)
      exact ⟨none, rfl, congrArg Except.ok h⟩
  · refine iff_of_true ⟨mimeTypeOf name, ?_, rfl⟩ (.inl hdot)
    have hslash : directory ++ 47 :: name = (directory ++ [47]) ++ name := List.append_cons _ _ _
    rw [hslash, mimeTypeOf, extension_append (by simpa using hdot), mimeTypeOf]

/-- A page in a directory without dots. -/
theorem sameType_srv : ∃ mimeType,
    getMIMEType (StringT.fromBuffer (ascii "/srv/index.html")) = .ok mimeType ∧
      getMIMEType (StringT.fromBuffer (ascii "index.html")) = .ok mimeType :=
  (@sameType_iff _ _ (ascii "/srv") (ascii "index.html") (by decide) (by decide)
    (by decide) (by decide)).mpr (.inl (by decide))

/-- The page `index.html` has a type, but none in the directory `/srv/example.com`. -/
theorem dot_in_directory_not_sameType : ¬ ∃ mimeType,
    getMIMEType (StringT.fromBuffer (ascii "/srv/example.com/index.html")) = .ok mimeType ∧
      getMIMEType (StringT.fromBuffer (ascii "index.html")) = .ok mimeType := by
  rintro ⟨mimeType, hpath, hname⟩
  have hnone : getMIMEType (StringT.fromBuffer (ascii "/srv/example.com/index.html")) =
      .ok none := by decide +kernel
  have hsome : getMIMEType (StringT.fromBuffer (ascii "index.html")) =
      .ok (some (StringT.fromBuffer (ascii "text/html"))) := by decide +kernel
  rw [hnone] at hpath
  rw [hsome] at hname
  cases hpath
  cases hname

end Wsic.Resources
