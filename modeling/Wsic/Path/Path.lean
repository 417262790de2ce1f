import Wsic.String.Content

/-!
# Paths below a root

Model of `src/path/path.c`. `realpath` and `stat` are functions of the file system, which
stands still during a request; `realpath` returns a canonical path or fails.
-/

open CMemory

namespace Wsic

/-- An absolute path without NUL whose components are neither empty nor `.` nor `..`. -/
def Canonical (path : List UInt8) : Prop :=
  0 ∉ path ∧ path.head? = some 47 ∧
    (path = [47] ∨ ∀ component ∈ (path.splitOn 47).tail,
      component ≠ [] ∧ component ≠ [46] ∧ component ≠ [46, 46])

instance (path : List UInt8) : Decidable (Canonical path) :=
  inferInstanceAs (Decidable (_ ∧ _ ∧ (_ ∨ _)))

/-- A path as `realpath` returns it. -/
abbrev CanonicalPath := { path : List UInt8 // Canonical path }

/-- What the server asks the operating system about C strings. -/
structure FileSystem where
  realpath : List UInt8 → Option CanonicalPath
  isRegular : List UInt8 → Bool
  isExecutable : List UInt8 → Bool

namespace Path

/-- `path_resolve`, `path.c:7`. -/
def resolve [FreshBytes] (fs : FileSystem) (relativePath root : StringT) :
    Checked (Option StringT) := do
  let path := (StringT.fromBufferWithLength root.content).appendChar 47
  let path ← path.append relativePath
  match fs.realpath (← path.cstr) with
  | none => return none
  | some resolvedPathBuffer =>
    let resolvedPath := StringT.fromBuffer resolvedPathBuffer.1
    match ← resolvedPath.substring 0 root.size with
    | none => return none
    | some resolvedRoot =>
      if ← resolvedRoot.equals root then return some resolvedPath else return none

/-- `path_relativeTo`, `path.c:41`. -/
def relativeTo (fs : FileSystem) (path root : StringT) : Checked (Option StringT) := do
  match fs.realpath (← path.cstr) with
  | none => return none
  | some resolvedPathBuffer =>
    let resolvedPath := StringT.fromBuffer resolvedPathBuffer.1
    match ← resolvedPath.substring 0 root.size with
    | none => return none
    | some resolvedRoot =>
      if ← resolvedRoot.equals root then resolvedPath.substring root.size resolvedPath.size
      else return none

/-! ### What is accepted -/

/-- The canonical path of `root/relativePath`, when it starts with the bytes of the root. -/
def target (fs : FileSystem) (relativePath root : List UInt8) : Option CanonicalPath :=
  (fs.realpath (root ++ 47 :: relativePath)).filter (fun path ↦ root.isPrefixOf path.1)

theorem fromBuffer_canonical (path : CanonicalPath) :
    StringT.fromBuffer path.1 = StringT.fromBufferWithLength path.1 := by
  rw [StringT.fromBuffer, cString_eq_self path.2.1]

theorem cstr_canonical (path : CanonicalPath) : (StringT.fromBuffer path.1).cstr = .ok path.1 := by
  rw [fromBuffer_canonical, StringT.cstr_fromBufferWithLength, cString_eq_self path.2.1]

theorem canonical_ne_nil (path : CanonicalPath) : path.1 ≠ [] := by
  intro h
  have hhead := path.2.2.1
  rw [h] at hhead
  cases hhead

private theorem path_text [FreshBytes] {relativePath : StringT} {p : List UInt8}
    (hp : relativePath.cstr = .ok p) (root : CanonicalPath) :
    ∃ path, ((StringT.fromBufferWithLength
        (StringT.fromBuffer root.1).content).appendChar 47).append relativePath = .ok path ∧
      path.cstr = .ok (root.1 ++ 47 :: p) := by
  rw [fromBuffer_canonical, StringT.content_fromBufferWithLength]
  have hroot := (StringT.prints_fromBufferWithLength root.1).appendChar
    (show (47 : UInt8) ≠ 0 by decide)
  obtain ⟨path, happend, hprints⟩ := hroot.append hp
  rw [List.append_assoc, List.singleton_append] at hprints
  refine ⟨path, happend, hprints.cstr ?_ (by simp)⟩
  simp [root.2.1, StringT.zero_notMem_of_cstr hp]

/-- The check of the code: the first bytes of the resolved path are those of the root. -/
private theorem substring_equals (root path : CanonicalPath) :
    (do
      match ← (StringT.fromBuffer path.1).substring 0 (StringT.fromBuffer root.1).size with
      | none => return none
      | some resolvedRoot =>
        if ← resolvedRoot.equals (StringT.fromBuffer root.1) then
          return some (StringT.fromBuffer path.1)
        else return none : Checked (Option StringT)) =
      .ok (if root.1.isPrefixOf path.1 then some (StringT.fromBuffer path.1) else none) := by
  have hpath : 0 < path.1.length := List.length_pos_iff.mpr (canonical_ne_nil path)
  rw [fromBuffer_canonical, fromBuffer_canonical, StringT.size_fromBufferWithLength]
  by_cases hlen : root.1.length ≤ path.1.length
  · have htake : 0 ∉ path.1.take root.1.length := fun h ↦ path.2.1 (List.mem_of_mem_take h)
    rw [StringT.substring_of_le (Nat.zero_le _) (by rwa [StringT.size_fromBufferWithLength])
      (by rwa [StringT.size_fromBufferWithLength]), checked_ok_bind]
    dsimp only
    rw [StringT.equals, StringT.buffer_fromBufferWithLength, deref_some, checked_ok_bind,
      StringT.equalsBuffer, StringT.cstr_fromBufferWithLength, checked_ok_bind,
      StringT.content_fromBufferWithLength, List.drop_zero, Nat.sub_zero, cString_eq_self htake,
      cString_append_zero, cString_eq_self root.2.1]
    have hiff : (path.1.take root.1.length == root.1) = root.1.isPrefixOf path.1 := by
      rw [Bool.eq_iff_iff, beq_iff_eq, List.isPrefixOf_iff_prefix, List.prefix_iff_eq_take, eq_comm]
    rw [hiff]
    cases root.1.isPrefixOf path.1 <;> rfl
  · have hnot : root.1.isPrefixOf path.1 = false := by
      rw [Bool.eq_false_iff, ne_eq, List.isPrefixOf_iff_prefix]
      exact fun h ↦ hlen h.length_le
    rw [StringT.substring_of_not (.inr (by rw [StringT.size_fromBufferWithLength]; omega)), hnot]
    rfl

/-- The code accepts a target exactly when its bytes start with those of the root, and has
none without a C string to append. -/
theorem resolve_eq [FreshBytes] (fs : FileSystem) (relativePath : StringT) (root : CanonicalPath) :
    resolve fs relativePath (StringT.fromBuffer root.1) =
      relativePath.cstr.map (fun p ↦
        (target fs p root.1).map (fun path ↦ StringT.fromBuffer path.1)) := by
  cases hp : relativePath.cstr with
  | error e =>
    unfold StringT.cstr at hp
    cases hb : relativePath.buffer with
    | none =>
      rw [hb] at hp
      cases hp
      rw [resolve, StringT.append, hb]
      rfl
    | some buffer =>
      rw [hb] at hp
      cases hp
  | ok p =>
    obtain ⟨path, happend, hcstr⟩ := path_text hp root
    rw [resolve, happend, checked_ok_bind, hcstr, checked_ok_bind]
    change _ = Except.ok ((target fs p root.1).map _)
    rw [target]
    cases fs.realpath (root.1 ++ 47 :: p) with
    | none => rfl
    | some path =>
      dsimp only
      rw [substring_equals, Option.filter_some]
      cases root.1.isPrefixOf path.1 <;> rfl

end Path
end Wsic
