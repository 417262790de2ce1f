import Wsic.String.Cursor

/-!
# Files and their types

Model of `src/resources/resources.c` and `src/resources/mime.c`: a file is read character by
character, and its type is found by what follows the first dot of its path.
-/

open CMemory

namespace Wsic.Resources

/-- `mime_extensions` and `mime_types`, `mime.c:3` and `mime.c:69`. -/
def mimeTypes : List (String × String) := [
  (".html", "text/html"),
  (".aac", "audio/aac"),
  (".abw", "application/x-abiword"),
  (".arc", "application/x-freearc"),
  (".avi", "video/x-msvideo"),
  (".azw", "application/vnd.amazon.ebook"),
  (".bin", "application/octet-stream"),
  (".bmp", "image/bmp"),
  (".bz", "application/x-bzip"),
  (".bz2", "application/x-bzip2"),
  (".csh", "application/x-csh"),
  (".css", "text/css"),
  (".csv", "text/csv"),
  (".doc", "application/msword"),
  (".docx", "application/vnd.openxmlformats-officedocument.wordprocessingml.document"),
  (".eot", "application/vnd.ms-fontobject"),
  (".epub", "application/epub+zip"),
  (".gz", "application/gzip"),
  (".gif", "image/gif"),
  (".ico", "image/vnd.microsoft.icon"),
  (".ics", "text/calendar"),
  (".jar", "application/java-archive"),
  (".js", "text/javascript"),
  (".json", "application/json"),
  (".jsonld", "application/ld+json"),
  (".mjs", "text/javascript"),
  (".mp3", "audio/mpeg"),
  (".mpeg", "video/mpeg"),
  (".mpkg", "application/vnd.apple.installer+xml"),
  (".odp", "application/vnd.oasis.opendocument.presentation"),
  (".ods", "application/vnd.oasis.opendocument.spreadsheet"),
  (".odt", "application/vnd.oasis.opendocument.text"),
  (".oga", "audio/ogg"),
  (".ogv", "video/ogg"),
  (".ogx", "application/ogg"),
  (".otf", "font/otf"),
  (".png", "image/png"),
  (".pdf", "application/pdf"),
  (".php", "appliction/php"),
  (".ppt", "application/vnd.ms-powerpoint"),
  (".pptx", "application/vnd.openxmlformats-officedocument.presentationml.presentation"),
  (".rar", "application/x-rar-compressed"),
  (".rtf", "application/rtf"),
  (".sh", "application/x-sh"),
  (".svg", "image/svg+xml"),
  (".swf", "application/x-shockwave-flash"),
  (".tar", "application/x-tar"),
  (".ts", "video/mp2t"),
  (".ttf", "font/ttf"),
  (".txt", "text/plain"),
  (".vsd", "application/vnd.visio"),
  (".wav", "audio/wav"),
  (".weba", "audio/webm"),
  (".webm", "video/webm"),
  (".webp", "image/webp"),
  (".woff", "font/woff"),
  (".woff2", "font/woff2"),
  (".xhtml", "application/xhtml+xml"),
  (".xls", "application/vnd.ms-excel"),
  (".xlsx", "application/vnd.openxmlformats-officedocument.spreadsheetml.sheet"),
  (".xul", "application/vnd.mozilla.xul+xml"),
  (".zip", "application/zip"),
  (".7z", "application/x-7z-compressed")]

/-- The loop of `resources_getMIMEType`, `resources.c:79–85`. -/
def findMIMEType (extension : StringT) : List (String × String) → Checked (Option StringT)
  | [] => .ok none
  | (mimeExtension, mimeType) :: rest => do
    if ← extension.equalsBuffer (ascii mimeExtension) then
      return some (StringT.fromBuffer (ascii mimeType))
    else findMIMEType extension rest

/-- `resources_getMIMEType`, `resources.c:57`. -/
def getMIMEType (filePath : StringT) : Checked (Option StringT) :=
  match ((StringCursorT.create filePath).findNextChar 46).1 with
  | none => .ok none
  | some dotIndex => do
    match ← filePath.substring dotIndex filePath.size with
    | none => return none
    | some extension => findMIMEType extension mimeTypes

/-- `fgetc`: the next byte as an `unsigned char` converted to `int`, `EOF` behind the last. -/
def fgetc : List UInt8 → Int × List UInt8
  | [] => (-1, [])
  | c :: file => (c.toNat, file)

/-- The loop of `resources_loadFile`, `resources.c:48–50`; each round reads one character. It is
stored in a `char`, which is signed, and compared with `EOF` as such. -/
def readLoop [FreshBytes] : Nat → List UInt8 → StringT → StringT
  | 0, _, content => content
  | rounds + 1, file, content =>
    let (c, file) := fgetc file
    let current := BitVec.ofInt 8 c
    if current.toInt = -1 then content
    else readLoop rounds file (content.appendChar (UInt8.ofBitVec current))

/-- `resources_loadFile`, `resources.c:12`, with what the operating system does: the file is
not opened, or it has a size and these bytes are read from it. -/
def loadFile [FreshBytes] (openFile : List UInt8 → Option (ℕ × List UInt8)) (filePath : StringT) :
    Checked (Option StringT) := do
  match openFile (← filePath.cstr) with
  | none => return none
  | some (fileSize, bytes) =>
    let content := StringT.create.setBufferSize fileSize
    -- The last round reads `EOF`.
    return some (readLoop (bytes.length + 1) bytes content)

/-! ### What is loaded -/

/-- Only the byte 255 is `EOF` as a signed character. -/
private theorem toInt_char_iff (c : UInt8) : c.toBitVec.toInt = -1 ↔ c = 255 := by
  have h255 : (-1 : Int) = (255 : UInt8).toBitVec.toInt := rfl
  rw [h255, BitVec.toInt_inj, UInt8.toBitVec_inj]

private theorem ofInt_toNat (c : UInt8) : BitVec.ofInt 8 c.toNat = c.toBitVec := by
  rw [BitVec.ofInt_natCast, ← UInt8.toNat_toBitVec, BitVec.ofNat_toNat, BitVec.setWidth_eq]

/-- The loop appends the bytes before the first 255. -/
theorem readLoop_eq [FreshBytes] (bytes : List UInt8) {rounds : Nat} (h : bytes.length < rounds)
    (content : StringT) : readLoop rounds bytes content =
      (bytes.takeWhile (· ≠ 255)).foldl StringT.appendChar content := by
  induction rounds generalizing bytes content with
  | zero => omega
  | succ rounds ih =>
    cases bytes with
    | nil => rfl
    | cons c bytes =>
      simp only [readLoop, fgetc, ofInt_toNat, toInt_char_iff, List.takeWhile_cons]
      by_cases hc : c = 255
      · simp [hc]
      · rw [List.length_cons] at h
        simp only [hc, if_false]
        rw [ih bytes (by omega)]
        simp [hc]

/-- A file is loaded up to its first byte 255. -/
theorem loadFile_eq [FreshBytes] (openFile : List UInt8 → Option (ℕ × List UInt8))
    {filePath : StringT} {path : List UInt8} (hpath : filePath.cstr = .ok path) :
    loadFile openFile filePath = .ok ((openFile path).map fun file ↦
      (file.2.takeWhile (· ≠ 255)).foldl StringT.appendChar
        (StringT.create.setBufferSize file.1)) := by
  rw [loadFile, hpath, checked_ok_bind]
  cases openFile path with
  | none => rfl
  | some file =>
    rw [Option.map_some, ← readLoop_eq file.2 (Nat.lt_succ_self _)]
    rfl

/-- Every file that can be read is loaded with its size and its bytes, NUL included, exactly
when it has no byte 255. -/
theorem loadFile_complete_iff [FreshBytes] (openFile : List UInt8 → Option (ℕ × List UInt8))
    {filePath : StringT} {path bytes : List UInt8} (hpath : filePath.cstr = .ok path)
    (hopen : openFile path = some (bytes.length, bytes)) :
    (∃ content, loadFile openFile filePath = .ok (some content) ∧ content.size = bytes.length ∧
      content.content = bytes) ↔ 255 ∉ bytes := by
  have hroom : bytes.length ≤ (StringT.create.setBufferSize bytes.length).bufferSize := by
    rw [StringT.bufferSize_create_setBufferSize]
    split <;> omega
  have hle : (bytes.takeWhile (· ≠ 255)).length ≤ bytes.length :=
    (List.takeWhile_prefix _).length_le
  have hprints := (StringT.prints_create_setBufferSize bytes.length).foldl_appendChar
    (bytes.takeWhile (· ≠ 255)) (by rw [List.length_nil]; omega)
  rw [loadFile_eq openFile hpath, hopen]
  constructor
  · rintro ⟨content, he, -, hcontent⟩
    cases he
    rw [hprints.2, List.nil_append] at hcontent
    intro hm
    rw [← hcontent] at hm
    simpa using List.mem_takeWhile_imp hm
  · intro hm
    have hall : bytes.takeWhile (· ≠ 255) = bytes := by
      apply List.takeWhile_eq_self_iff.mpr
      intro c hc
      exact decide_eq_true (fun he ↦ hm (he ▸ hc))
    rw [hall, List.nil_append] at hprints
    rw [Option.map_some, hall]
    refine ⟨_, rfl, ?_, hprints.2⟩
    rw [← StringT.length_content, hprints.2]

/-- A file of NUL bytes only is loaded completely. -/
theorem loadFile_complete_nul : ∃ content,
    @loadFile FreshBytes.zero (fun _ ↦ some (2, [0, 0])) (StringT.fromBuffer (ascii "/x")) =
      .ok (some content) ∧ content.size = 2 ∧ content.content = [0, 0] :=
  (@loadFile_complete_iff FreshBytes.zero (fun _ ↦ some (2, [0, 0])) _ _ [0, 0]
    (StringT.cstr_fromBuffer _) rfl).mpr (by decide)

/-- Of the three bytes `a`, 255, `b` only the first is loaded. -/
theorem loadFile_stops_at_255 : ¬ ∃ content,
    @loadFile FreshBytes.zero (fun _ ↦ some (3, [97, 255, 98])) (StringT.fromBuffer (ascii "/x")) =
      .ok (some content) ∧ content.size = 3 ∧ content.content = [97, 255, 98] := by
  let _ : FreshBytes := FreshBytes.zero
  rintro ⟨content, he, -, hcontent⟩
  have hload : loadFile (fun _ ↦ some (3, [97, 255, 98]))
      (StringT.fromBuffer (ascii "/x")) = .ok (some (StringT.appendChar
        (StringT.create.setBufferSize 3) 97)) := by decide +kernel
  rw [hload] at he
  cases he
  exact absurd hcontent (by decide +kernel)

end Wsic.Resources
