import Wsic.Http.Response

/-!
# The header block

What `http_toResponseString` prints for the headers of a message, `http_parseHeader` reads back:
the block between the status line and the empty line, cut at CRLF, gives a new message the same
header table.
-/

open CMemory

namespace Wsic

/-- The text of a string is the C string in its buffer. -/
def StringT.text (s : StringT) : List UInt8 := cString s.bytes

namespace HttpT

/-! ### Cutting the text -/

/-- Cut a text at every CRLF. -/
def cutAtCrlf : List UInt8 → List (List UInt8)
  | [] => [[]]
  | 13 :: 10 :: rest => [] :: cutAtCrlf rest
  | c :: rest =>
    match cutAtCrlf rest with
    | [] => [[c]]
    | piece :: pieces => (c :: piece) :: pieces

/-- The pieces up to the empty line. -/
def headerPieces (text : List UInt8) : List (List UInt8) := (cutAtCrlf text).takeWhile (· ≠ [])

/-- Nothing before a CRLF is cut. -/
theorem cutAtCrlf_append {piece : List UInt8} (h : 13 ∉ piece) (rest : List UInt8) :
    cutAtCrlf (piece ++ 13 :: 10 :: rest) = piece :: cutAtCrlf rest := by
  induction piece with
  | nil => rfl
  | cons c piece ih =>
    have hc : c ≠ 13 := fun he ↦ h (he ▸ List.mem_cons_self)
    rw [List.cons_append, cutAtCrlf, ih (fun hm ↦ h (List.mem_cons_of_mem _ hm))]
    rintro rest' rfl
    exact absurd rfl hc

/-- The line of a header without its CRLF. -/
def headerPiece (header : List UInt8 × List UInt8) : List UInt8 :=
  header.1 ++ 58 :: 32 :: header.2

theorem headerLine_eq (header : List UInt8 × List UInt8) :
    headerLine header = headerPiece header ++ [13, 10] := by
  rw [headerLine, headerPiece, show ascii ": " = [58, 32] by decide +kernel]
  simp only [List.append_assoc, List.cons_append, List.nil_append]

/-- The lines of headers without CR are cut apart. -/
theorem headerPieces_lines {headers : List (List UInt8 × List UInt8)}
    (h : ∀ header ∈ headers, 13 ∉ headerPiece header) (body : List UInt8) :
    headerPieces (headers.flatMap headerLine ++ 13 :: 10 :: body) = headers.map headerPiece := by
  induction headers with
  | nil => rfl
  | cons header headers ih =>
    have hne : headerPiece header ≠ [] := by simp [headerPiece]
    have hpieces := ih (fun other ho ↦ h other (List.mem_cons_of_mem _ ho))
    rw [headerPieces] at hpieces
    rw [List.flatMap_cons, headerLine_eq, List.append_assoc, List.append_assoc, List.cons_append,
      List.cons_append, List.nil_append, headerPieces,
      cutAtCrlf_append (h header List.mem_cons_self),
      List.takeWhile_cons_of_pos (by simpa using hne), hpieces, List.map_cons]

/-! ### The first empty line -/

/-- What is sent before the body: the status line, the headers and an empty line. -/
def Message.head (message : Message) : List UInt8 :=
  message.statusLine ++ message.headers.entries.flatMap headerLine ++ [13, 10]

/-- A text up to its first empty line and with it. -/
def throughEmptyLine : List UInt8 → List UInt8
  | [] => []
  | 13 :: 10 :: 13 :: 10 :: _ => [13, 10, 13, 10]
  | c :: rest => c :: throughEmptyLine rest

theorem throughEmptyLine_cons {c : UInt8} (h : c ≠ 13) (rest : List UInt8) :
    throughEmptyLine (c :: rest) = c :: throughEmptyLine rest := by
  rw [throughEmptyLine]
  rintro rest' rfl
  exact absurd rfl h

/-- A piece of a line is before the empty line. -/
theorem throughEmptyLine_append {piece : List UInt8} (h : 13 ∉ piece) (rest : List UInt8) :
    throughEmptyLine (piece ++ rest) = piece ++ throughEmptyLine rest := by
  induction piece with
  | nil => rfl
  | cons c piece ih =>
    rw [List.cons_append, throughEmptyLine_cons (fun hc ↦ h (hc ▸ List.mem_cons_self)),
      ih (fun hm ↦ h (List.mem_cons_of_mem _ hm))]
    rfl

/-- Another line behind a line end is not the empty line. -/
theorem throughEmptyLine_crlf {c : UInt8} (h : c ≠ 13) (rest : List UInt8) :
    throughEmptyLine (13 :: 10 :: c :: rest) = 13 :: 10 :: throughEmptyLine (c :: rest) := by
  rw [throughEmptyLine, throughEmptyLine_cons (by decide)]
  intro rest' _ hrest
  cases hrest
  exact h rfl

/-- The empty line is the one behind the headers. -/
theorem throughEmptyLine_headers {headers : List (List UInt8 × List UInt8)}
    (h : ∀ header ∈ headers, 13 ∉ headerPiece header) (body : List UInt8) :
    throughEmptyLine (13 :: 10 :: (headers.flatMap headerLine ++ 13 :: 10 :: body)) =
      13 :: 10 :: (headers.flatMap headerLine ++ [13, 10]) := by
  induction headers with
  | nil => rfl
  | cons header headers ih =>
    have hlines := ih (fun other ho ↦ h other (List.mem_cons_of_mem _ ho))
    have hpiece := h header List.mem_cons_self
    obtain ⟨c, piece, hcons⟩ := List.exists_cons_of_ne_nil
      (show headerPiece header ≠ [] by simp [headerPiece])
    have hc : c ≠ 13 := by
      rintro rfl
      exact hpiece (hcons ▸ List.mem_cons_self)
    rw [List.flatMap_cons, headerLine_eq, hcons]
    simp only [List.append_assoc, List.cons_append, List.nil_append]
    rw [throughEmptyLine_crlf hc, ← List.cons_append, ← hcons, throughEmptyLine_append hpiece,
      hlines, hcons, List.cons_append]

/-- The lines of the head hold no CR. -/
structure Message.Lined (message : Message) : Prop where
  version : 13 ∉ versionText message.version
  codeText : 13 ∉ message.codeText.getD []
  headers : ∀ header ∈ message.headers.entries, 13 ∉ headerPiece header

/-- The first empty line of a response is the one at the end of its head. -/
theorem Message.Lined.throughEmptyLine {message : Message} (h : message.Lined)
    (body : List UInt8) : throughEmptyLine (message.head ++ body) = message.head := by
  have hdecimal : 13 ∉ StringT.decimal message.code.toNat :=
    fun hm ↦ absurd (StringT.mem_decimal hm).1 (by decide)
  have hstatus : 13 ∉ versionText message.version ++ StringT.decimal message.code.toNat ++ [32] ++
      message.codeText.getD [] := by
    simp only [List.mem_append, not_or]
    exact ⟨⟨⟨h.version, hdecimal⟩, by decide⟩, h.codeText⟩
  have hhead := throughEmptyLine_append hstatus
    (13 :: 10 :: (message.headers.entries.flatMap headerLine ++ 13 :: 10 :: body))
  rw [throughEmptyLine_headers h.headers] at hhead
  simpa [Message.head, Message.statusLine] using hhead

/-! ### The headers of a message -/

/-- Set the headers in order. -/
def setHeaders (http : HttpT) : List (StringT × StringT) → Checked HttpT
  | [] => .ok http
  | (key, value) :: headers => do
    let http ← http.setHeader (some key) (some value)
    setHeaders http headers

/-- A key without colon and a value that is not empty, both on one line. -/
structure HeaderText (key value : StringT) : Prop where
  key_buffer : key.buffer ≠ none
  key_line : 58 ∉ key.text ∧ 13 ∉ key.text ∧ 10 ∉ key.text
  value_line : 13 ∉ value.text ∧ 10 ∉ value.text
  value_ne : value.text ≠ []

/-- The texts of the headers, in the order of the table. -/
def headerTexts (http : HttpT) : Checked (List (Option (List UInt8) × Option (List UInt8))) := do
  let (visited, _) ← http.headers.iterate
  return visited.map (fun header ↦
    (header.1.map StringT.text, header.2.join.map StringT.text))

/-- The strings beside the headers are null or have a buffer. -/
structure HasBuffers (http : HttpT) : Prop where
  version : ∀ s, http.version = some s → s.buffer ≠ none
  responseCodeText : ∀ s, http.responseCodeText = some s → s.buffer ≠ none
  body : ∀ s, http.body = some s → s.buffer ≠ none

/-- The status line of a message. -/
def statusLine (http : HttpT) : List UInt8 :=
  versionText (http.version.map StringT.text) ++ StringT.decimal http.responseCode.toNat ++ [32] ++
    (http.responseCodeText.map StringT.text).getD [] ++ [13, 10]

theorem readsAs_text {s : StringT} (h : s.buffer ≠ none) : ReadsAs s s.text := by
  obtain ⟨buffer, hb⟩ := Option.ne_none_iff_exists'.mp h
  rw [ReadsAs, StringT.cstr, StringT.text, StringT.bytes, hb]
  rfl

theorem rel_text {s : Option StringT} (h : ∀ t, s = some t → t.buffer ≠ none) :
    Option.Rel ReadsAs s (s.map StringT.text) := by
  cases s with
  | none => exact .none
  | some t => exact .some (readsAs_text (h t rfl))

theorem HeaderText.value_buffer {key value : StringT} (h : HeaderText key value) :
    value.buffer ≠ none := by
  intro hn
  apply h.value_ne
  rw [StringT.text, StringT.bytes, hn]
  rfl

/-! ### Printing -/

/-- An entry of the table that a header was set in. -/
def EntryText (e : HashTableEntryT (Option StringT)) : Prop :=
  e.keyHash = HashTableT.hash e.key.text ∧ ∃ value, e.value = some value ∧ HeaderText e.key value

/-- The header of an entry. -/
def entryHeader (e : HashTableEntryT (Option StringT)) : List UInt8 × List UInt8 :=
  (e.key.text, (e.value.map StringT.text).getD [])

theorem EntryText.shows {e : HashTableEntryT (Option StringT)} (h : EntryText e) :
    Shows e (entryHeader e) := by
  obtain ⟨hhash, value, hvalue, htext⟩ := h
  refine ⟨hhash, readsAs_text htext.key_buffer, value, hvalue, ?_⟩
  rw [entryHeader, hvalue]
  exact readsAs_text htext.value_buffer

/-- The text of a header that is set. -/
def headerText (header : StringT × StringT) : List UInt8 × List UInt8 :=
  (header.1.text, header.2.text)

/-- The hash that a header is stored under. -/
def headerHash (header : StringT × StringT) : BitVec 32 := HashTableT.hash header.1.text

/-- Setting headers leaves a table of them, and the rest of the message as it is. Headers with
new and pairwise different hashes are all kept, in order. -/
theorem setHeaders_spec {http : HttpT} {m : HashTableT.Map (Option StringT)}
    (hrep : http.headers.Represents m) (hm : ∀ e ∈ m.entries, EntryText e)
    {headers : List (StringT × StringT)}
    (h : ∀ header ∈ headers, HeaderText header.1 header.2) :
    ∃ table m', setHeaders http headers = .ok { http with headers := table } ∧
      table.Represents m' ∧ (∀ e ∈ m'.entries, EntryText e) ∧
      ((m.entries.map HashTableEntryT.keyHash ++ headers.map headerHash).Nodup →
        m'.entries.map entryHeader = m.entries.map entryHeader ++ headers.map headerText) := by
  induction headers generalizing http m with
  | nil => exact ⟨http.headers, m, rfl, hrep, hm, fun _ ↦ (List.append_nil _).symm⟩
  | cons header headers ih =>
    obtain ⟨key, value⟩ := header
    have htext := h (key, value) List.mem_cons_self
    have hhash : HashTableT.Key.hash ⟨key, htext.key_buffer⟩ = headerHash (key, value) :=
      (HashTableT.hash_cString _).symm
    obtain ⟨table, hset, hrep'⟩ := setHeader_spec hrep ⟨key, htext.key_buffer⟩ (some value)
    have hm' : ∀ e ∈ (m.set (HashTableT.entryOf ⟨key, htext.key_buffer⟩ (some value))).entries,
        EntryText e := by
      intro e he
      rcases KeyedList.mem_set he with rfl | he
      · exact ⟨hhash, value, rfl, htext⟩
      · exact hm e he
    obtain ⟨table', m', hrest, hspec, hm'', hkept⟩ := @ih { http with headers := table } _ hrep' hm'
      (fun other ho ↦ h other (List.mem_cons_of_mem _ ho))
    refine ⟨table', m', ?_, hspec, hm'', ?_⟩
    · rw [setHeaders, hset]
      exact hrest
    · intro hnodup
      rw [List.map_cons, ← hhash] at hnodup
      have hfresh : ∀ e ∈ m.entries, e.keyHash ≠
          (HashTableT.entryOf ⟨key, htext.key_buffer⟩ (some value)).keyHash := by
        intro e he
        exact (List.nodup_append.mp hnodup).2.2 _ (List.mem_map_of_mem he) _ List.mem_cons_self
      rw [KeyedList.set_of_forall_ne hfresh, List.map_append, List.map_append, List.append_assoc,
        List.append_assoc] at hkept
      exact hkept hnodup

/-- The names of the headers are pairwise different, as their hashes are. -/
theorem nodup_names {m : HashTableT.Map (Option StringT)} (hm : ∀ e ∈ m.entries, EntryText e) :
    ((m.entries.map entryHeader).map Prod.fst).Nodup := by
  apply List.Nodup.of_map HashTableT.hash
  have hhash : ((m.entries.map entryHeader).map Prod.fst).map HashTableT.hash =
      m.entries.map HashTableEntryT.keyHash := by
    rw [List.map_map, List.map_map]
    apply List.map_congr_left
    intro e he
    exact (hm e he).1.symm
  rw [hhash]
  exact m.nodup

theorem forall₂_shows {es : List (HashTableEntryT (Option StringT))} (h : ∀ e ∈ es, EntryText e) :
    List.Forall₂ Shows es (es.map entryHeader) := by
  induction es with
  | nil => exact .nil
  | cons e es ih =>
    exact .cons (h e List.mem_cons_self).shows
      (ih (fun other ho ↦ h other (List.mem_cons_of_mem _ ho)))

/-- The text of a message: its status line, its headers, an empty line and its body. -/
theorem toResponseString_headers [FreshBytes] {http : HttpT}
    {m : HashTableT.Map (Option StringT)} (hrep : http.headers.Represents m)
    (hm : ∀ e ∈ m.entries, EntryText e) (hbuffers : HasBuffers http) :
    ∃ text http' body, http.toResponseString = .ok (text, http') ∧
      text.content = http.statusLine ++
        ((m.entries.map entryHeader).flatMap headerLine ++ 13 :: 10 :: body) := by
  have hcarries : Carries http
      { version := http.version.map StringT.text
        code := http.responseCode
        codeText := http.responseCodeText.map StringT.text
        headers := ⟨m.entries.map entryHeader, nodup_names hm⟩
        body := http.body.map StringT.text } :=
    ⟨rel_text hbuffers.version, rfl, rel_text hbuffers.responseCodeText,
      ⟨m, hrep, forall₂_shows hm⟩, rel_text hbuffers.body⟩
  obtain ⟨text, http', htext, hprints, -⟩ := hcarries.toResponseString
  refine ⟨text, http', (http.body.map StringT.text).getD [], htext, ?_⟩
  rw [hprints.2, Message.bytes, Message.statusLine, statusLine]
  simp only [List.append_assoc, List.cons_append, List.nil_append]

/-! ### Reading back -/

/-- A header on one line is in the grammar. -/
theorem headerOf_headerPiece {header : List UInt8 × List UInt8} (hn : 58 ∉ header.1)
    (hz : 0 ∉ header.1) (hv : header.2 ≠ []) : headerOf (headerPiece header) = some header := by
  rw [headerPiece, headerOf_append hn hz, if_neg hv]

/-- The table with these headers. -/
def Holds (http : HttpT) (headers : List (List UInt8 × List UInt8)) : Prop :=
  ∃ m, http.headers.Represents m ∧ m.entries = headers.map (fun header ↦ HashTableT.entryOf
    (HashTableT.freshKey header.1) (some (StringT.fromBufferWithLength header.2)))

/-- Pieces of new headers are all accepted, and their headers are added in order. -/
theorem parseHeaders_pieces {http : HttpT} {done headers : List (List UInt8 × List UInt8)}
    (h : http.Holds done) (hnew : ((done ++ headers).map (HashTableT.hash ∘ Prod.fst)).Nodup)
    (htext : ∀ header ∈ headers, 58 ∉ header.1 ∧ 0 ∉ header.1 ∧ header.2 ≠ []) :
    ∃ http', parseHeaders http
        ((headers.map headerPiece).map StringT.fromBufferWithLength) =
          .ok (headers.map (fun _ ↦ true), http') ∧ http'.Holds (done ++ headers) := by
  induction headers generalizing http done with
  | nil => exact ⟨http, rfl, by rwa [List.append_nil]⟩
  | cons header headers ih =>
    obtain ⟨m, hrep, hentries⟩ := h
    obtain ⟨hn, hz, hv⟩ := htext header List.mem_cons_self
    have hline : headerOf (StringT.fromBufferWithLength (headerPiece header)).content =
        some (header.1, header.2) := by
      rw [StringT.content_fromBufferWithLength]
      exact headerOf_headerPiece hn hz hv
    obtain ⟨table, hparse, hrep'⟩ := parseHeader_of_some hrep hline
    -- The hash of the name is none of the hashes in the table, so the entry goes to its end.
    have hfresh : ∀ e ∈ m.entries, e.keyHash ≠ (HashTableT.entryOf
        (HashTableT.freshKey header.1)
        (some (StringT.fromBufferWithLength header.2))).keyHash := by
      intro e he
      rw [hentries] at he
      obtain ⟨other, hother, rfl⟩ := List.mem_map.mp he
      rw [HashTableT.entryOf, HashTableT.entryOf, HashTableT.hash_freshKey,
        HashTableT.hash_freshKey]
      rw [List.map_append, List.map_cons] at hnew
      exact (List.nodup_append.mp hnew).2.2 _ (List.mem_map_of_mem hother) _ List.mem_cons_self
    have hholds : Holds { http with headers := table } (done ++ [header]) := by
      refine ⟨_, hrep', ?_⟩
      rw [KeyedList.set_of_forall_ne hfresh, hentries, List.map_append]
      rfl
    rw [List.append_cons] at hnew ⊢
    obtain ⟨http', hrest, hspec⟩ := ih hholds hnew
      (fun other ho ↦ htext other (List.mem_cons_of_mem _ ho))
    refine ⟨http', ?_, hspec⟩
    rw [List.map_cons, List.map_cons, parseHeaders, hparse, checked_ok_bind]
    dsimp only
    rw [hrest]
    rfl

theorem text_fromBufferWithLength {b : List UInt8} (h : 0 ∉ b) :
    (StringT.fromBufferWithLength b).text = b := by
  rw [StringT.text, StringT.bytes, StringT.buffer_fromBufferWithLength, Option.getD_some,
    cString_append_zero, cString_eq_self h]

theorem Holds.headerTexts {http : HttpT} {headers : List (List UInt8 × List UInt8)}
    (h : http.Holds headers) (hz : ∀ header ∈ headers, 0 ∉ header.1 ∧ 0 ∉ header.2) :
    http.headerTexts = .ok (headers.map (fun header ↦ (some header.1, some header.2))) := by
  obtain ⟨m, hrep, hentries⟩ := h
  obtain ⟨table, hiterate, -⟩ := hrep.iterate
  rw [HttpT.headerTexts, hiterate, checked_ok_bind]
  dsimp only [pure, Except.pure]
  rw [hentries, List.map_map, List.map_map]
  congr 1
  apply List.map_congr_left
  intro header hm
  dsimp only [Function.comp, HashTableT.entryOf, HashTableT.freshKey, Option.map_some,
    Option.join_some]
  rw [text_fromBufferWithLength (hz header hm).1, text_fromBufferWithLength (hz header hm).2]

theorem headerTexts_of_represents {http : HttpT} {m : HashTableT.Map (Option StringT)}
    (hrep : http.headers.Represents m) (hm : ∀ e ∈ m.entries, EntryText e) :
    http.headerTexts =
      .ok ((m.entries.map entryHeader).map (fun header ↦ (some header.1, some header.2))) := by
  obtain ⟨table, hiterate, -⟩ := hrep.iterate
  rw [HttpT.headerTexts, hiterate, checked_ok_bind]
  dsimp only [pure, Except.pure]
  rw [List.map_map, List.map_map]
  congr 1
  apply List.map_congr_left
  intro e he
  obtain ⟨-, value, hvalue, -⟩ := hm e he
  dsimp only [Function.comp, entryHeader]
  rw [hvalue]
  rfl

/-- The header block of a message, cut at CRLF, is accepted piece by piece, and gives a new
message the same headers in the same order. -/
theorem parseHeaders_headerBlock [FreshBytes] {http : HttpT}
    (hnew : http.headers = HashTableT.create) (hbuffers : HasBuffers http)
    {headers : List (StringT × StringT)}
    (hheaders : ∀ header ∈ headers, HeaderText header.1 header.2) :
    ∃ http' text sent rest flags parsed, setHeaders http headers = .ok http' ∧
      http'.toResponseString = .ok (text, sent) ∧ text.content = http.statusLine ++ rest ∧
      parseHeaders HttpT.create ((headerPieces rest).map StringT.fromBufferWithLength) =
        .ok (flags, parsed) ∧
      flags.all id = true ∧ parsed.headerTexts = http'.headerTexts ∧
      ((headers.map headerHash).Nodup → parsed.headerTexts =
        .ok ((headers.map headerText).map (fun header ↦ (some header.1, some header.2)))) := by
  obtain ⟨table, m, hset, hrep, hm, hkept⟩ := @setHeaders_spec http KeyedList.empty
    (hnew ▸ HashTableT.represents_create) (fun _ he ↦ absurd he List.not_mem_nil) _ hheaders
  obtain ⟨text, sent, body, htext, hcontent⟩ :=
    @toResponseString_headers _ { http with headers := table } m hrep hm
      ⟨hbuffers.version, hbuffers.responseCodeText, hbuffers.body⟩
  have hfields : ∀ header ∈ m.entries.map entryHeader,
      58 ∉ header.1 ∧ 0 ∉ header.1 ∧ 0 ∉ header.2 ∧ header.2 ≠ [] ∧ 13 ∉ headerPiece header := by
    intro header hmem
    obtain ⟨e, he, rfl⟩ := List.mem_map.mp hmem
    obtain ⟨-, value, hvalue, hline⟩ := hm e he
    rw [entryHeader, hvalue]
    refine ⟨hline.key_line.1, zero_notMem_cString _, zero_notMem_cString _, hline.value_ne, ?_⟩
    rw [headerPiece, List.mem_append, not_or]
    refine ⟨hline.key_line.2.1, ?_⟩
    rw [List.mem_cons, List.mem_cons, not_or, not_or]
    exact ⟨by decide, by decide, hline.value_line.1⟩
  have hnodup : (([] ++ m.entries.map entryHeader).map (HashTableT.hash ∘ Prod.fst)).Nodup := by
    rw [List.nil_append, List.map_map]
    have hhash : m.entries.map ((HashTableT.hash ∘ Prod.fst) ∘ entryHeader) =
        m.entries.map HashTableEntryT.keyHash :=
      List.map_congr_left (fun e he ↦ (hm e he).1.symm)
    rw [hhash]
    exact m.nodup
  obtain ⟨parsed, hparse, hholds⟩ := @parseHeaders_pieces HttpT.create []
    (m.entries.map entryHeader) ⟨KeyedList.empty, HashTableT.represents_create, rfl⟩ hnodup
    (fun header hmem ↦ ⟨(hfields header hmem).1, (hfields header hmem).2.1,
      (hfields header hmem).2.2.2.1⟩)
  have hread := hholds.headerTexts (fun header hmem ↦ ⟨(hfields header hmem).2.1,
    (hfields header hmem).2.2.1⟩)
  rw [← headerPieces_lines (fun header hmem ↦ (hfields header hmem).2.2.2.2) body] at hparse
  refine ⟨_, text, sent, _, _, parsed, hset, htext, hcontent, hparse, by simp, ?_, ?_⟩
  · rw [@headerTexts_of_represents { http with headers := table } m hrep hm]
    exact hread
  · intro hnodup
    rw [hread, List.nil_append, hkept hnodup]
    rfl

/-- A response with two headers, one of them with a colon and spaces in its value. -/
theorem parseHeaders_headerBlock_date :
    ∃ http' text sent rest flags parsed,
      setHeaders (HttpT.create.setResponseCode 200)
        [(StringT.fromBuffer (ascii "Server"), StringT.fromBuffer (ascii "wsic")),
          (StringT.fromBuffer (ascii "Date"), StringT.fromBuffer (ascii " 12:30 "))] = .ok http' ∧
      @toResponseString FreshBytes.zero http' = .ok (text, sent) ∧
      text.content = (HttpT.create.setResponseCode 200).statusLine ++ rest ∧
      parseHeaders HttpT.create ((headerPieces rest).map StringT.fromBufferWithLength) =
        .ok (flags, parsed) ∧
      flags.all id = true ∧ parsed.headerTexts = http'.headerTexts ∧
      parsed.headerTexts = .ok [(some (ascii "Server"), some (ascii "wsic")),
        (some (ascii "Date"), some (ascii " 12:30 "))] := by
  obtain ⟨http', text, sent, rest, flags, parsed, hset, htext, hcontent, hparse, hflags, hsame,
    hkept⟩ := @parseHeaders_headerBlock FreshBytes.zero (HttpT.create.setResponseCode 200) rfl
      ⟨nofun, by rintro _ ⟨⟩; decide +kernel, nofun⟩
      [(StringT.fromBuffer (ascii "Server"), StringT.fromBuffer (ascii "wsic")),
        (StringT.fromBuffer (ascii "Date"), StringT.fromBuffer (ascii " 12:30 "))] (by
          intro header hm
          rcases List.mem_pair.mp hm with rfl | rfl
          · exact ⟨by decide +kernel, by decide +kernel, by decide +kernel, by decide +kernel⟩
          · exact ⟨by decide +kernel, by decide +kernel, by decide +kernel, by decide +kernel⟩)
  exact ⟨http', text, sent, rest, flags, parsed, hset, htext, hcontent, hparse, hflags, hsame,
    (hkept (by decide +kernel)).trans (by decide +kernel)⟩

end HttpT
end Wsic
