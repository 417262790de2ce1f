import Wsic.Lib.CMemory

/-!
# The string type

Model of `src/string/string.c` and `string.h`: a growable byte buffer with its
allocated size and its content size. Every value keeps the allocation invariant of the
source (`buffer` spans `bufferSize` bytes, ends in NUL and is longer than `size`; all
three are zero before the first allocation). Allocation is taken to succeed. A
`(buffer, length)` argument pair is the list of the bytes it covers.
-/

open CMemory

namespace Wsic

/-- What every operation keeps of the three fields of a `string_t`. -/
def StringT.Allocated (buffer : Option (List UInt8)) (bufferSize size : Nat) : Prop :=
  match buffer with
  | none => bufferSize = 0 ∧ size = 0
  | some b => b.length = bufferSize ∧ size < bufferSize ∧ b[bufferSize - 1]? = some 0

/-- `string_t`, `string.h:17–23`; a null `buffer` is `none`. -/
structure StringT where
  buffer : Option (List UInt8)
  bufferSize : Nat
  size : Nat
  allocated : StringT.Allocated buffer bufferSize size
deriving DecidableEq

namespace StringT

/-- The bytes of the allocation, none when there is no buffer. -/
def bytes (s : StringT) : List UInt8 := s.buffer.getD []

/-- The first `size` bytes of the buffer. -/
def content (s : StringT) : List UInt8 := s.bytes.take s.size

/-- The C string that `string_getBuffer` points to, `string.c:153`. -/
def cstr (s : StringT) : Checked (List UInt8) := (deref s.buffer).map cString

/-- The allocation has `bufferSize` bytes. -/
theorem length_bytes (s : StringT) : s.bytes.length = s.bufferSize := by
  obtain ⟨buffer, bufferSize, size, h⟩ := s
  cases buffer with
  | none => exact h.1.symm
  | some b => exact h.1

/-- The content fits the allocation. -/
theorem size_le (s : StringT) : s.size ≤ s.bufferSize := by
  obtain ⟨buffer, bufferSize, size, h⟩ := s
  cases buffer with
  | none => exact h.2.le.trans (Nat.zero_le _)
  | some b => exact h.2.1.le

/-- A string with a buffer has room for the terminator. -/
theorem size_lt_of_buffer {s : StringT} {b : List UInt8} (hb : s.buffer = some b) :
    s.size < s.bufferSize := by
  obtain ⟨buffer, bufferSize, size, h⟩ := s
  cases hb
  exact h.2.1

/-- The last allocated byte is NUL. -/
theorem last_eq_zero {s : StringT} {b : List UInt8} (hb : s.buffer = some b) :
    b[s.bufferSize - 1]? = some 0 := by
  obtain ⟨buffer, bufferSize, size, h⟩ := s
  cases hb
  exact h.2.2

/-- Without a buffer the string is empty. -/
theorem size_of_null {s : StringT} (hb : s.buffer = none) : s.size = 0 := by
  obtain ⟨buffer, bufferSize, size, h⟩ := s
  cases hb
  exact h.2

/-- A string that has an allocation has a buffer. -/
theorem buffer_eq_some {s : StringT} (h : 0 < s.bufferSize) : s.buffer = some s.bytes := by
  obtain ⟨buffer, bufferSize, size, ha⟩ := s
  cases buffer with
  | none => exact absurd ha.1 (Nat.pos_iff_ne_zero.mp h)
  | some b => rfl

/-- Content length. -/
@[simp] theorem length_content (s : StringT) : s.content.length = s.size := by
  rw [content, List.length_take, length_bytes]
  exact Nat.min_eq_left s.size_le

/-- Two strings with the same buffer and sizes are the same. -/
theorem ext {s t : StringT} (hb : s.buffer = t.buffer) (hs : s.size = t.size) : s = t := by
  have hn : s.bufferSize = t.bufferSize := by
    rw [← length_bytes, ← length_bytes, bytes, bytes, hb]
  obtain ⟨b, n, k, h⟩ := s
  obtain ⟨b', n', k', h'⟩ := t
  cases hb
  cases hs
  cases hn
  rfl

/-! ### Construction -/

/-- `string_create`, `string.c:7`. -/
def create : StringT := ⟨none, 0, 0, rfl, rfl⟩

/-- `string_fromBufferWithLength`, `string.c:61`. -/
def fromBufferWithLength (buffer : List UInt8) : StringT :=
  ⟨some (buffer ++ [0]), buffer.length + 1, buffer.length, by simp [Allocated]⟩

/-- `string_fromBuffer`, `string.c:81`. -/
def fromBuffer (buffer : List UInt8) : StringT := fromBufferWithLength (cString buffer)

/-- `string_copy`, `string.c:87`; copying no bytes from a null buffer reads nothing. -/
def copy (s : StringT) : StringT := fromBufferWithLength s.content

/-! ### Size changes -/

theorem allocated_zeroFrom [FreshBytes] (old : List UInt8) {bufferSize size : Nat}
    (h : size ≤ bufferSize) :
    Allocated (some (zeroFrom (realloc old (bufferSize + 1)) size)) (bufferSize + 1) size := by
  have hlen : (realloc old (bufferSize + 1)).length = bufferSize + 1 := length_realloc _ _
  refine ⟨?_, Nat.lt_succ_of_le h, ?_⟩
  · rw [length_zeroFrom, hlen]
  · rw [zeroFrom, hlen, List.getElem?_append_right (by rw [List.length_take]; omega),
      List.getElem?_replicate_of_lt]
    rw [List.length_take]
    omega

/-- The size that remains after `string.c:33–34`. -/
def shrunkSize (size bufferSize : Nat) : Nat :=
  if size + 1 ≥ bufferSize + 1 then bufferSize else size

theorem shrunkSize_le (size bufferSize : Nat) : shrunkSize size bufferSize ≤ bufferSize := by
  unfold shrunkSize
  split <;> omega

/-- `string_setBufferSize`, `string.c:19`. -/
def setBufferSize [FreshBytes] (s : StringT) (bufferSize : Nat) : StringT :=
  if bufferSize = s.bufferSize then s
  else
    -- The requested size excludes the terminator, the stored one includes it.
    let newBuffer := realloc s.bytes (bufferSize + 1)
    let size := shrunkSize s.size bufferSize
    ⟨some (zeroFrom newBuffer size), bufferSize + 1, size,
      allocated_zeroFrom s.bytes (shrunkSize_le s.size bufferSize)⟩

/-- `string_clear`, `string.c:40`: only the first byte of the old content is erased. -/
def clear (s : StringT) : StringT :=
  ⟨s.buffer.map (·.set 0 0), s.bufferSize, 0, by
    obtain ⟨buffer, bufferSize, size, h⟩ := s
    cases buffer with
    | none => exact ⟨h.1, rfl⟩
    | some b =>
      obtain ⟨hl, hs, hz⟩ := h
      refine ⟨by simpa using hl, (Nat.zero_le size).trans_lt hs, ?_⟩
      rw [List.getElem?_set]
      split
      · next he => simp [show 0 < b.length by omega]
      · exact hz⟩

/-- What `string_appendBufferWithLength` copies of its argument, `string.c:140–143`. -/
def withoutFinalNul (buffer : List UInt8) : List UInt8 :=
  if buffer.getLast? = some 0 then buffer.dropLast else buffer

theorem length_withoutFinalNul_le (buffer : List UInt8) :
    (withoutFinalNul buffer).length ≤ buffer.length := by
  unfold withoutFinalNul
  split <;> simp

/-- `string_appendBufferWithLength`, `string.c:128`. A final NUL of the argument is
counted but not copied, and the terminator is written at the end of the allocation. -/
def appendBufferWithLength [FreshBytes] (s : StringT) (buffer : List UInt8) : StringT :=
  let newSize := s.size + buffer.length
  let bufferSize := if newSize ≥ s.bufferSize then newSize + 1 else s.bufferSize
  let expanded := if newSize ≥ s.bufferSize then realloc s.bytes (newSize + 1) else s.bytes
  ⟨some ((blit expanded s.size (withoutFinalNul buffer)).set (bufferSize - 1) 0), bufferSize,
    newSize, by
    have hn : newSize < bufferSize := by
      simp only [bufferSize]
      split <;> omega
    have hl : expanded.length = bufferSize := by
      simp only [expanded, bufferSize]
      split
      · exact length_realloc _ _
      · exact length_bytes s
    have hc := length_withoutFinalNul_le buffer
    have hb : (blit expanded s.size (withoutFinalNul buffer)).length = bufferSize := by
      rw [length_blit (by omega), hl]
    refine ⟨by simpa using hb, hn, ?_⟩
    rw [List.getElem?_set_self (by omega)]⟩

/-- `string_appendBuffer`, `string.c:123`. -/
def appendBuffer [FreshBytes] (s : StringT) (buffer : List UInt8) : StringT :=
  s.appendBufferWithLength (buffer.take (strlen buffer))

/-- `string_append`, `string.c:119`: `strlen` of a null buffer is not defined. -/
def append [FreshBytes] (s s2 : StringT) : Checked StringT := do
  let buffer ← deref s2.buffer
  return s.appendBuffer buffer

/-- `string_appendChar`, `string.c:148`. -/
def appendChar [FreshBytes] (s : StringT) (character : UInt8) : StringT :=
  s.appendBufferWithLength [character]

/-! ### Access -/

/-- `string_getCharAt`, `string.c:161`. -/
def getCharAt (s : StringT) (index : Nat) : UInt8 :=
  if index ≥ s.size then 0 else s.bytes.getD index 0

/-- `string_setCharAt`, `string.c:174`. -/
def setCharAt (s : StringT) (index : Nat) (character : UInt8) : StringT :=
  if h : index ≥ s.size then s
  else ⟨s.buffer.map (·.set index character), s.bufferSize, s.size, by
    obtain ⟨buffer, bufferSize, size, ha⟩ := s
    cases buffer with
    | none => exact ha
    | some b =>
      obtain ⟨hl, hs, hz⟩ := ha
      refine ⟨by simpa using hl, hs, ?_⟩
      change ¬ index ≥ size at h
      change (b.set index character)[bufferSize - 1]? = some 0
      rw [List.getElem?_set_ne (by omega)]
      exact hz⟩

/-- The characters `string_trimEnd` removes, `string.c:196`. -/
def isTrimmed (c : UInt8) : Bool := c == 10 || c == 13 || c == 32 || c == 9

/-- The loop of `string_trimEnd`, `string.c:191–202`, from index `size - 1` down. -/
def trimEndLoop : List UInt8 → Nat → List UInt8 × Nat
  | b, 0 => (b, 0)
  | b, size + 1 =>
    if isTrimmed (b.getD size 0) then trimEndLoop (b.set size 0) size else (b, size + 1)

theorem trimEndLoop_le (b : List UInt8) (size : Nat) : (trimEndLoop b size).2 ≤ size := by
  induction size generalizing b with
  | zero => exact Nat.le_refl _
  | succ size ih =>
    rw [trimEndLoop]
    split
    · exact (ih _).trans (Nat.le_succ _)
    · exact Nat.le_refl _

@[simp] theorem length_trimEndLoop (b : List UInt8) (size : Nat) :
    (trimEndLoop b size).1.length = b.length := by
  induction size generalizing b with
  | zero => rfl
  | succ size ih =>
    rw [trimEndLoop]
    split
    · rw [ih, List.length_set]
    · rfl

/-- Trimming touches no byte at or behind the old size. -/
theorem getElem?_trimEndLoop (b : List UInt8) {size i : Nat} (h : size ≤ i) :
    (trimEndLoop b size).1[i]? = b[i]? := by
  induction size generalizing b with
  | zero => rfl
  | succ size ih =>
    rw [trimEndLoop]
    split
    · rw [ih _ (by omega), List.getElem?_set_ne (by omega)]
    · rfl

/-- `string_trimEnd`, `string.c:187`. -/
def trimEnd (s : StringT) : StringT :=
  if s.size = 0 then s
  else ⟨s.buffer.map (fun b ↦ (trimEndLoop b s.size).1), s.bufferSize,
    (trimEndLoop s.bytes s.size).2, by
    obtain ⟨buffer, bufferSize, size, h⟩ := s
    cases buffer with
    | none =>
      have hle := trimEndLoop_le [] size
      exact ⟨h.1, by have := h.2; simp only [bytes, Option.getD_none]; omega⟩
    | some b =>
      obtain ⟨hl, hs, hz⟩ := h
      have hle := trimEndLoop_le b size
      refine ⟨by simpa using hl, by simp only [bytes, Option.getD_some]; omega, ?_⟩
      rw [getElem?_trimEndLoop b (by simp only at hs ⊢; omega)]
      exact hz⟩

/-- Trimming only shrinks a string. -/
theorem size_trimEnd_le (s : StringT) : s.trimEnd.size ≤ s.size := by
  rw [trimEnd]
  split
  · exact Nat.le_refl _
  · exact trimEndLoop_le _ _

/-- `string_substring`, `string.c:205`. Null both when the range is not inside the
content and when it starts at its end. With `lastIndex < firstIndex` the copied length
wraps to nearly `2^64` and the copy runs out of the buffer. -/
def substring (s : StringT) (firstIndex lastIndex : Nat) : Checked (Option StringT) :=
  if firstIndex ≥ s.size ∨ lastIndex > s.size then .ok none
  else match s.buffer with
    | none => .ok none
    | some b =>
      if lastIndex < firstIndex then .error .outOfBounds
      else .ok (some (fromBufferWithLength ((b.drop firstIndex).take (lastIndex - firstIndex))))

/-- `string_equalsBuffer`, `string.c:278`. -/
def equalsBuffer (s : StringT) (buffer : List UInt8) : Checked Bool := do
  let b ← s.cstr
  return b == cString buffer

/-- `string_equals`, `string.c:282`. -/
def equals (s s2 : StringT) : Checked Bool := do
  let b2 ← deref s2.buffer
  s.equalsBuffer b2

end StringT
end Wsic
