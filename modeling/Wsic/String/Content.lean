import Mathlib.Data.List.DropRight
import Mathlib.Data.List.GetD
import Wsic.String.StringT

/-!
# Contents of strings

What the operations of `src/string/string.c` do to the first `size` bytes, and when the
C string seen through `string_getBuffer` is those bytes. The unstated premise of the
source is `Clean`: every spare byte behind the content is NUL.
-/

open CMemory

namespace Wsic.StringT

/-- Every byte behind the content is NUL. -/
def Clean (s : StringT) : Prop := ∀ x ∈ s.bytes.drop s.size, x = 0

/-- A string with a buffer ends its content with NUL, inside the allocation. -/
def Terminated (s : StringT) : Prop :=
  ∀ b, s.buffer = some b → s.size < s.bufferSize ∧ b[s.size]? = some 0

instance (s : StringT) : Decidable s.Clean :=
  List.decidableBAll _ (s.bytes.drop s.size)

/-- NUL spare bytes put a NUL right behind the content. -/
theorem Clean.terminated {s : StringT} (h : s.Clean) : s.Terminated := by
  intro b hb
  have hs := size_lt_of_buffer hb
  have hl : s.size < s.bytes.length := by rw [length_bytes]; exact hs
  refine ⟨hs, ?_⟩
  have hb' : s.bytes = b := by rw [bytes, hb, Option.getD_some]
  have hm : s.bytes.get ⟨s.size, hl⟩ ∈ s.bytes.drop s.size := by
    rw [List.drop_eq_getElem_cons hl]
    exact List.mem_cons_self
  rw [← hb', List.getElem?_eq_getElem hl]
  exact congrArg some (h _ hm)

/-- A terminated string reads as its content up to the first NUL. -/
theorem Terminated.cstr {s : StringT} {b : List UInt8} (h : s.Terminated)
    (hb : s.buffer = some b) : s.cstr = .ok (cString s.content) := by
  obtain ⟨hs, hz⟩ := h b hb
  have hb' : s.bytes = b := by rw [bytes, hb, Option.getD_some]
  have hl : s.size < b.length := by rw [← hb', length_bytes]; exact hs
  have he : b = b.take s.size ++ 0 :: b.drop (s.size + 1) := by
    conv_lhs => rw [← List.take_append_drop s.size b, List.drop_eq_getElem_cons hl]
    rw [List.getElem?_eq_getElem hl] at hz
    rw [Option.some.inj hz]
  rw [StringT.cstr, hb, deref_some, content, hb']
  change Except.ok (cString b) = _
  conv_lhs => rw [he, cString_append_zero]

/-- For content without NUL the C string is exactly the content. -/
theorem Terminated.cstr_of_nulFree {s : StringT} {b : List UInt8} (h : s.Terminated)
    (hb : s.buffer = some b) (hz : (0 : UInt8) ∉ s.content) : s.cstr = .ok s.content := by
  rw [h.cstr hb, cString_eq_self hz]

/-! ### Construction -/

@[simp] theorem content_create : create.content = [] := rfl

@[simp] theorem clean_create : create.Clean := by
  intro x hx
  cases hx

@[simp] theorem content_fromBufferWithLength (b : List UInt8) :
    (fromBufferWithLength b).content = b := by
  simp [content, fromBufferWithLength, bytes]

@[simp] theorem clean_fromBufferWithLength (b : List UInt8) : (fromBufferWithLength b).Clean := by
  simp [Clean, fromBufferWithLength, bytes]

@[simp] theorem size_fromBufferWithLength (b : List UInt8) :
    (fromBufferWithLength b).size = b.length := rfl

@[simp] theorem buffer_fromBufferWithLength (b : List UInt8) :
    (fromBufferWithLength b).buffer = some (b ++ [0]) := rfl

/-- The C string of a fresh string is its content up to the first NUL. -/
@[simp] theorem cstr_fromBufferWithLength (b : List UInt8) :
    (fromBufferWithLength b).cstr = .ok (cString b) := by
  simpa using (clean_fromBufferWithLength b).terminated.cstr rfl

theorem cstr_fromBuffer (b : List UInt8) : (fromBuffer b).cstr = .ok (cString b) := by
  rw [fromBuffer, cstr_fromBufferWithLength, cString_cString]

/-- Distinct contents make distinct fresh strings. -/
theorem fromBufferWithLength_inj {a b : List UInt8}
    (h : fromBufferWithLength a = fromBufferWithLength b) : a = b := by
  have := congrArg content h
  simpa using this

/-! ### Preallocation -/

/-- Preallocation keeps the content that still fits. -/
theorem content_setBufferSize [FreshBytes] (s : StringT) (n : Nat) (h : s.size ≤ n) :
    (s.setBufferSize n).content = s.content := by
  unfold setBufferSize
  split
  · rfl
  · have hl : s.size ≤ s.bytes.length := by rw [length_bytes]; exact s.size_le
    have hm : shrunkSize s.size n = s.size := by
      unfold shrunkSize
      split <;> omega
    simp only [content, bytes, Option.getD_some, hm, zeroFrom, length_realloc]
    rw [List.take_append_of_le_length (by simp; omega), List.take_take, Nat.min_self]
    exact take_realloc s.bytes (n + 1) s.size (by omega) hl

/-- Preallocation clears all spare bytes. -/
theorem clean_setBufferSize [FreshBytes] (s : StringT) (n : Nat) (h : s.Clean) :
    (s.setBufferSize n).Clean := by
  unfold setBufferSize
  split
  · exact h
  · intro x hx
    simp only [bytes, Option.getD_some, zeroFrom, length_realloc] at hx
    rw [List.drop_append, List.drop_of_length_le (List.length_take_le _ _), List.nil_append] at hx
    exact List.eq_of_mem_replicate (List.mem_of_mem_drop hx)

/-- A nonzero preallocation of an unallocated string reserves one byte more. -/
theorem bufferSize_create_setBufferSize [FreshBytes] (n : Nat) :
    (create.setBufferSize n).bufferSize = if n = 0 then 0 else n + 1 := by
  unfold setBufferSize
  by_cases h : n = 0 <;> simp [create, h]

/-! ### Appending -/

section Append

variable [FreshBytes] (s : StringT) (b : List UInt8)

/-- Appending counts every byte of the argument. -/
@[simp] theorem size_appendBufferWithLength :
    (s.appendBufferWithLength b).size = s.size + b.length := rfl

/-- After an append the string has a buffer. -/
theorem buffer_appendBufferWithLength :
    (s.appendBufferWithLength b).buffer = some (s.appendBufferWithLength b).bytes := rfl

private theorem bytes_append_of_grows (h : s.bufferSize ≤ s.size + b.length) :
    (s.appendBufferWithLength b).bytes =
      (blit (realloc s.bytes (s.size + b.length + 1)) s.size (withoutFinalNul b)).set
        (s.size + b.length) 0 := by
  simp only [appendBufferWithLength, bytes, Option.getD_some, ge_iff_le, h, if_true,
    Nat.add_sub_cancel]

private theorem bytes_append_of_fits (h : s.size + b.length < s.bufferSize) :
    (s.appendBufferWithLength b).bytes =
      (blit s.bytes s.size (withoutFinalNul b)).set (s.bufferSize - 1) 0 := by
  simp only [appendBufferWithLength, bytes, Option.getD_some, ge_iff_le, Nat.not_le.mpr h,
    if_false]

/-- What an append leaves behind its content: only NUL when the buffer grew, else the
old spare bytes with the last one cleared. -/
theorem drop_appendBufferWithLength :
    (s.appendBufferWithLength b).bytes.drop (s.size + b.length) =
      if s.bufferSize ≤ s.size + b.length then [0]
      else (s.bytes.drop (s.size + b.length)).set (s.bufferSize - 1 - (s.size + b.length)) 0 := by
  have hl := s.length_bytes
  have hs := s.size_le
  have hc := length_withoutFinalNul_le b
  split
  · next hg =>
    have hb : (blit (realloc s.bytes (s.size + b.length + 1)) s.size
        (withoutFinalNul b)).length = s.size + b.length + 1 := by
      rw [length_blit (by rw [length_realloc]; omega), length_realloc]
    rw [bytes_append_of_grows s b hg, List.drop_set, if_neg (Nat.lt_irrefl _), Nat.sub_self,
      List.drop_eq_getElem_cons (by omega), List.drop_of_length_le (by omega)]
    rfl
  · next hg =>
    rw [bytes_append_of_fits s b (by omega), List.drop_set, if_neg (by omega),
      drop_blit (by omega) (by omega)]

/-- An append leaves the bytes behind what it writes as they were, up to NUL. -/
theorem getD_bytes_appendBufferWithLength {i : Nat} (hi : s.size + b.length ≤ i) :
    (s.appendBufferWithLength b).bytes.getD i 0 = s.bytes.getD i 0 := by
  have hl := s.length_bytes
  obtain ⟨j, rfl⟩ := Nat.exists_eq_add_of_le hi
  rw [List.getD_eq_getElem?_getD, ← List.getElem?_drop, drop_appendBufferWithLength]
  split
  · next hg =>
    rw [List.getD_eq_default _ _ (by omega)]
    cases j <;> rfl
  · next hg =>
    have hlast := last_eq_zero (buffer_eq_some (by omega : 0 < s.bufferSize))
    rw [List.getElem?_set, List.length_drop, List.getElem?_drop, List.getD_eq_getElem?_getD]
    split
    · next he =>
      have hj : s.size + b.length + j = s.bufferSize - 1 := by omega
      rw [if_pos (by omega), hj, hlast]
    · rfl

/-- Appending to a clean string leaves a clean string. -/
theorem clean_appendBufferWithLength (h : s.Clean) : (s.appendBufferWithLength b).Clean := by
  intro x hx
  rw [size_appendBufferWithLength, drop_appendBufferWithLength] at hx
  split at hx
  · exact List.mem_singleton.mp hx
  · rcases List.mem_or_eq_of_mem_set hx with hx | hx
    · apply h
      rw [← List.drop_drop] at hx
      exact List.mem_of_mem_drop hx
    · exact hx

/-- What an append finds where a final NUL of its argument falls: that NUL is counted but not
copied, so the old byte there has to be one. -/
def FindsNul : Prop :=
  b.getLast? = some 0 → s.bytes.getD (s.size + b.length - 1)
    (FreshBytes.fresh (s.size + b.length - 1)) = 0

omit [FreshBytes] in
private theorem take_blit_withoutFinalNul_iff (region : List UInt8)
    (hl : s.size + b.length ≤ region.length) :
    (blit region s.size (withoutFinalNul b)).take (s.size + b.length) =
      region.take s.size ++ b ↔
      (b.getLast? = some 0 → region[s.size + b.length - 1]? = some 0) := by
  unfold withoutFinalNul
  split
  · next hb =>
    obtain ⟨c, rfl⟩ := List.getLast?_eq_some_iff.mp hb
    have hk : s.size + (c ++ [0]).length = s.size + c.length + 1 := by
      rw [List.length_append, List.length_singleton, Nat.add_assoc]
    have hd : (blit region s.size c).drop (s.size + c.length) =
        region.drop (s.size + c.length) := drop_blit (by omega) (Nat.le_refl _)
    have h0 := congrArg (fun l : List UInt8 ↦ l[0]?) hd
    simp only [List.getElem?_drop, Nat.add_zero] at h0
    rw [List.dropLast_concat, hk, Nat.add_sub_cancel, List.take_add_one, take_blit (by omega), h0,
      ← List.append_assoc, List.append_cancel_left_eq, List.getElem?_eq_getElem (by omega)]
    simp
  · next hb =>
    simp only [hb, false_imp_iff, iff_true]
    exact take_blit (by omega)

/-- Appending concatenates exactly when a final NUL of the argument falls on NUL. -/
theorem content_appendBufferWithLength_iff :
    (s.appendBufferWithLength b).content = s.content ++ b ↔ s.FindsNul b := by
  have hl := s.length_bytes
  have hs := s.size_le
  rw [content, size_appendBufferWithLength, content, FindsNul]
  by_cases hg : s.bufferSize ≤ s.size + b.length
  · rw [bytes_append_of_grows s b hg, take_set_of_le _ _ (Nat.le_refl _),
      ← take_realloc s.bytes (s.size + b.length + 1) s.size (by omega) (by omega),
      take_blit_withoutFinalNul_iff s b _ (by rw [length_realloc]; omega),
      getElem?_realloc _ (by omega), Option.some.injEq]
  · rw [bytes_append_of_fits s b (by omega), take_set_of_le _ _ (by omega),
      take_blit_withoutFinalNul_iff s b _ (by omega)]
    apply imp_congr_right
    intro hz
    have hi : s.size + b.length - 1 < s.bytes.length := by
      have hpos := List.length_pos_of_mem (List.mem_of_getLast? hz)
      omega
    rw [List.getElem?_eq_getElem hi, Option.some.injEq, List.getD_eq_getElem _ _ hi]

/-- Appending concatenates, provided a final NUL of the argument falls on a NUL that the
buffer already holds. -/
theorem content_appendBufferWithLength
    (h : b.getLast? = some 0 → s.Clean ∧ s.size + b.length ≤ s.bufferSize) :
    (s.appendBufferWithLength b).content = s.content ++ b := by
  apply (content_appendBufferWithLength_iff s b).mpr
  intro hz
  obtain ⟨hc, hf⟩ := h hz
  have hl := s.length_bytes
  have hpos := List.length_pos_of_mem (List.mem_of_getLast? hz)
  have hi : s.size + b.length - 1 < s.bytes.length := by omega
  rw [List.getD_eq_getElem _ _ hi]
  apply hc
  exact List.mem_drop_iff_getElem.mpr ⟨b.length - 1, by omega, by congr 1; omega⟩

end Append

/-! ### Trimming -/

private theorem take_trimEndLoop {b : List UInt8} {size : Nat} (h : size ≤ b.length) :
    (trimEndLoop b size).1.take (trimEndLoop b size).2 = (b.take size).rdropWhile isTrimmed := by
  induction size generalizing b with
  | zero => rfl
  | succ size ih =>
    have hlast : b.take (size + 1) = b.take size ++ [b.getD size 0] := by
      rw [List.take_add_one, List.getElem?_eq_getElem (by omega),
        List.getD_eq_getElem _ _ (by omega)]
      rfl
    rw [trimEndLoop, hlast]
    by_cases hc : isTrimmed (b.getD size 0) = true
    · rw [if_pos hc, List.rdropWhile_concat_pos _ _ _ hc, ih (by rw [List.length_set]; omega),
        take_set_of_le _ _ (Nat.le_refl size)]
    · rw [if_neg hc, List.rdropWhile_concat_neg _ _ _ hc, hlast]

/-- Trimming removes the run of blanks at the end of the content. -/
theorem content_trimEnd (s : StringT) : s.trimEnd.content = s.content.rdropWhile isTrimmed := by
  unfold trimEnd
  split
  · next hs =>
    have hc : s.content = [] := List.eq_nil_of_length_eq_zero (by rw [length_content, hs])
    rw [hc, List.rdropWhile_nil]
  · next hs =>
    have hpos : 0 < s.bufferSize := by
      have := s.size_le
      omega
    obtain ⟨b, hb⟩ : ∃ b, s.buffer = some b := ⟨_, buffer_eq_some hpos⟩
    rw [content, content, ← take_trimEndLoop (by rw [length_bytes]; exact s.size_le)]
    simp only [bytes, hb, Option.map_some, Option.getD_some]

/-! ### Strings without spare bytes -/

/-- A buffer is the content followed by the bytes behind it. -/
theorem bytes_eq (s : StringT) : s.bytes = s.content ++ s.bytes.drop s.size :=
  (List.take_append_drop s.size s.bytes).symm

/-- A string whose only spare byte is its terminator is the fresh string of its content. -/
theorem eq_fromBufferWithLength {s : StringT} (h : s.bytes.drop s.size = [0]) :
    s = fromBufferWithLength s.content := by
  have hpos : 0 < s.bufferSize := by
    rw [← length_bytes]
    apply List.length_pos_of_ne_nil
    intro hn
    simp [hn] at h
  apply ext
  · rw [buffer_eq_some hpos, buffer_fromBufferWithLength, bytes_eq, h]
  · rw [size_fromBufferWithLength, length_content]

/-- Appending to a fresh string gives the fresh string of the concatenation. -/
theorem fromBufferWithLength_append [FreshBytes] (a b : List UInt8)
    (h : b.getLast? ≠ some 0) :
    (fromBufferWithLength a).appendBufferWithLength b = fromBufferWithLength (a ++ b) := by
  have hc : ((fromBufferWithLength a).appendBufferWithLength b).content = a ++ b := by
    rw [content_appendBufferWithLength _ _ (fun hz ↦ absurd hz h), content_fromBufferWithLength]
  rw [← hc]
  apply eq_fromBufferWithLength
  rw [size_appendBufferWithLength, drop_appendBufferWithLength]
  split
  · rfl
  · next hf =>
    have hb : b = [] := by
      apply List.length_eq_zero_iff.mp
      simp only [fromBufferWithLength] at hf
      omega
    subst hb
    simp [fromBufferWithLength, bytes]

/-- Appending to an unallocated string gives the fresh string of the argument. -/
theorem create_append [FreshBytes] (b : List UInt8) (h : b.getLast? ≠ some 0) :
    create.appendBufferWithLength b = fromBufferWithLength b := by
  have hc : (create.appendBufferWithLength b).content = b := by
    rw [content_appendBufferWithLength _ _ (fun hz ↦ absurd hz h), content_create,
      List.nil_append]
  conv_rhs => rw [← hc]
  apply eq_fromBufferWithLength
  rw [size_appendBufferWithLength, drop_appendBufferWithLength]
  exact if_pos (Nat.zero_le _)

/-! ### C string arguments -/

private theorem getLast?_cString_ne (b : List UInt8) : (cString b).getLast? ≠ some 0 :=
  fun h ↦ zero_notMem_cString b (List.mem_of_getLast? h)

section CStringArguments

variable [FreshBytes] (s : StringT)

/-- `string_appendBuffer` concatenates the C string of its argument. -/
theorem content_appendBuffer (b : List UInt8) :
    (s.appendBuffer b).content = s.content ++ cString b := by
  rw [appendBuffer, take_strlen]
  exact content_appendBufferWithLength s _ (fun h ↦ absurd h (getLast?_cString_ne b))

/-- `string_appendBuffer` keeps spare bytes NUL. -/
theorem clean_appendBuffer (b : List UInt8) (h : s.Clean) : (s.appendBuffer b).Clean :=
  clean_appendBufferWithLength s _ h

/-- Appending a character other than NUL adds it at the end. -/
theorem content_appendChar {c : UInt8} (h : c ≠ 0) :
    (s.appendChar c).content = s.content ++ [c] :=
  content_appendBufferWithLength s [c] (fun hz ↦ absurd (by simpa using hz) h)

/-- Appending a character keeps spare bytes NUL. -/
theorem clean_appendChar (c : UInt8) (h : s.Clean) : (s.appendChar c).Clean :=
  clean_appendBufferWithLength s _ h

end CStringArguments

theorem exists_buffer_of_cstr {s : StringT} {b : List UInt8} (h : s.cstr = .ok b) :
    ∃ buffer, s.buffer = some buffer ∧ cString buffer = b := by
  unfold StringT.cstr at h
  cases hb : s.buffer with
  | none =>
    rw [hb] at h
    cases h
  | some buffer =>
    rw [hb] at h
    exact ⟨buffer, rfl, Except.ok.inj h⟩

/-- Strings are compared as C strings. -/
theorem equals_of_cstr {s t : StringT} {a b : List UInt8} (hs : s.cstr = .ok a)
    (ht : t.cstr = .ok b) : s.equals t = .ok (decide (a = b)) := by
  obtain ⟨buffer, hbuffer, rfl⟩ := exists_buffer_of_cstr ht
  rw [equals, hbuffer, deref_some, checked_ok_bind, equalsBuffer, hs, checked_ok_bind]
  exact congrArg Except.ok (beq_eq_decide _ _)

theorem zero_notMem_of_cstr {s : StringT} {b : List UInt8} (h : s.cstr = .ok b) : 0 ∉ b := by
  obtain ⟨buffer, -, rfl⟩ := exists_buffer_of_cstr h
  exact zero_notMem_cString buffer

/-! ### Strings under construction -/

/-- A string as the code builds it up: its content so far, and NUL behind it. -/
def Prints (s : StringT) (b : List UInt8) : Prop := s.Clean ∧ s.content = b

theorem prints_fromBufferWithLength (b : List UInt8) : Prints (fromBufferWithLength b) b :=
  ⟨clean_fromBufferWithLength b, content_fromBufferWithLength b⟩

theorem prints_create_setBufferSize [FreshBytes] (n : Nat) : Prints (create.setBufferSize n) [] :=
  ⟨clean_setBufferSize _ n clean_create, content_setBufferSize create n (Nat.zero_le n)⟩

theorem Prints.appendBuffer [FreshBytes] {s : StringT} {a : List UInt8} (h : Prints s a)
    (b : List UInt8) : Prints (s.appendBuffer b) (a ++ cString b) :=
  ⟨clean_appendBuffer s b h.1, by rw [content_appendBuffer, h.2]⟩

theorem Prints.appendChar [FreshBytes] {s : StringT} {a : List UInt8} (h : Prints s a) {c : UInt8}
    (hc : c ≠ 0) : Prints (s.appendChar c) (a ++ [c]) :=
  ⟨clean_appendChar s c h.1, by rw [content_appendChar s hc, h.2]⟩

theorem bufferSize_le_appendBufferWithLength [FreshBytes] (s : StringT) (b : List UInt8) :
    s.bufferSize ≤ (s.appendBufferWithLength b).bufferSize := by
  simp only [appendBufferWithLength]
  split <;> omega

/-- With room for them in the buffer, all bytes are appended. -/
theorem Prints.appendBufferWithLength [FreshBytes] {s : StringT} {a b : List UInt8}
    (h : Prints s a) (hf : a.length + b.length ≤ s.bufferSize) :
    Prints (s.appendBufferWithLength b) (a ++ b) := by
  refine ⟨clean_appendBufferWithLength s b h.1, ?_⟩
  rw [content_appendBufferWithLength, h.2]
  intro _
  rw [← length_content, h.2]
  exact ⟨h.1, hf⟩

/-- With room for them in the buffer, all bytes are appended one by one. -/
theorem Prints.foldl_appendChar [FreshBytes] {s : StringT} {a : List UInt8} (h : Prints s a)
    (b : List UInt8) (hf : a.length + b.length ≤ s.bufferSize) :
    Prints (b.foldl StringT.appendChar s) (a ++ b) := by
  induction b generalizing s a with
  | nil => simpa using h
  | cons c b ih =>
    rw [List.length_cons] at hf
    have hc : Prints (s.appendChar c) (a ++ [c]) := h.appendBufferWithLength (by simp; omega)
    have hroom : (a ++ [c]).length + b.length ≤ (s.appendChar c).bufferSize := by
      have := bufferSize_le_appendBufferWithLength s [c]
      rw [List.length_append, List.length_singleton, StringT.appendChar]
      omega
    rw [List.foldl_cons, List.append_cons]
    exact ih hc hroom

/-- Appending a string adds its C string. -/
theorem Prints.append [FreshBytes] {s t : StringT} {a b : List UInt8} (h : Prints s a)
    (ht : t.cstr = .ok b) : ∃ r, s.append t = .ok r ∧ Prints r (a ++ b) := by
  obtain ⟨buffer, hb, rfl⟩ := exists_buffer_of_cstr ht
  refine ⟨s.appendBuffer buffer, ?_, h.appendBuffer buffer⟩
  rw [StringT.append, hb, deref_some, checked_ok_bind]
  rfl

/-- A string that holds text without NUL has the text as its C string. -/
theorem Prints.cstr {s : StringT} {a : List UInt8} (h : Prints s a) (hz : 0 ∉ a) (hne : a ≠ []) :
    s.cstr = .ok a := by
  cases hb : s.buffer with
  | none =>
    have hsize := size_of_null hb
    rw [← length_content, h.2] at hsize
    exact absurd (List.eq_nil_of_length_eq_zero hsize) hne
  | some buffer =>
    rw [h.1.terminated.cstr_of_nulFree hb (by rwa [h.2]), h.2]

/-- Reading a character reads the content. -/
theorem getCharAt_eq (s : StringT) (index : Nat) : s.getCharAt index = s.content.getD index 0 := by
  unfold getCharAt
  rw [List.getD_eq_getElem?_getD, List.getD_eq_getElem?_getD, content]
  split
  · next h => rw [List.getElem?_eq_none (by rw [List.length_take]; omega)]; rfl
  · next h => rw [List.getElem?_take_of_lt (by omega)]

/-- A range inside the content is copied to a fresh string. -/
theorem substring_of_le {s : StringT} {first last : Nat} (h : first ≤ last)
    (hf : first < s.size) (hl : last ≤ s.size) :
    s.substring first last =
      .ok (some (fromBufferWithLength ((s.content.drop first).take (last - first)))) := by
  have hpos : 0 < s.bufferSize := by
    have := s.size_le
    omega
  rw [substring, if_neg (by omega), buffer_eq_some hpos]
  simp only [Nat.not_lt.mpr h, if_false]
  congr 3
  rw [content, List.drop_take, List.take_take, Nat.min_eq_left (by omega)]

/-- A range inside a fresh string. -/
theorem substring_fresh (b : List UInt8) {first last : Nat} (h : first ≤ last)
    (hf : first < b.length) (hl : last ≤ b.length) :
    (fromBufferWithLength b).substring first last =
      .ok (some (fromBufferWithLength ((b.drop first).take (last - first)))) := by
  rw [substring_of_le h hf hl, content_fromBufferWithLength]

/-- The range of a known part of a fresh string. -/
theorem substring_part {b part rest : List UInt8} {first : Nat} (hf : first < b.length)
    (h : b.drop first = part ++ rest) :
    (fromBufferWithLength b).substring first (first + part.length) =
      .ok (some (fromBufferWithLength part)) := by
  have hlen := congrArg List.length h
  rw [List.length_drop, List.length_append] at hlen
  rw [substring_fresh b (Nat.le_add_right _ _) hf (by omega), h, Nat.add_sub_cancel_left,
    List.take_left]

/-- The range up to the end of a fresh string. -/
theorem substring_rest {b : List UInt8} {first : Nat} (hf : first < b.length) :
    (fromBufferWithLength b).substring first b.length =
      .ok (some (fromBufferWithLength (b.drop first))) := by
  rw [substring_fresh b (Nat.le_of_lt hf) hf (Nat.le_refl _), ← List.length_drop, List.take_length]

/-- A range that starts behind the content, or ends behind it, is null. -/
theorem substring_of_not {s : StringT} {first last : Nat} (h : s.size ≤ first ∨ s.size < last) :
    s.substring first last = .ok none := by
  rw [substring, if_pos h]

end Wsic.StringT
