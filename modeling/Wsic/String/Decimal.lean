import Mathlib.Data.Nat.Digits.Lemmas
import Mathlib.Tactic.IntervalCases
import Wsic.String.Content

/-!
# Printing integers

`string_fromInt` of `src/string/string.c`: digits are produced most significant first
from a logarithm and powers of ten. The result is the decimal numeral.
-/

open CMemory

namespace Wsic.StringT

/-- The decimal numeral of a natural number. -/
def decimal (n : Nat) : List UInt8 :=
  if n = 0 then [48] else (Nat.digits 10 n).reverse.map (fun d ↦ UInt8.ofNat (48 + d))

/-- The number that a row of decimal digits denotes. -/
def decimalValue (b : List UInt8) : Nat := Nat.ofDigits 10 (b.reverse.map (fun c ↦ c.toNat - 48))

/-- A numeral denotes the number it was made from. -/
theorem decimalValue_decimal (n : Nat) : decimalValue (decimal n) = n := by
  unfold decimal
  split
  · next h => subst h; rfl
  · rw [decimalValue, ← List.map_reverse, List.reverse_reverse, List.map_map]
    have hd : (Nat.digits 10 n).map ((fun c : UInt8 ↦ c.toNat - 48) ∘
        fun d ↦ UInt8.ofNat (48 + d)) = Nat.digits 10 n := by
      conv_rhs => rw [← List.map_id (Nat.digits 10 n)]
      apply List.map_congr_left
      intro d hd
      have := Nat.digits_lt_base (by decide : 1 < 10) hd
      simp only [Function.comp_apply, UInt8.toNat_ofNat', id_eq]
      omega
    rw [hd, Nat.ofDigits_digits]

/-- The bytes of a numeral are decimal digits. -/
theorem mem_decimal {n : Nat} {c : UInt8} (h : c ∈ decimal n) : 48 ≤ c ∧ c ≤ 57 := by
  unfold decimal at h
  split at h
  · rw [List.mem_singleton.mp h]
    decide
  · obtain ⟨d, hd, rfl⟩ := List.mem_map.mp h
    have := Nat.digits_lt_base (by decide : 1 < 10) (List.mem_reverse.mp hd)
    interval_cases d <;> decide

/-- The bytes are a decimal numeral of the number. -/
def Denotes (b : List UInt8) (n : Nat) : Prop :=
  b ≠ [] ∧ (∀ c ∈ b, 48 ≤ c ∧ c ≤ 57) ∧ decimalValue b = n

instance (b : List UInt8) (n : Nat) : Decidable (Denotes b n) :=
  inferInstanceAs (Decidable (_ ∧ _ ∧ _))

theorem decimal_denotes (n : Nat) : Denotes (decimal n) n := by
  refine ⟨?_, fun c hc ↦ mem_decimal hc, decimalValue_decimal n⟩
  unfold decimal
  split
  · exact List.cons_ne_nil _ _
  · next h => simpa using Nat.digits_ne_nil_iff_ne_zero.mpr h

/-- `atoi` reads the digits in their order. -/
theorem digitsValue_eq (b : List UInt8) : digitsValue b = decimalValue b := by
  induction b using List.reverseRecOn with
  | nil => rfl
  | append_singleton b c ih =>
    rw [digitsValue, List.foldl_append, ← digitsValue, ih, decimalValue, decimalValue,
      List.reverse_append, List.reverse_singleton, List.singleton_append, List.map_cons,
      Nat.ofDigits_cons, Nat.add_comm]
    rfl

/-- All of a numeral is digits. -/
theorem digitsValue_takeWhile {b : List UInt8} {n : Nat} (h : Denotes b n) :
    digitsValue (b.takeWhile (fun c ↦ 48 ≤ c && c ≤ 57)) = n := by
  obtain ⟨-, hdigits, rfl⟩ := h
  have hall : b.takeWhile (fun c ↦ 48 ≤ c && c ≤ 57) = b := by
    rw [List.takeWhile_eq_self_iff]
    intro d hd
    simpa using hdigits d hd
  rw [hall, digitsValue_eq]

/-- A numeral is read as a `long`, and its low 32 bits are kept. -/
theorem atoi_eq_bmod {b : List UInt8} {n : Nat} (h : Denotes b n) :
    atoi b = (min (2 ^ 63 - 1) (n : Int)).bmod (2 ^ 32) := by
  have hvalue := digitsValue_takeWhile h
  obtain ⟨hne, hdigits, -⟩ := h
  obtain ⟨c, rest, rfl⟩ := List.exists_cons_of_ne_nil hne
  have hc := hdigits c List.mem_cons_self
  have hspace : ¬ isSpace c = true := by
    obtain ⟨hlow, -⟩ := hc
    rw [UInt8.le_iff_toNat_le] at hlow
    simp only [isSpace, Bool.or_eq_true, Bool.and_eq_true, beq_iff_eq, decide_eq_true_iff,
      UInt8.le_iff_toNat_le, ← UInt8.toNat_inj]
    simp only [UInt8.reduceToNat] at hlow ⊢
    omega
  have hsign : ¬ (some c = some 45) ∧ ¬ (some c = some 43) := by
    constructor <;> rintro ⟨⟩ <;> exact absurd hc.1 (by decide)
  simp only [atoi, List.dropWhile_cons_of_neg hspace, List.head?_cons, hsign.1, hsign.2,
    or_self, if_false, hvalue]
  exact BitVec.toInt_ofInt _

/-- Behind a minus sign a numeral is read as the negative number. -/
theorem atoi_minus {b : List UInt8} {n : Nat} (h : Denotes b n) :
    atoi (45 :: b) = (max (-2 ^ 63) (-(n : Int))).bmod (2 ^ 32) := by
  have hspace : ¬ isSpace 45 = true := by decide
  simp only [atoi, List.dropWhile_cons_of_neg hspace, List.head?_cons, true_or, if_true,
    List.tail_cons, digitsValue_takeWhile h]
  exact BitVec.toInt_ofInt _

/-- A numeral of a number that fits in an `int` is read as this number. -/
theorem atoi_of_denotes {b : List UInt8} {n : Nat} (h : Denotes b n) (hn : n < 2 ^ 31) :
    atoi b = n := by
  rw [atoi_eq_bmod h, min_eq_right (by omega)]
  apply Int.bmod_eq_of_le <;> omega

/-- The digit loop of `string_fromInt`, `string.c:111–114`. -/
def fromIntLoop [FreshBytes] (number : Nat) : Nat → StringT → StringT
  | 0, s => s
  | offset + 1, s =>
    fromIntLoop number offset (s.appendChar (UInt8.ofNat (48 + number / 10 ^ offset % 10)))

/-- `string_fromInt`, `string.c:92`, with `log10`, `pow` and the division exact;
`INT_MIN`, whose `abs` is not defined, is outside the model. -/
def fromInt [FreshBytes] (number : Int) : StringT :=
  if number = 0 then fromBuffer (ascii "0")
  else
    let digits := Nat.log 10 number.natAbs + 1
    let string := create.setBufferSize digits
    let string := if number < 0 then string.appendChar 45 else string
    fromIntLoop number.natAbs digits string

private theorem digit_ne_zero (d : Nat) (h : d < 10) : UInt8.ofNat (48 + d) ≠ 0 := by
  interval_cases d <;> decide

/-- The loop appends the digits at the places below its offset, highest place first. -/
theorem content_fromIntLoop [FreshBytes] (number offset : Nat) (s : StringT) :
    (fromIntLoop number offset s).content = s.content ++
      ((List.range offset).reverse.map (fun i ↦ UInt8.ofNat (48 + number / 10 ^ i % 10))) := by
  induction offset generalizing s with
  | zero => simp [fromIntLoop]
  | succ offset ih =>
    rw [fromIntLoop, ih, content_appendChar _ (digit_ne_zero _ (Nat.mod_lt _ (by decide))),
      List.range_succ, List.reverse_append, List.append_assoc]
    rfl

/-- The loop keeps spare bytes NUL. -/
theorem clean_fromIntLoop [FreshBytes] (number offset : Nat) (s : StringT) (h : s.Clean) :
    (fromIntLoop number offset s).Clean := by
  induction offset generalizing s with
  | zero => exact h
  | succ offset ih => exact ih _ (clean_appendChar _ _ h)

private theorem range_map_digits {n : Nat} (h : n ≠ 0) :
    (List.range (Nat.log 10 n + 1)).map (fun i ↦ n / 10 ^ i % 10) = Nat.digits 10 n := by
  have hl : (Nat.digits 10 n).length = Nat.log 10 n + 1 := Nat.length_digits 10 n (by decide) h
  apply List.ext_getElem
  · simp [hl]
  · intro i hi hj
    rw [List.getElem_map, List.getElem_range, ← Nat.getD_digits n i (by decide),
      List.getD_eq_getElem?_getD, List.getElem?_eq_getElem hj, Option.getD_some]

/-- The decimal numeral of an integer. -/
def numeral (n : Int) : List UInt8 := (if n < 0 then [45] else []) ++ decimal n.natAbs

/-- Printing an integer gives its decimal numeral. -/
theorem content_fromInt [FreshBytes] (n : Int) : (fromInt n).content = numeral n := by
  by_cases h : n = 0
  · subst h
    rfl
  · have habs : n.natAbs ≠ 0 := Int.natAbs_ne_zero.mpr h
    have hdigits : decimal n.natAbs = (List.range (Nat.log 10 n.natAbs + 1)).reverse.map
        (fun i ↦ UInt8.ofNat (48 + n.natAbs / 10 ^ i % 10)) := by
      rw [decimal, if_neg habs, ← range_map_digits habs, ← List.map_reverse, List.map_map]
      rfl
    have hsign (digits : Nat) :
        (if n < 0 then (create.setBufferSize digits).appendChar 45
          else create.setBufferSize digits).content = if n < 0 then [45] else [] := by
      split
      · rw [content_appendChar _ (by decide), content_setBufferSize _ _ (Nat.zero_le _),
          content_create, List.nil_append]
      · rw [content_setBufferSize _ _ (Nat.zero_le _), content_create]
    simp only [fromInt, h, if_false]
    rw [content_fromIntLoop, hsign, numeral, hdigits]

/-- Printing a natural number gives its decimal numeral. -/
theorem content_fromInt_natCast [FreshBytes] (n : Nat) :
    (fromInt (n : Int)).content = decimal n := by
  rw [content_fromInt, numeral, if_neg (Int.not_lt.mpr (Int.natCast_nonneg n)), Int.natAbs_natCast,
    List.nil_append]

/-- A printed integer has only NUL behind it. -/
theorem clean_fromInt [FreshBytes] (number : Int) : (fromInt number).Clean := by
  unfold fromInt
  split
  · exact clean_fromBufferWithLength _
  · apply clean_fromIntLoop
    split
    · exact clean_appendChar _ _ (clean_setBufferSize _ _ clean_create)
    · exact clean_setBufferSize _ _ clean_create

/-- A printed integer has a buffer. -/
theorem buffer_fromInt [FreshBytes] (number : Int) : (fromInt number).buffer ≠ none := by
  unfold fromInt
  split
  · exact Option.some_ne_none _
  · intro hb
    have hs := size_of_null hb
    rw [← length_content, content_fromIntLoop, List.length_append, List.length_map,
      List.length_reverse, List.length_range] at hs
    omega

/-- A printed integer has digits, behind a minus sign perhaps. -/
theorem mem_fromInt [FreshBytes] {number : Int} {c : UInt8} (h : c ∈ (fromInt number).content) :
    c = 45 ∨ 48 ≤ c ∧ c ≤ 57 := by
  rw [content_fromInt, numeral] at h
  rcases List.mem_append.mp h with hsign | hdigit
  · split at hsign
    · exact .inl (List.mem_singleton.mp hsign)
    · cases hsign
  · exact .inr (mem_decimal hdigit)

/-- A printed integer reads as its content. -/
theorem cstr_fromInt [FreshBytes] (number : Int) :
    (fromInt number).cstr = .ok (fromInt number).content := by
  have hz : 0 ∉ (fromInt number).content := by
    intro hmem
    obtain h | h := mem_fromInt hmem
    · cases h
    · exact absurd h.1 (by decide)
  obtain ⟨b, hb⟩ := Option.ne_none_iff_exists'.mp (buffer_fromInt number)
  rw [(clean_fromInt _).terminated.cstr hb, cString_eq_self hz]

/-- A numeral has no NUL. -/
theorem zero_notMem_decimal (n : Nat) : 0 ∉ decimal n :=
  fun hm ↦ absurd (mem_decimal hm).1 (by decide)

/-- A printed natural number reads as its numeral. -/
theorem cstr_fromInt_natCast [FreshBytes] (n : Nat) :
    (fromInt (n : Int)).cstr = .ok (decimal n) := by
  rw [cstr_fromInt, content_fromInt_natCast]

end Wsic.StringT
