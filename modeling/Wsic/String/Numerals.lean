import Mathlib.Algebra.Order.Floor.Semifield
import Mathlib.Analysis.SpecialFunctions.Log.Base
import Wsic.String.Decimal

/-!
# Canonical numerals

`string_fromInt`, `src/string/string.c:92–117`, in the arithmetic of its source: `log10`, `pow` and
the division are exact on real numbers, and a conversion to `int` cuts the fraction off. What is
printed is the canonical decimal numeral of the number, which `atoi` reads back.
-/

open CMemory

namespace Wsic.StringT

/-! ### Real arithmetic -/

/-- The conversion of a real number to an integer type. -/
noncomputable def truncate (x : ℝ) : Int := if 0 ≤ x then ⌊x⌋ else ⌈x⌉

/-- The digit loop, `string.c:111–114`, on real numbers. -/
noncomputable def fromIntRealLoop [FreshBytes] (number : Int) : Nat → StringT → StringT
  | 0, string => string
  | offset + 1, string =>
    let digit := (truncate ((number : ℝ) / 10 ^ offset)).tmod 10
    fromIntRealLoop number offset (string.appendChar (UInt8.ofInt (48 + digit)))

/-- `string_fromInt`, `string.c:92`, on real numbers. -/
noncomputable def fromIntReal [FreshBytes] (number : Int) : StringT :=
  if number = 0 then fromBuffer (ascii "0")
  else
    -- Get the rough number of digits in the number
    let digits := truncate (Real.logb 10 (number.natAbs : Int)) + 1
    let string := create.setBufferSize digits.toNat
    let string := if number < 0 then string.appendChar 45 else string
    fromIntRealLoop number.natAbs digits.toNat string

theorem truncate_of_nonneg {x : ℝ} (h : 0 ≤ x) : truncate x = ⌊x⌋₊ := by
  rw [truncate, if_pos h, Int.natCast_floor_eq_floor h]

private theorem ofInt_digit {d : Nat} (h : d < 10) :
    UInt8.ofInt (48 + d) = UInt8.ofNat (48 + d) := by
  interval_cases d <;> rfl

/-- The digits of a natural number are those of the exact division. -/
theorem fromIntRealLoop_eq [FreshBytes] (number offset : Nat) (string : StringT) :
    fromIntRealLoop number offset string = fromIntLoop number offset string := by
  induction offset generalizing string with
  | zero => rfl
  | succ offset ih =>
    have hquotient :
        truncate (((number : Int) : ℝ) / 10 ^ offset) = (number / 10 ^ offset : ℕ) := by
      have hpower : (10 : ℝ) ^ offset = (10 ^ offset : ℕ) := by rw [Nat.cast_pow, Nat.cast_ofNat]
      rw [Int.cast_natCast, hpower, truncate_of_nonneg (by positivity), Nat.floor_div_eq_div]
    have hdigit : ((number / 10 ^ offset : ℕ) : Int).tmod 10 = (number / 10 ^ offset % 10 : ℕ) := by
      rw [Int.tmod_eq_emod_of_nonneg (Int.natCast_nonneg _)]
      norm_cast
    have hcharacter : UInt8.ofInt (48 + (number / 10 ^ offset % 10 : ℕ)) =
        UInt8.ofNat (48 + number / 10 ^ offset % 10) :=
      ofInt_digit (Nat.mod_lt _ (by decide))
    rw [fromIntRealLoop, fromIntLoop, hquotient, hdigit, hcharacter, ih]

/-- On real numbers the function computes what it computes on integers. -/
theorem fromIntReal_eq [FreshBytes] (number : Int) : fromIntReal number = fromInt number := by
  have hdigits : truncate (Real.logb 10 (number.natAbs : Int)) + 1 =
      (Nat.log 10 number.natAbs + 1 : ℕ) := by
    have hnonneg : 0 ≤ Real.logb 10 (number.natAbs : ℕ) := by
      rcases Nat.eq_zero_or_pos number.natAbs with hzero | hpos
      · rw [hzero, Nat.cast_zero, Real.logb_zero]
      · exact Real.logb_nonneg (by norm_num) (Nat.one_le_cast.mpr hpos)
    have hfloor := Real.natFloor_logb_natCast 10 number.natAbs
    rw [Nat.cast_ofNat] at hfloor
    rw [Int.cast_natCast, truncate_of_nonneg hnonneg, hfloor]
    rfl
  simp only [fromIntReal, fromInt, hdigits, Int.toNat_natCast, fromIntRealLoop_eq]

/-! ### The numeral -/

/-- The bytes are decimal digits, behind a minus sign for a negative number, without leading
zeros, and denote the number. -/
def IsCanonical (n : Int) (b : List UInt8) : Prop :=
  ∃ digits, b = (if n < 0 then [45] else []) ++ digits ∧ Denotes digits n.natAbs ∧
    (digits.head? = some 48 → digits = [48])

/-- A numeral begins with the digit 0 only when it is the numeral of 0. -/
theorem decimal_of_head {n : Nat} (h : (decimal n).head? = some 48) : decimal n = [48] := by
  unfold decimal at h ⊢
  split at h
  · next hzero => rw [if_pos hzero]
  · next hne =>
    have hdigits : Nat.digits 10 n ≠ [] := Nat.digits_ne_nil_iff_ne_zero.mpr hne
    have hlast := Nat.getLast_digit_ne_zero 10 hne
    have hlt := Nat.digits_lt_base (by decide : 1 < 10) (List.getLast_mem hdigits)
    rw [List.head?_map, List.head?_reverse, List.getLast?_eq_some_getLast hdigits, Option.map_some,
      Option.some.injEq] at h
    generalize (Nat.digits 10 n).getLast hdigits = d at hlast hlt h
    interval_cases d <;> first | exact absurd rfl hlast | exact absurd h (by decide)

theorem isCanonical_numeral (n : Int) : IsCanonical n (numeral n) :=
  ⟨decimal n.natAbs, rfl, decimal_denotes _, decimal_of_head⟩

/-- The numeral of an `int` is read as this number. -/
theorem atoi_numeral {n : Int} (hlow : -2 ^ 31 < n) (hhigh : n < 2 ^ 31) :
    atoi (numeral n) = n := by
  have hdenotes := decimal_denotes n.natAbs
  unfold numeral
  split
  · next hnegative =>
    rw [List.singleton_append, atoi_minus hdenotes, max_eq_right (by omega),
      Int.bmod_eq_of_le (by omega) (by omega)]
    omega
  · next hnonneg =>
    rw [List.nil_append, atoi_of_denotes hdenotes (by omega)]
    omega

/-! ### What is printed -/

/-- An `int` other than `INT_MIN` is printed as its canonical numeral, with a NUL behind it, and
read back. -/
theorem fromIntReal_canonical [FreshBytes] {n : Int} (hlow : -2 ^ 31 < n) (hhigh : n < 2 ^ 31) :
    ∃ text, IsCanonical n text ∧ (fromIntReal n).content = text ∧
      (fromIntReal n).size = text.length ∧
      (∃ buffer, (fromIntReal n).buffer = some buffer ∧
        buffer[(fromIntReal n).size]? = some 0) ∧
      (fromIntReal n).cstr = .ok text ∧ atoi text = n := by
  rw [fromIntReal_eq]
  obtain ⟨buffer, hbuffer⟩ := Option.ne_none_iff_exists'.mp (buffer_fromInt n)
  obtain ⟨-, hnul⟩ := (clean_fromInt n).terminated buffer hbuffer
  have hcontent := content_fromInt n
  refine ⟨numeral n, isCanonical_numeral n, hcontent, ?_, ⟨buffer, hbuffer, hnul⟩, ?_,
    atoi_numeral hlow hhigh⟩
  · rw [← length_content, hcontent]
  · rw [cstr_fromInt, hcontent]

/-- A negative power of ten. -/
theorem fromIntReal_canonical_minus_thousand : ∃ text, IsCanonical (-1000) text ∧
    (@fromIntReal FreshBytes.zero (-1000)).content = text ∧
      (@fromIntReal FreshBytes.zero (-1000)).size = text.length ∧
      (∃ buffer, (@fromIntReal FreshBytes.zero (-1000)).buffer = some buffer ∧
        buffer[(@fromIntReal FreshBytes.zero (-1000)).size]? = some 0) ∧
      (@fromIntReal FreshBytes.zero (-1000)).cstr = .ok text ∧ atoi text = -1000 :=
  @fromIntReal_canonical FreshBytes.zero (-1000) (by decide) (by decide)

end Wsic.StringT
