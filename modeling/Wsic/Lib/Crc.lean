import Mathlib.Algebra.Order.Group.Nat
import Mathlib.Logic.Function.Iterate

/-!
# Cyclic redundancy checks

General support: the reflected shift register of a cyclic redundancy check, of any width
and with any polynomial. A step is linear in exclusive or, so that several steps can be
taken at once from a table of the low bits. With a polynomial whose top bit is set no
step loses information, so that as many bytes as fit into the register determine it,
whatever is read before and behind them.
-/

namespace Crc

variable {w : Nat} (polynomial : BitVec w)

/-! ### Bits -/

/-- One step of the register: it is shifted down, and a bit that falls out adds the
polynomial. -/
def bitStep (x : BitVec w) : BitVec w :=
  if x.getLsbD 0 then (x >>> 1) ^^^ polynomial else x >>> 1

/-- What is left of two registers when both have added the same word. -/
private theorem xor_xor_cancel (x y z : BitVec w) : x ^^^ z ^^^ (y ^^^ z) = x ^^^ y := by
  rw [BitVec.xor_comm y z, BitVec.xor_assoc x z, ← BitVec.xor_assoc z z, BitVec.xor_self,
    BitVec.zero_xor]

/-- A step is linear. -/
theorem bitStep_xor (x y : BitVec w) :
    bitStep polynomial (x ^^^ y) = bitStep polynomial x ^^^ bitStep polynomial y := by
  unfold bitStep
  rw [BitVec.getLsbD_xor, BitVec.ushiftRight_xor_distrib]
  cases x.getLsbD 0 <;> cases y.getLsbD 0
  · rfl
  · exact BitVec.xor_assoc _ _ _
  · change x >>> 1 ^^^ y >>> 1 ^^^ polynomial = x >>> 1 ^^^ polynomial ^^^ y >>> 1
    ac_rfl
  · exact (xor_xor_cancel _ _ polynomial).symm

/-- Any number of steps is linear. -/
theorem iterate_bitStep_xor (k : Nat) (x y : BitVec w) :
    (bitStep polynomial)^[k] (x ^^^ y) =
      (bitStep polynomial)^[k] x ^^^ (bitStep polynomial)^[k] y := by
  induction k generalizing x y with
  | zero => rfl
  | succ k ih =>
    simp only [Function.iterate_succ_apply]
    rw [bitStep_xor, ih]

/-- While no bit falls out, the register is only shifted. -/
theorem iterate_bitStep_of_low {k : Nat} {x : BitVec w}
    (h : ∀ i, i < k → x.getLsbD i = false) : (bitStep polynomial)^[k] x = x >>> k := by
  induction k generalizing x with
  | zero => exact (BitVec.ushiftRight_zero _).symm
  | succ k ih =>
    have hstep : bitStep polynomial x = x >>> 1 := by
      rw [bitStep, h 0 (Nat.succ_pos k)]
      rfl
    have hlow (i : Nat) (hi : i < k) : (x >>> 1).getLsbD i = false := by
      rw [BitVec.getLsbD_ushiftRight]
      exact h (1 + i) (by omega)
    rw [Function.iterate_succ_apply, hstep, ih hlow, ← BitVec.shiftRight_add, Nat.add_comm]

/-- Several steps at once: shift, and add what the same steps make of the low bits. -/
theorem iterate_bitStep_table (k : Nat) (x : BitVec w) :
    (bitStep polynomial)^[k] x =
      (x >>> k) ^^^ (bitStep polynomial)^[k] ((x.setWidth k).setWidth w) := by
  have hsplit : x = (x ^^^ (x.setWidth k).setWidth w) ^^^ (x.setWidth k).setWidth w := by
    rw [BitVec.xor_assoc, BitVec.xor_self, BitVec.xor_zero]
  have hlow (i : Nat) (hi : i < k) :
      (x ^^^ (x.setWidth k).setWidth w).getLsbD i = false := by
    by_cases hw : i < w
    · simp [hi, hw]
    · simp [BitVec.getLsbD_of_ge x i (by omega), hw]
  have hshift : (x ^^^ (x.setWidth k).setWidth w) >>> k = x >>> k := by
    apply BitVec.eq_of_getLsbD_eq
    intro i _
    simp
  conv => lhs; rw [hsplit]
  rw [iterate_bitStep_xor, iterate_bitStep_of_low polynomial hlow, hshift]

/-- With the top bit of the polynomial set, a step loses no information: the bit that falls
out can be read off the top of the register. -/
theorem bitStep_injective (h : polynomial.msb = true) :
    Function.Injective (bitStep polynomial) := by
  have hzero (x : BitVec w) (hx : bitStep polynomial x = 0) : x = 0 := by
    unfold bitStep at hx
    split at hx
    · have hmsb := congrArg BitVec.msb (BitVec.xor_eq_zero_iff.mp hx)
      rw [h, BitVec.msb_ushiftRight] at hmsb
      simp at hmsb
    · next hbit =>
      apply BitVec.eq_of_getLsbD_eq
      intro i _
      cases i with
      | zero => simpa using hbit
      | succ i => simpa [Nat.add_comm] using congrArg (·.getLsbD i) hx
  intro x y hxy
  apply BitVec.xor_eq_zero_iff.mp
  apply hzero
  rw [bitStep_xor, hxy, BitVec.xor_self]
  rfl

/-! ### Bytes -/

/-- The register takes a byte, bit by bit from its lowest bit on. -/
def byteStep (x : BitVec w) (byte : UInt8) : BitVec w :=
  (bitStep polynomial)^[8] (x ^^^ byte.toBitVec.setWidth w)

/-- A byte that is added to a word is shifted out. -/
theorem xor_byte_shift (x : BitVec w) (byte : UInt8) :
    (x ^^^ byte.toBitVec.setWidth w) >>> 8 = x >>> 8 := by
  apply BitVec.eq_of_getLsbD_eq
  intro i _
  simp

/-- A byte at a time, with the bits that all steps at once add taken from a table. -/
theorem byteStep_table (x : BitVec w) (byte : UInt8) :
    byteStep polynomial x byte = (x >>> 8) ^^^
      (bitStep polynomial)^[8] (((x ^^^ byte.toBitVec.setWidth w).setWidth 8).setWidth w) := by
  rw [byteStep, iterate_bitStep_table, xor_byte_shift]

/-- The register after some bytes. -/
def register (x : BitVec w) (bytes : List UInt8) : BitVec w := bytes.foldl (byteStep polynomial) x

theorem register_append (x : BitVec w) (bytes rest : List UInt8) :
    register polynomial x (bytes ++ rest) =
      register polynomial (register polynomial x bytes) rest := List.foldl_append

/-- The bytes of a word, lowest first. -/
def word (w : Nat) : List UInt8 → BitVec w
  | [] => 0
  | byte :: bytes => byte.toBitVec.setWidth w ^^^ (word w bytes <<< 8)

/-- Behind the bytes a word is zero. -/
theorem getLsbD_word_of_le {bytes : List UInt8} {i : Nat} (h : 8 * bytes.length ≤ i) :
    (word w bytes).getLsbD i = false := by
  induction bytes generalizing i with
  | nil => exact BitVec.getLsbD_zero
  | cons byte bytes ih =>
    rw [List.length_cons] at h
    have hb : byte.toBitVec.getLsbD i = false := BitVec.getLsbD_of_ge _ _ (by omega)
    rw [word, BitVec.getLsbD_xor, BitVec.getLsbD_setWidth, hb, BitVec.getLsbD_shiftLeft,
      ih (by omega)]
    simp

/-- The low byte of a word is its first byte. -/
theorem setWidth_word_cons (byte : UInt8) (bytes : List UInt8) (h : 8 ≤ w) :
    (word w (byte :: bytes)).setWidth 8 = byte.toBitVec := by
  apply BitVec.eq_of_getLsbD_eq
  intro i hi
  simp [word, hi, show i < w by omega]

/-- A word that leaves room for one more byte can be shifted up and back. -/
theorem word_shift_back {bytes : List UInt8} (h : 8 * (bytes.length + 1) ≤ w) :
    (word w bytes <<< 8) >>> 8 = word w bytes := by
  apply BitVec.eq_of_getLsbD_eq
  intro i hi
  rw [BitVec.getLsbD_ushiftRight, BitVec.getLsbD_shiftLeft]
  by_cases hw : 8 + i < w
  · simp [hw]
  · rw [getLsbD_word_of_le (i := i) (by omega)]
    simp [hw]

/-- The rest of a word are its other bytes. -/
theorem word_cons_shift (byte : UInt8) (bytes : List UInt8) (h : 8 * (bytes.length + 1) ≤ w) :
    word w (byte :: bytes) >>> 8 = word w bytes := by
  rw [word, BitVec.xor_comm, xor_byte_shift, word_shift_back h]

/-- As many bytes as fit can be read off a word. -/
theorem word_inj {bytes others : List UInt8} (hl : bytes.length = others.length)
    (hw : 8 * bytes.length ≤ w) (h : word w bytes = word w others) : bytes = others := by
  induction bytes generalizing others with
  | nil => exact (List.length_eq_zero_iff.mp hl.symm).symm
  | cons byte bytes ih =>
    cases others with
    | nil => exact absurd hl (Nat.succ_ne_zero _)
    | cons other others =>
      simp only [List.length_cons] at hl hw
      have hbyte := congrArg (BitVec.setWidth 8) h
      have hrest : word w (byte :: bytes) >>> 8 = word w (other :: others) >>> 8 := by rw [h]
      rw [setWidth_word_cons byte bytes (by omega),
        setWidth_word_cons other others (by omega)] at hbyte
      rw [word_cons_shift byte bytes (by omega), word_cons_shift other others (by omega)] at hrest
      rw [UInt8.toBitVec_inj.mp hbyte, ih (by omega) (by omega) hrest]

/-- Bytes that fit can be added to the register all at once before its steps. -/
theorem register_eq_iterate (x : BitVec w) {bytes : List UInt8} (h : 8 * bytes.length ≤ w) :
    register polynomial x bytes =
      (bitStep polynomial)^[8 * bytes.length] (x ^^^ word w bytes) := by
  induction bytes generalizing x with
  | nil => exact (BitVec.xor_zero).symm
  | cons byte bytes ih =>
    rw [List.length_cons] at h
    have hlow (i : Nat) (hi : i < 8) : (word w bytes <<< 8).getLsbD i = false := by simp [hi]
    calc register polynomial x (byte :: bytes)
        = register polynomial (byteStep polynomial x byte) bytes := rfl
      _ = (bitStep polynomial)^[8 * bytes.length]
            (byteStep polynomial x byte ^^^ word w bytes) := ih _ (by omega)
      _ = (bitStep polynomial)^[8 * bytes.length]
            ((bitStep polynomial)^[8] (x ^^^ word w (byte :: bytes))) := by
          rw [word, ← BitVec.xor_assoc, iterate_bitStep_xor _ 8,
            iterate_bitStep_of_low polynomial hlow, word_shift_back h]
          rfl
      _ = (bitStep polynomial)^[8 * (bytes.length + 1)] (x ^^^ word w (byte :: bytes)) := by
          rw [Nat.mul_succ, Function.iterate_add_apply]

/-- The register before some bytes can be told from the register after them. -/
theorem register_injective (h : polynomial.msb = true) (bytes : List UInt8) :
    Function.Injective (register polynomial · bytes) := by
  induction bytes with
  | nil => exact fun _ _ hxy ↦ hxy
  | cons byte bytes ih =>
    intro x y hxy
    exact (BitVec.xor_left_inj _).mp ((bitStep_injective polynomial h).iterate 8 (ih hxy))

/-- Bytes that fit into the register determine it, whatever is read before and behind them. -/
theorem register_window (h : polynomial.msb = true) (x : BitVec w)
    {bytes others : List UInt8} (front back : List UInt8) (hl : bytes.length = others.length)
    (hw : 8 * bytes.length ≤ w)
    (he : register polynomial x (front ++ bytes ++ back) =
      register polynomial x (front ++ others ++ back)) : bytes = others := by
  simp only [register_append] at he
  have hmid := register_injective polynomial h back he
  simp only [register_eq_iterate polynomial (register polynomial x front) hw,
    register_eq_iterate polynomial (register polynomial x front) (hl ▸ hw), ← hl] at hmid
  have hword := (bitStep_injective polynomial h).iterate _ hmid
  exact word_inj hl hw ((BitVec.xor_right_inj _).mp hword)

end Crc
