import Mathlib.Algebra.Group.Int.Defs
import Mathlib.Data.List.Basic
import Mathlib.Data.List.TakeWhile

/-!
# Byte buffers and undefined behaviour of C programs

General support: a region of memory is the list of its bytes, a `(pointer, length)`
pair is the list of the bytes it covers, and a C string is what precedes the first
NUL of a region. Bytes obtained from the allocator and not yet written are a
parameter, so that results about them hold for every content.
-/

namespace CMemory

/-- How an execution can leave the behaviour the C language defines. -/
inductive Fault where
  | nullPointer
  | outOfBounds
  | danglingPointer
  | nonTermination
  deriving DecidableEq, Repr

/-- A computation that either returns or leaves defined behaviour. -/
abbrev Checked (α : Type) := Except Fault α

/-- Reading through a pointer that may be null. -/
def deref {α : Type} : Option α → Checked α
  | none => .error .nullPointer
  | some a => .ok a

@[simp] theorem deref_none {α : Type} : deref (none : Option α) = .error .nullPointer := rfl

@[simp] theorem deref_some {α : Type} (a : α) : deref (some a) = .ok a := rfl

@[simp] theorem checked_ok_bind {α β : Type} (a : α) (f : α → Checked β) :
    (Except.ok a : Checked α) >>= f = f a := rfl

@[simp] theorem checked_ok_map {α β : Type} (a : α) (f : α → β) :
    (Except.ok a : Checked α).map f = .ok (f a) := rfl

@[simp] theorem checked_error_bind {α β : Type} (e : Fault) (f : α → Checked β) :
    (Except.error e : Checked α) >>= f = .error e := rfl

/-- A sequence that returns has steps that return. -/
theorem exists_of_bind_eq_ok {α β : Type} {x : Checked α} {f : α → Checked β} {b : β}
    (h : x >>= f = .ok b) : ∃ a, x = .ok a ∧ f a = .ok b := by
  cases x with
  | error e => cases h
  | ok a => exact ⟨a, rfl, h⟩

/-- A pointer that is followed is not null. -/
theorem deref_eq_ok {α : Type} {p : Option α} {a : α} (h : deref p = .ok a) : p = some a := by
  cases p with
  | none => cases h
  | some b =>
    cases h
    rfl

/-- A checked pair has the fault or the first component of its projection. -/
theorem checked_fst_cases {α β : Type} {x : Checked (α × β)} {y : Checked α}
    (h : x.map Prod.fst = y) :
    (∃ e, x = .error e ∧ y = .error e) ∨ ∃ a b, x = .ok (a, b) ∧ y = .ok a := by
  cases x with
  | error e => exact .inl ⟨e, rfl, h.symm⟩
  | ok r => exact .inr ⟨r.1, r.2, rfl, h.symm⟩

/-- The bytes of an ASCII literal, without its terminator. -/
def ascii (s : String) : List UInt8 := s.toByteArray.data.toList

/-- The contents of freshly allocated bytes, by their index in the allocation. -/
class FreshBytes where
  fresh : Nat → UInt8

/-- An allocator that hands out zeroed memory. -/
abbrev FreshBytes.zero : FreshBytes := ⟨fun _ ↦ 0⟩

/-! ### C strings -/

/-- The C string at the start of a region. A region without NUL stands for a literal,
whose terminator follows its last byte. -/
def cString (b : List UInt8) : List UInt8 := b.takeWhile (· ≠ 0)

/-- Number of bytes before the first NUL. -/
def strlen (b : List UInt8) : Nat := (cString b).length

/-- A C string has no NUL. -/
theorem zero_notMem_cString (b : List UInt8) : (0 : UInt8) ∉ cString b := by
  intro h
  have := List.mem_takeWhile_imp h
  simp at this

/-- A region without NUL is read whole. -/
theorem cString_eq_self {b : List UInt8} (h : (0 : UInt8) ∉ b) : cString b = b := by
  apply List.takeWhile_eq_self_iff.mpr
  intro x hx
  simp only [ne_eq, decide_not, Bool.not_eq_eq_eq_not, Bool.not_true, decide_eq_false_iff_not]
  rintro rfl
  exact h hx

/-- Nothing after the first NUL is read. -/
theorem cString_append_zero (a b : List UInt8) : cString (a ++ 0 :: b) = cString a := by
  induction a with
  | nil => simp [cString]
  | cons x a ih =>
    simp only [cString, List.cons_append, List.takeWhile_cons] at ih ⊢
    split
    · rw [ih]
    · rfl

@[simp] theorem cString_cons_zero (b : List UInt8) : cString (0 :: b) = [] := rfl

theorem cString_cons_of_ne {c : UInt8} (h : c ≠ 0) (b : List UInt8) :
    cString (c :: b) = c :: cString b := by
  rw [cString, List.takeWhile_cons_of_pos (by simpa using h)]
  rfl

/-- Without NUL in its first part, a region reads on into the second. -/
theorem cString_append {a : List UInt8} (h : 0 ∉ a) (b : List UInt8) :
    cString (a ++ b) = a ++ cString b := by
  induction a with
  | nil => rfl
  | cons c a ih =>
    have hc : c ≠ 0 := fun he ↦ h (he ▸ List.mem_cons_self)
    rw [List.cons_append, cString_cons_of_ne hc, ih (fun hm ↦ h (List.mem_cons_of_mem _ hm)),
      List.cons_append]

/-- Regions that agree up to the NULs behind them hold the same C string. -/
theorem cString_congr {a b : List UInt8} (h : ∀ i, a.getD i 0 = b.getD i 0) :
    cString a = cString b := by
  induction a generalizing b with
  | nil =>
    cases b with
    | nil => rfl
    | cons y b =>
      have hy : 0 = y := h 0
      rw [← hy]
      rfl
  | cons x a ih =>
    cases b with
    | nil =>
      have hx : x = 0 := h 0
      rw [hx]
      rfl
    | cons y b =>
      have hxy : x = y := h 0
      rw [hxy]
      by_cases hy : y = 0
      · rw [hy, cString_cons_zero, cString_cons_zero]
      · rw [cString_cons_of_ne hy, cString_cons_of_ne hy, ih (fun i ↦ h (i + 1))]

/-- Reading a C string again changes nothing. -/
theorem cString_cString (b : List UInt8) : cString (cString b) = cString b :=
  cString_eq_self (zero_notMem_cString b)

/-- A C string ends before the end of its region. -/
theorem strlen_le (b : List UInt8) : strlen b ≤ b.length :=
  (List.takeWhile_prefix _).length_le

/-- The C string is a prefix of its region. -/
theorem take_strlen (b : List UInt8) : b.take (strlen b) = cString b := by
  unfold strlen cString
  exact (List.prefix_iff_eq_take.mp (List.takeWhile_prefix _)).symm

/-- The first occurrence of a byte splits a region in one way. -/
theorem append_cons_unique {c : UInt8} {a a' r r' : List UInt8} (ha : c ∉ a) (ha' : c ∉ a')
    (h : a ++ c :: r = a' ++ c :: r') : a = a' ∧ r = r' := by
  induction a generalizing a' with
  | nil =>
    cases a' with
    | nil => exact ⟨rfl, (List.cons.inj h).2⟩
    | cons x a' => exact absurd ((List.cons.inj h).1 ▸ List.mem_cons_self) ha'
  | cons x a ih =>
    cases a' with
    | nil => exact absurd ((List.cons.inj h).1 ▸ List.mem_cons_self) ha
    | cons y a' =>
      obtain ⟨hx, ht⟩ := List.cons.inj h
      obtain ⟨rfl, rfl⟩ := ih (fun hm ↦ ha (List.mem_cons_of_mem _ hm))
        (fun hm ↦ ha' (List.mem_cons_of_mem _ hm)) ht
      exact ⟨by rw [hx], rfl⟩

/-! ### Numbers -/

/-- The white space that `atoi` skips. -/
def isSpace (c : UInt8) : Bool := c == 32 || (9 ≤ c && c ≤ 13)

/-- The digits of a number, most significant first. -/
def digitsValue (b : List UInt8) : Nat := b.foldl (fun n c ↦ 10 * n + (c.toNat - 48)) 0

/-- `atoi` of a C string: white space, a sign, decimal digits. A number that does not fit is cut
as `strtol` and the conversion of its result to `int` cut it. -/
def atoi (b : List UInt8) : Int :=
  let number := b.dropWhile isSpace
  let negative := number.head? = some 45
  let digits := if negative ∨ number.head? = some 43 then number.tail else number
  let value := digitsValue (digits.takeWhile (fun c ↦ 48 ≤ c && c ≤ 57))
  let long : Int := if negative then max (-2 ^ 63) (-value) else min (2 ^ 63 - 1) value
  (BitVec.ofInt 32 long).toInt

/-! ### Writing to a region -/

/-- `memcpy(dst + offset, src, length of src)`. -/
def blit (dst : List UInt8) (offset : Nat) (src : List UInt8) : List UInt8 :=
  dst.take offset ++ src ++ dst.drop (offset + src.length)

/-- `memset(dst + offset, 0, rest of dst)`. -/
def zeroFrom (dst : List UInt8) (offset : Nat) : List UInt8 :=
  dst.take offset ++ List.replicate (dst.length - offset) 0

/-- `realloc(old, n)`: what fits is kept, the rest is fresh. -/
def realloc [FreshBytes] (old : List UInt8) (n : Nat) : List UInt8 :=
  old.take n ++ (List.range' old.length (n - old.length)).map FreshBytes.fresh

@[simp] theorem length_realloc [FreshBytes] (old : List UInt8) (n : Nat) :
    (realloc old n).length = n := by
  simp only [realloc, List.length_append, List.length_take, List.length_map, List.length_range']
  omega

/-- Growing a region keeps its bytes. -/
theorem take_realloc [FreshBytes] (old : List UInt8) (n k : Nat) (hk : k ≤ n)
    (ho : k ≤ old.length) : (realloc old n).take k = old.take k := by
  rw [realloc, List.take_append_of_le_length (by simp; omega), List.take_take,
    Nat.min_eq_left hk]

/-- Inside the new region the old bytes are followed by fresh ones. -/
theorem getElem?_realloc [FreshBytes] (old : List UInt8) {n i : Nat} (h : i < n) :
    (realloc old n)[i]? = some (old.getD i (FreshBytes.fresh i)) := by
  rw [realloc, List.getD_eq_getElem?_getD]
  by_cases hi : i < old.length
  · rw [List.getElem?_append_left (by rw [List.length_take]; omega), List.getElem?_take_of_lt h,
      List.getElem?_eq_getElem hi, Option.getD_some]
  · rw [List.getElem?_append_right (by rw [List.length_take]; omega), List.length_take,
      Nat.min_eq_right (by omega), List.getElem?_map,
      List.getElem?_range' (by omega), List.getElem?_eq_none (by omega)]
    simp only [Option.map_some, Option.getD_none, Option.some.injEq]
    congr 1
    omega

@[simp] theorem length_zeroFrom (dst : List UInt8) (offset : Nat) :
    (zeroFrom dst offset).length = dst.length := by
  simp only [zeroFrom, List.length_append, List.length_take, List.length_replicate]
  omega

/-- A copy inside the region keeps the region's length. -/
theorem length_blit {dst : List UInt8} {offset : Nat} {src : List UInt8}
    (h : offset + src.length ≤ dst.length) : (blit dst offset src).length = dst.length := by
  simp only [blit, List.length_append, List.length_take, List.length_drop]
  omega

/-- After a copy the region reads as what preceded it, then the copied bytes. -/
theorem take_blit {dst : List UInt8} {offset : Nat} {src : List UInt8}
    (h : offset ≤ dst.length) :
    (blit dst offset src).take (offset + src.length) = dst.take offset ++ src := by
  have hl : (dst.take offset ++ src).length = offset + src.length := by simp; omega
  rw [blit, ← hl, List.take_left]

/-- A copy leaves everything behind it as it was. -/
theorem drop_blit {dst : List UInt8} {offset k : Nat} {src : List UInt8}
    (h : offset ≤ dst.length) (hk : offset + src.length ≤ k) :
    (blit dst offset src).drop k = dst.drop k := by
  have hl : (dst.take offset ++ src).length = offset + src.length := by simp; omega
  rw [blit, List.drop_append, hl, List.drop_drop,
    List.drop_of_length_le (by rw [hl]; exact hk), List.nil_append]
  congr 1
  omega

/-- Writing one byte at or behind an index keeps what is before the index. -/
theorem take_set_of_le (b : List UInt8) {k i : Nat} (x : UInt8) (h : k ≤ i) :
    (b.set i x).take k = b.take k := by
  rw [List.take_set, List.set_eq_of_length_le]
  simp
  omega

end CMemory
