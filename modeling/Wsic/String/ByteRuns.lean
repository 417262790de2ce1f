import Wsic.String.Runs

/-!
# Runs on arbitrary bytes

The calls of `src/string/string.c` that take bytes with an explicit length, next to the same
calls on byte lists. Files, CGI output and pages go through them, NUL bytes included. The
two sides agree as long as every append whose argument ends in NUL finds a NUL in the place
of that byte: after `string_clear` the place may hold a byte of an earlier content, and in a
grown buffer whatever the allocator left there.
-/

open CMemory Transition

namespace Wsic.StringT

/-- A call with an explicit length. -/
inductive ByteOp where
  | fromBufferWithLength (buffer : List UInt8)
  | setBufferSize (string bufferSize : Nat)
  | clear (string : Nat)
  | trimEnd (string : Nat)
  | setCharAt (string index : Nat) (character : UInt8)
  | appendChar (string : Nat) (character : UInt8)
  | appendBufferWithLength (string : Nat) (buffer : List UInt8)

/-- The call on strings. -/
def ByteOp.toOp : ByteOp → Op
  | .fromBufferWithLength buffer => .fromBufferWithLength buffer
  | .setBufferSize i bufferSize => .setBufferSize i bufferSize
  | .clear i => .clear i
  | .trimEnd i => .trimEnd i
  | .setCharAt i index character => .setCharAt i index character
  | .appendChar i character => .appendChar i character
  | .appendBufferWithLength i buffer => .appendBufferWithLength i buffer

/-- The same call on byte lists. -/
def ByteOp.onLists (lists : List (List UInt8)) : ByteOp → List (List UInt8)
  | .fromBufferWithLength buffer => lists ++ [buffer]
  | .setBufferSize i bufferSize => lists.modify i (·.take bufferSize)
  | .clear i => lists.modify i (fun _ ↦ [])
  | .trimEnd i => lists.modify i (·.rdropWhile isTrimmed)
  | .setCharAt i index character => lists.modify i (·.set index character)
  | .appendChar i character => lists.modify i (· ++ [character])
  | .appendBufferWithLength i buffer => lists.modify i (· ++ buffer)

/-- One call on the strings and on the lists beside them. -/
def stepBeside (s : Store × List (List UInt8)) (call : (Nat → UInt8) × ByteOp) :
    Checked (Store × List (List UInt8)) := do
  let store ← step s.1 (call.1, call.2.toOp)
  return (store, call.2.onLists s.2)

/-- The first `size` bytes of every string are its list. -/
def ByteExact (s : Store × List (List UInt8)) : Prop := s.1.map content = s.2

/-- The condition on a call: an append finds NUL where a final NUL of its argument falls. -/
def ByteOp.FindsNul (store : Store) (fresh : Nat → UInt8) : ByteOp → Prop
  | .appendChar i character => ∀ s, store[i]? = some s → @StringT.FindsNul ⟨fresh⟩ s [character]
  | .appendBufferWithLength i buffer =>
    ∀ s, store[i]? = some s → @StringT.FindsNul ⟨fresh⟩ s buffer
  | _ => True

/-! ### What each operation does to the content -/

/-- A new buffer size cuts the content. -/
theorem content_setBufferSize_eq_take [FreshBytes] (s : StringT) (n : Nat) :
    (s.setBufferSize n).content = s.content.take n := by
  by_cases h : s.size ≤ n
  · rw [content_setBufferSize s n h, List.take_of_length_le (by rw [length_content]; exact h)]
  · have hl := s.length_bytes
    have hs := s.size_le
    have hm : shrunkSize s.size n = n := by
      unfold shrunkSize
      split <;> omega
    rw [setBufferSize, if_neg (by omega)]
    simp only [content, bytes, Option.getD_some, hm, zeroFrom]
    rw [List.take_append_of_le_length (by simp), List.take_take, Nat.min_self,
      take_realloc _ _ _ (by omega) (by change n ≤ s.bytes.length; omega), List.take_take,
      Nat.min_eq_left (by omega)]

theorem content_clear (s : StringT) : s.clear.content = [] := rfl

/-- Setting a character updates the content; behind its end nothing happens. -/
theorem content_setCharAt (s : StringT) (index : Nat) (c : UInt8) :
    (s.setCharAt index c).content = s.content.set index c := by
  unfold setCharAt
  split
  · next h => rw [List.set_eq_of_length_le (by rw [length_content]; exact h)]
  · obtain ⟨buffer, bufferSize, size, ha⟩ := s
    cases buffer <;> simp [content, bytes, List.take_set]

/-! ### One call -/

private theorem map_content_set_iff {store : Store} {i : Nat} {s t : StringT}
    {f : List UInt8 → List UInt8} (hi : store[i]? = some s) :
    (store.set i t).map content = (store.map content).modify i f ↔ t.content = f s.content := by
  obtain ⟨hl, he⟩ := List.getElem?_eq_some_iff.mp hi
  have hl' : i < (store.map content).length := by rwa [List.length_map]
  rw [List.map_set, List.modify_eq_set_get f hl', List.get_eq_getElem, List.getElem_map, he]
  constructor
  · intro h
    have hget := congrArg (fun l : List (List UInt8) ↦ l[i]?) h
    simpa [List.getElem?_set_self hl'] using hget
  · intro h
    rw [h]

/-- Replacing a string keeps the lists exact exactly when its content follows its list. -/
private theorem update_byteExact_iff {store store' : Store} {i : Nat} {g : StringT → StringT}
    {f : List UInt8 → List UInt8} (hu : store.update i g = .ok store') :
    ByteExact (store', (store.map content).modify i f) ↔
      ∀ s, store[i]? = some s → (g s).content = f s.content := by
  obtain ⟨s, hs, rfl⟩ := update_ok hu
  rw [ByteExact, map_content_set_iff hs, hs]
  simp

/-- One call keeps the bytes exact exactly when it meets its condition. -/
theorem stepBeside_byteExact_iff {s s' : Store × List (List UInt8)}
    {call : (Nat → UInt8) × ByteOp} (h : ByteExact s) (hs : stepBeside s call = .ok s') :
    ByteExact s' ↔ call.2.FindsNul s.1 call.1 := by
  obtain ⟨store, lists⟩ := s
  obtain ⟨fresh, op⟩ := call
  let _ : FreshBytes := ⟨fresh⟩
  obtain rfl : store.map content = lists := h
  obtain ⟨store', hstep, he⟩ := exists_of_bind_eq_ok hs
  cases he
  cases op with
  | fromBufferWithLength buffer =>
    cases hstep
    simp [ByteExact, ByteOp.onLists, ByteOp.FindsNul]
  | setBufferSize i bufferSize =>
    rw [ByteOp.onLists, update_byteExact_iff hstep]
    simp only [content_setBufferSize_eq_take, ByteOp.FindsNul, implies_true]
  | clear i =>
    rw [ByteOp.onLists, update_byteExact_iff hstep]
    simp only [content_clear, ByteOp.FindsNul, implies_true]
  | trimEnd i =>
    rw [ByteOp.onLists, update_byteExact_iff hstep]
    simp only [content_trimEnd, ByteOp.FindsNul, implies_true]
  | setCharAt i index character =>
    rw [ByteOp.onLists, update_byteExact_iff hstep]
    simp only [content_setCharAt, ByteOp.FindsNul, implies_true]
  | appendChar i character =>
    rw [ByteOp.onLists, update_byteExact_iff hstep]
    simp only [appendChar, content_appendBufferWithLength_iff]
    rfl
  | appendBufferWithLength i buffer =>
    rw [ByteOp.onLists, update_byteExact_iff hstep]
    simp only [content_appendBufferWithLength_iff]
    rfl

/-- A call that fails names no string, so it appends nothing. -/
private theorem findsNul_of_stepBeside_error {s : Store × List (List UInt8)}
    {call : (Nat → UInt8) × ByteOp} {e : Fault} (hs : stepBeside s call = .error e) :
    call.2.FindsNul s.1 call.1 := by
  obtain ⟨store, lists⟩ := s
  obtain ⟨fresh, op⟩ := call
  have hstep : step store (fresh, op.toOp) = .error e := by
    unfold stepBeside at hs
    cases hr : step store (fresh, op.toOp) with
    | error f =>
      rw [hr] at hs
      cases hs
      rfl
    | ok store' =>
      rw [hr] at hs
      cases hs
  cases op with
  | appendChar i character =>
    intro t ht
    rw [getElem?_of_update_error hstep] at ht
    cases ht
  | appendBufferWithLength i buffer =>
    intro t ht
    rw [getElem?_of_update_error hstep] at ht
    cases ht
  | _ => trivial

/-! ### Whole runs -/

/-- Over every run of the calls on arbitrary bytes: after every call the contents are the byte
lists of the same calls on lists, exactly when every append whose argument ends in NUL finds
NUL in the place of that byte. -/
theorem runs_byteExact_iff (calls : List ((Nat → UInt8) × ByteOp)) :
    Throughout stepBeside ByteExact ([], []) calls ↔
      Guarded stepBeside (fun s call ↦ call.2.FindsNul s.1 call.1) ([], []) calls :=
  throughout_iff_guarded (by rfl)
    (fun _ _ _ h hs ↦ stepBeside_byteExact_iff h hs)
    (fun _ _ _ _ hs ↦ findsNul_of_stepBeside_error hs) calls

/-- Clearing `"ab"` and appending `x` and a NUL gives the content `"xb"`: the stale `b` stands
in the place of the NUL. -/
theorem clear_append_nul_not_byteExact :
    ¬ Throughout stepBeside ByteExact ([], [])
      [(fun _ ↦ 0, .fromBufferWithLength (ascii "ab")), (fun _ ↦ 0, .clear 0),
        (fun _ ↦ 0, .appendBufferWithLength 0 [120, 0])] := by
  intro h
  let _ : FreshBytes := ⟨fun _ ↦ 0⟩
  have hs := h _ ([((fromBufferWithLength (ascii "ab")).clear).appendBufferWithLength [120, 0]],
    [[120, 0]]) (List.prefix_refl _) rfl
  exact absurd hs (by unfold ByteExact; decide)

end Wsic.StringT
