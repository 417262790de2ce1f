import Wsic.Lib.Transition
import Wsic.String.Content

/-!
# Runs of string operations

Any mix of the operations of `src/string/string.c` over any number of strings, with any
content of the memory that the allocator hands out. The tests of the source assert
`buffer[size] == 0` after single appends; over whole runs it depends on the byte that
an append finds at its new end.
-/

open CMemory Transition

namespace Wsic.StringT

/-- One call; strings are named by their index in the store. -/
inductive Op where
  | create
  | fromBufferWithLength (buffer : List UInt8)
  | fromBuffer (buffer : List UInt8)
  | copy (string : Nat)
  | substring (string firstIndex lastIndex : Nat)
  | setBufferSize (string bufferSize : Nat)
  | clear (string : Nat)
  | append (string string2 : Nat)
  | appendBuffer (string : Nat) (buffer : List UInt8)
  | appendBufferWithLength (string : Nat) (buffer : List UInt8)
  | appendChar (string : Nat) (character : UInt8)
  | setCharAt (string index : Nat) (character : UInt8)
  | trimEnd (string : Nat)

/-- All strings created so far. -/
abbrev Store := List StringT

/-- Replace a string of the store by the result of an operation on it. -/
def Store.update (store : Store) (i : Nat) (f : StringT → StringT) : Checked Store := do
  let s ← deref store[i]?
  return store.set i (f s)

/-- One call on the store; `fresh` is the memory the call may be handed. -/
def step (store : Store) (call : (Nat → UInt8) × Op) : Checked Store :=
  letI : FreshBytes := ⟨call.1⟩
  match call.2 with
  | .create => .ok (store ++ [StringT.create])
  | .fromBufferWithLength buffer => .ok (store ++ [StringT.fromBufferWithLength buffer])
  | .fromBuffer buffer => .ok (store ++ [StringT.fromBuffer buffer])
  | .copy i => do
    let s ← deref store[i]?
    return store ++ [s.copy]
  | .substring i firstIndex lastIndex => do
    let s ← deref store[i]?
    let t ← s.substring firstIndex lastIndex
    return store ++ t.toList
  | .setBufferSize i bufferSize => store.update i (·.setBufferSize bufferSize)
  | .clear i => store.update i (·.clear)
  | .append i j => do
    let s ← deref store[i]?
    let s2 ← deref store[j]?
    let t ← s.append s2
    -- Of itself a string appends what `realloc` may have moved, or a region that overlaps.
    if i = j ∧ (s.bufferSize ≤ s.size + strlen s.bytes ∨ s.size < strlen s.bytes) then
      .error .danglingPointer
    else return store.set i t
  | .appendBuffer i buffer => store.update i (·.appendBuffer buffer)
  | .appendBufferWithLength i buffer => store.update i (·.appendBufferWithLength buffer)
  | .appendChar i character => store.update i (·.appendChar character)
  | .setCharAt i index character => store.update i (·.setCharAt index character)
  | .trimEnd i => store.update i (·.trimEnd)

/-- The C string seen through a non-null buffer ends where the content ends. -/
def WellTerminated (s : StringT) : Prop :=
  ∀ b, s.buffer = some b → s.size < s.bufferSize ∧ b[s.size]? = some 0 ∧
    ((0 : UInt8) ∉ s.content → s.cstr = .ok s.content)

/-- The byte that an append of `b` leaves behind its content is NUL: the append has to
grow the buffer, or the old buffer holds NUL at that index. -/
def AppendEndsInNul (s : StringT) (b : List UInt8) : Prop :=
  s.size + b.length < s.bufferSize → s.bytes[s.size + b.length]? = some 0

/-- The condition on a call: an append must find NUL at its new end. -/
def Op.EndsInNul (store : Store) : Op → Prop
  | .append i j => ∀ s s2 b, store[i]? = some s → store[j]? = some s2 → s2.buffer = some b →
      s.AppendEndsInNul (cString b)
  | .appendBuffer i buffer => ∀ s, store[i]? = some s → s.AppendEndsInNul (cString buffer)
  | .appendBufferWithLength i buffer => ∀ s, store[i]? = some s → s.AppendEndsInNul buffer
  | .appendChar i character => ∀ s, store[i]? = some s → s.AppendEndsInNul [character]
  | _ => True

/-! ### What each operation does to the terminator -/

/-- The reading of the C string adds nothing to termination. -/
theorem wellTerminated_iff {s : StringT} : s.WellTerminated ↔ s.Terminated := by
  constructor
  · intro h b hb
    exact ⟨(h b hb).1, (h b hb).2.1⟩
  · intro h b hb
    exact ⟨(h b hb).1, (h b hb).2, h.cstr_of_nulFree hb⟩

theorem terminated_setBufferSize [FreshBytes] {s : StringT} (n : Nat) (h : s.Terminated) :
    (s.setBufferSize n).Terminated := by
  unfold setBufferSize
  split
  · exact h
  · intro b hb
    cases hb
    have hm := shrunkSize_le s.size n
    refine ⟨by simp only; omega, ?_⟩
    simp only [zeroFrom, length_realloc]
    rw [List.getElem?_append_right (List.length_take_le _ _), List.getElem?_replicate_of_lt]
    rw [List.length_take, length_realloc]
    omega

theorem terminated_clear (s : StringT) : s.clear.Terminated := by
  intro b hb
  obtain ⟨b', hb', rfl⟩ := Option.map_eq_some_iff.mp hb
  have hs := size_lt_of_buffer hb'
  have hl : b'.length = s.bufferSize := by rw [← length_bytes, bytes, hb', Option.getD_some]
  refine ⟨(Nat.zero_le _).trans_lt hs, ?_⟩
  exact List.getElem?_set_self (by omega)

theorem terminated_setCharAt {s : StringT} (index : Nat) (c : UInt8) (h : s.Terminated) :
    (s.setCharAt index c).Terminated := by
  unfold setCharAt
  split
  · exact h
  · next hi =>
    intro b hb
    obtain ⟨b', hb', rfl⟩ := Option.map_eq_some_iff.mp hb
    refine ⟨(h b' hb').1, ?_⟩
    change (b'.set index c)[s.size]? = some 0
    rw [List.getElem?_set_ne (by omega)]
    exact (h b' hb').2

private theorem trimEndLoop_terminator (b : List UInt8) (size : Nat) (h : b[size]? = some 0) :
    (trimEndLoop b size).1[(trimEndLoop b size).2]? = some 0 := by
  induction size generalizing b with
  | zero => exact h
  | succ size ih =>
    rw [trimEndLoop]
    split
    · apply ih
      obtain ⟨hl, -⟩ := List.getElem?_eq_some_iff.mp h
      exact List.getElem?_set_self (by omega)
    · exact h

theorem terminated_trimEnd {s : StringT} (h : s.Terminated) : s.trimEnd.Terminated := by
  unfold trimEnd
  split
  · exact h
  · intro b hb
    obtain ⟨b', hb', rfl⟩ := Option.map_eq_some_iff.mp hb
    obtain ⟨hs, hz⟩ := h b' hb'
    have he : s.bytes = b' := by rw [bytes, hb', Option.getD_some]
    refine ⟨(trimEndLoop_le _ _).trans_lt hs, ?_⟩
    simp only [he]
    exact trimEndLoop_terminator b' s.size hz

/-- An append ends its content with NUL exactly when it finds NUL there. -/
theorem terminated_append_iff [FreshBytes] (s : StringT) (b : List UInt8) :
    (s.appendBufferWithLength b).Terminated ↔ s.AppendEndsInNul b := by
  have hd := drop_appendBufferWithLength s b
  have hl := s.length_bytes
  have h0 : (s.appendBufferWithLength b).bytes[s.size + b.length]? =
      ((s.appendBufferWithLength b).bytes.drop (s.size + b.length))[0]? := by
    rw [List.getElem?_drop, Nat.add_zero]
  have hlt := size_lt_of_buffer (buffer_appendBufferWithLength s b)
  have hT : (s.appendBufferWithLength b).Terminated ↔
      (s.appendBufferWithLength b).bytes[s.size + b.length]? = some 0 := by
    constructor
    · intro h
      exact (h _ (buffer_appendBufferWithLength s b)).2
    · intro h b' hb'
      rw [buffer_appendBufferWithLength] at hb'
      cases hb'
      exact ⟨hlt, h⟩
  rw [hT, h0, hd]
  unfold AppendEndsInNul
  split
  · next hg => simp [Nat.not_lt.mpr hg]
  · next hg =>
    have hf : s.size + b.length < s.bufferSize := by omega
    simp only [hf, forall_const]
    by_cases he : s.bufferSize - 1 - (s.size + b.length) = 0
    · have hi : s.size + b.length = s.bufferSize - 1 := by omega
      have hz := last_eq_zero (buffer_eq_some (by omega : 0 < s.bufferSize))
      rw [he, hi, hz, List.getElem?_set_self (by rw [List.length_drop]; omega)]
    · rw [List.getElem?_set_ne he, List.getElem?_drop, Nat.add_zero]

/-- The C string of a terminated string is not longer than its content. -/
private theorem strlen_bytes_le {s : StringT} (h : s.Terminated) : strlen s.bytes ≤ s.size := by
  cases hb : s.buffer with
  | none => simp [bytes, hb, strlen, cString]
  | some b =>
    have hcstr := h.cstr hb
    rw [StringT.cstr, hb] at hcstr
    have hb' : cString b = cString s.content := Except.ok.inj hcstr
    rw [bytes, hb, Option.getD_some, strlen, hb', ← length_content]
    exact strlen_le s.content

/-! ### Whole runs -/

/-- Every string of the store is terminated at its size. -/
def Store.Terminated (store : Store) : Prop := ∀ s ∈ store, s.Terminated

private theorem terminated_concat {store : Store} {s : StringT} (h : store.Terminated)
    (hs : s.Terminated) : Store.Terminated (store ++ [s]) := by
  intro x hx
  rcases List.mem_append.mp hx with hx | hx
  · exact h x hx
  · rw [List.mem_singleton.mp hx]
    exact hs

private theorem terminated_set_iff {store : Store} {i : Nat} {s t : StringT}
    (h : store.Terminated) (hi : store[i]? = some s) :
    Store.Terminated (store.set i t) ↔ t.Terminated := by
  obtain ⟨hl, -⟩ := List.getElem?_eq_some_iff.mp hi
  constructor
  · intro ht
    exact ht t (List.mem_set hl t)
  · intro ht x hx
    rcases List.mem_or_eq_of_mem_set hx with hx | hx
    · exact h x hx
    · rw [hx]
      exact ht

/-- An update that returns has replaced a string of the store. -/
theorem update_ok {store store' : Store} {i : Nat} {f : StringT → StringT}
    (h : store.update i f = .ok store') : ∃ s, store[i]? = some s ∧ store' = store.set i (f s) := by
  unfold Store.update at h
  cases hs : store[i]? with
  | none =>
    rw [hs] at h
    cases h
  | some s =>
    rw [hs] at h
    exact ⟨s, rfl, (Except.ok.inj h).symm⟩

/-- An update fails only without its string. -/
theorem getElem?_of_update_error {store : Store} {i : Nat} {f : StringT → StringT} {e : Fault}
    (h : store.update i f = .error e) : store[i]? = none := by
  unfold Store.update at h
  cases hi : store[i]? with
  | none => rfl
  | some s =>
    rw [hi] at h
    cases h

private theorem update_terminated_iff {store store' : Store} {i : Nat} {f : StringT → StringT}
    (h : store.Terminated) (hu : store.update i f = .ok store') :
    store'.Terminated ↔ ∀ s, store[i]? = some s → (f s).Terminated := by
  obtain ⟨s, hs, rfl⟩ := update_ok hu
  rw [terminated_set_iff h hs, hs]
  simp

private theorem update_terminated {store store' : Store} {i : Nat} {f : StringT → StringT}
    (h : store.Terminated) (hf : ∀ s, s.Terminated → (f s).Terminated)
    (hu : store.update i f = .ok store') : store'.Terminated :=
  (update_terminated_iff h hu).mpr (fun s hs ↦ hf s (h s (List.mem_of_getElem? hs)))

private theorem terminated_step_substring {store store' : Store} {fresh : Nat → UInt8}
    {i firstIndex lastIndex : Nat} (h : store.Terminated)
    (hs : step store (fresh, .substring i firstIndex lastIndex) = .ok store') :
    store'.Terminated := by
  let _ : FreshBytes := ⟨fresh⟩
  cases hi : store[i]? with
  | none => simp [step, hi] at hs
  | some s =>
    simp only [step, hi, deref_some, checked_ok_bind, StringT.substring] at hs
    split at hs
    · cases hs
      simpa using h
    · cases hb : s.buffer with
      | none =>
        rw [hb] at hs
        cases hs
        simpa using h
      | some b =>
        rw [hb] at hs
        dsimp only at hs
        split at hs
        · cases hs
        · cases hs
          exact terminated_concat h (clean_fromBufferWithLength _).terminated

/-- An append that returns has read both strings and replaced the first. -/
private theorem step_append_cases {store store' : Store} {fresh : Nat → UInt8} {i j : Nat}
    (hs : step store (fresh, .append i j) = .ok store') :
    ∃ s s2 b, store[i]? = some s ∧ store[j]? = some s2 ∧ s2.buffer = some b ∧
      store' = store.set i (@appendBufferWithLength ⟨fresh⟩ s (cString b)) := by
  cases hi : store[i]? with
  | none => simp [step, hi] at hs
  | some s =>
    cases hj : store[j]? with
    | none => simp [step, hi, hj] at hs
    | some s2 =>
      cases hb : s2.buffer with
      | none => simp [step, hi, hj, StringT.append, hb] at hs
      | some b =>
        simp only [step, hi, hj, StringT.append, hb, deref_some, checked_ok_bind, pure_bind,
          appendBuffer, take_strlen] at hs
        rw [ite_eq_iff, or_iff_right (fun h ↦ by cases h.2)] at hs
        exact ⟨s, s2, b, rfl, rfl, hb, (Except.ok.inj hs.2).symm⟩

private theorem terminated_step_append_iff {store store' : Store} {fresh : Nat → UInt8} {i j : Nat}
    (h : store.Terminated) (hs : step store (fresh, .append i j) = .ok store') :
    store'.Terminated ↔ (Op.append i j).EndsInNul store := by
  let _ : FreshBytes := ⟨fresh⟩
  obtain ⟨s, s2, b, hi, hj, hb, rfl⟩ := step_append_cases hs
  rw [terminated_set_iff h hi, terminated_append_iff]
  simp only [Op.EndsInNul]
  constructor
  · intro ha t t2 b2 ht ht2 hb2
    rw [hi] at ht
    rw [hj] at ht2
    cases ht
    cases ht2
    rw [hb] at hb2
    cases hb2
    exact ha
  · intro ha
    exact ha s s2 b hi hj hb

/-- One call keeps all strings terminated exactly when it meets its condition. -/
theorem step_terminated_iff {store store' : Store} {call : (Nat → UInt8) × Op}
    (h : store.Terminated) (hs : step store call = .ok store') :
    store'.Terminated ↔ call.2.EndsInNul store := by
  obtain ⟨fresh, op⟩ := call
  let _ : FreshBytes := ⟨fresh⟩
  cases op with
  | create =>
    cases hs
    simp only [Op.EndsInNul, iff_true]
    exact terminated_concat h clean_create.terminated
  | fromBufferWithLength buffer =>
    cases hs
    simp only [Op.EndsInNul, iff_true]
    exact terminated_concat h (clean_fromBufferWithLength _).terminated
  | fromBuffer buffer =>
    cases hs
    simp only [Op.EndsInNul, iff_true]
    exact terminated_concat h (clean_fromBufferWithLength _).terminated
  | copy i =>
    simp only [Op.EndsInNul, iff_true]
    cases hi : store[i]? with
    | none => simp [step, hi] at hs
    | some s =>
      simp only [step, hi, deref_some, checked_ok_bind] at hs
      cases hs
      exact terminated_concat h (clean_fromBufferWithLength _).terminated
  | substring i firstIndex lastIndex =>
    simp only [Op.EndsInNul, iff_true]
    exact terminated_step_substring h hs
  | setBufferSize i bufferSize =>
    simp only [Op.EndsInNul, iff_true]
    exact update_terminated h (fun s ↦ terminated_setBufferSize bufferSize) hs
  | clear i =>
    simp only [Op.EndsInNul, iff_true]
    exact update_terminated h (fun s _ ↦ terminated_clear s) hs
  | append i j => exact terminated_step_append_iff h hs
  | appendBuffer i buffer =>
    rw [update_terminated_iff h hs]
    simp only [appendBuffer, take_strlen, terminated_append_iff, Op.EndsInNul]
  | appendBufferWithLength i buffer =>
    rw [update_terminated_iff h hs]
    simp only [terminated_append_iff, Op.EndsInNul]
  | appendChar i character =>
    rw [update_terminated_iff h hs]
    simp only [appendChar, terminated_append_iff, Op.EndsInNul]
  | setCharAt i index character =>
    simp only [Op.EndsInNul, iff_true]
    exact update_terminated h (fun s ↦ terminated_setCharAt index character) hs
  | trimEnd i =>
    simp only [Op.EndsInNul, iff_true]
    exact update_terminated h (fun s ↦ terminated_trimEnd) hs

/-- A call that fails meets the condition: no append takes place, or one of a string to itself
that has to grow. -/
theorem endsInNul_of_step_error {store : Store} {call : (Nat → UInt8) × Op} {e : Fault}
    (h : store.Terminated) (hs : step store call = .error e) : call.2.EndsInNul store := by
  obtain ⟨fresh, op⟩ := call
  cases op with
  | append i j =>
    intro s s2 b hi hj hb
    simp only [step, hi, hj, StringT.append, hb, deref_some, checked_ok_bind, pure_bind] at hs
    split at hs
    · next hself =>
      obtain ⟨rfl, hgrows | hoverlap⟩ := hself
      · rw [hi] at hj
        cases hj
        intro hfits
        rw [strlen, bytes, hb, Option.getD_some] at hgrows
        omega
      · exact absurd (strlen_bytes_le (h s (List.mem_of_getElem? hi))) (Nat.not_le.mpr hoverlap)
    · cases hs
  | appendBuffer i buffer =>
    intro s hi
    rw [getElem?_of_update_error hs] at hi
    cases hi
  | appendBufferWithLength i buffer =>
    intro s hi
    rw [getElem?_of_update_error hs] at hi
    cases hi
  | appendChar i character =>
    intro s hi
    rw [getElem?_of_update_error hs] at hi
    cases hi
  | _ => trivial

/-- Over every run of string calls: after every call all strings with a buffer are
terminated at their size, inside their allocation, and read as their content, exactly
when every append of the run finds NUL at its new end or has to grow the buffer. -/
theorem runs_wellTerminated_iff (calls : List ((Nat → UInt8) × Op)) :
    Throughout step (fun store ↦ ∀ s ∈ store, s.WellTerminated) [] calls ↔
      Guarded step (fun store call ↦ call.2.EndsInNul store) [] calls := by
  simp only [wellTerminated_iff]
  exact throughout_iff_guarded (P := Store.Terminated) (fun _ hs ↦ absurd hs List.not_mem_nil)
    (fun _ _ _ h hs ↦ step_terminated_iff h hs)
    (fun _ _ _ h hs ↦ endsInNul_of_step_error h hs) calls

/-- Clearing `"ab"` and appending `x` leaves the content `"x"` with the stale `b` behind it:
the C string is `"xb"`. -/
theorem clear_append_not_wellTerminated :
    ¬ Throughout step (fun store ↦ ∀ s ∈ store, s.WellTerminated) []
      [(fun _ ↦ 0, .fromBuffer (ascii "ab")), (fun _ ↦ 0, .clear 0),
        (fun _ ↦ 0, .appendChar 0 120)] := by
  intro h
  let _ : FreshBytes := ⟨fun _ ↦ 0⟩
  have hs := h _ [((fromBuffer (ascii "ab")).clear).appendChar 120] (List.prefix_refl _) rfl
  have hw := (hs _ (List.mem_singleton.mpr rfl) _ rfl).2.1
  exact absurd hw (by decide)

end Wsic.StringT
