import Wsic.Lib.Crc
import Wsic.Lib.Transition
import Wsic.DataStructures.HashTableRuns

/-!
# The hash as a cyclic redundancy check

`hash_table_hash` of `src/datastructures/hash-table/hash-table.c:10–30` is the CRC-32 of
its key, taken byte by byte from a lookup table that the first call fills. Keys of one
length that differ within four bytes therefore never share a hash. The counter of the loop
has 32 bits: on a key whose length is out of its range the call does not return.
-/

open CMemory Transition

namespace Wsic.HashTableT

/-- CRC-32, bit by bit: reflected, with polynomial `0xEDB88320`, initial value `0xFFFFFFFF`
and a final complement. -/
def crc32 (text : List UInt8) : BitVec 32 := ~~~Crc.register 0xEDB88320 0xFFFFFFFF text

-- The check value of CRC-32.
example : crc32 (ascii "123456789") = 0xCBF43926 := by decide +kernel

/-! ### Lookup and shift -/

theorem hashBit_eq_bitStep : hashBit = Crc.bitStep 0xEDB88320 := by
  funext crc
  unfold hashBit Crc.bitStep
  rw [show crc &&& 1 = BitVec.setWidth 32 (BitVec.ofBool (crc.getLsbD 0)) from
    BitVec.and_one_eq_setWidth_ofBool_getLsbD]
  cases crc.getLsbD 0
  · exact BitVec.xor_zero
  · rfl

/-- Only the low bits of a character select a word of the table, not those its sign fills. -/
theorem setWidth_xor_signExtend (crc : BitVec 32) (c : UInt8) :
    (crc ^^^ c.toBitVec.signExtend 32).setWidth 8 =
      (crc ^^^ c.toBitVec.setWidth 32).setWidth 8 := by
  apply BitVec.eq_of_getLsbD_eq
  intro i hi
  simp only [BitVec.getLsbD_setWidth, BitVec.getLsbD_xor, BitVec.getLsbD_signExtend]
  simp [hi, show i < 32 by omega]

/-- A round of the loop with the filled table takes one byte into the register. -/
theorem hashStep_eq_byteStep : hashStep hashByte = Crc.byteStep 0xEDB88320 := by
  funext crc c
  rw [Crc.byteStep_table, hashStep, setWidth_xor_signExtend, hashByte, hashBit_eq_bitStep]

/-- What the functions of the table take as hash is the CRC-32 of the key. -/
theorem hash_eq_crc32 (value : List UInt8) : hash value = crc32 (cString value) := by
  unfold hash hashWith fillHashLookup
  rw [if_pos rfl, hashStep_eq_byteStep]
  rfl

/-! ### The lookup table -/

/-- The static lookup table after some calls. -/
def lookupAfter (calls : Nat) : BitVec 8 → BitVec 32 := fillHashLookup^[calls] (fun _ ↦ 0)

/-- A call finds the table empty or filled, and works with the filled one. -/
theorem fillHashLookup_lookupAfter (calls : Nat) :
    fillHashLookup (lookupAfter calls) = hashByte := by
  induction calls with
  | zero => exact if_pos rfl
  | succ calls ih =>
    rw [lookupAfter, Function.iterate_succ_apply', ← lookupAfter, ih]
    exact if_neg (by decide)

theorem lookupAfter_succ (calls : Nat) : lookupAfter (calls + 1) = hashByte := by
  rw [lookupAfter, Function.iterate_succ_apply', ← lookupAfter, fillHashLookup_lookupAfter]

/-! ### The loop -/

/-- While the counter is in range the loop takes the bytes up to the terminator. -/
theorem hashLoop_of_lt (hashLookup : BitVec 8 → BitVec 32) {text : List UInt8}
    (h0 : 0 ∉ text) (hl : text.length < 2 ^ 32) (rest : List UInt8) {rounds : Nat}
    {byte : UInt32} (crc : BitVec 32) (hb : byte.toNat ≤ text.length)
    (hr : text.length < byte.toNat + rounds) :
    hashLoop hashLookup (text ++ 0 :: rest) rounds byte crc =
      .ok ((text.drop byte.toNat).foldl (hashStep hashLookup) crc) := by
  induction rounds generalizing byte crc with
  | zero => omega
  | succ rounds ih =>
    by_cases he : byte.toNat = text.length
    · rw [hashLoop, he, List.getElem?_append_right (Nat.le_refl _), Nat.sub_self,
        List.drop_length]
      rfl
    · have hlt : byte.toNat < text.length := by omega
      have hc : text[byte.toNat] ≠ 0 := fun hc ↦ h0 (hc ▸ List.getElem_mem hlt)
      have hnext : (byte + 1).toNat = byte.toNat + 1 := by
        rw [UInt32.toNat_add]
        exact Nat.mod_eq_of_lt (by change byte.toNat + 1 < 2 ^ 32; omega)
      rw [hashLoop, List.getElem?_append_left hlt, List.getElem?_eq_getElem hlt]
      dsimp only
      rw [if_neg hc, ih _ (by omega) (by omega), hnext, List.drop_eq_getElem_cons hlt,
        List.foldl_cons]

/-- When every value of the counter is inside the text, the terminator is never read. -/
theorem hashLoop_of_le (hashLookup : BitVec 8 → BitVec 32) {text : List UInt8}
    (h0 : 0 ∉ text) (hl : 2 ^ 32 ≤ text.length) (rest : List UInt8) (rounds : Nat)
    (byte : UInt32) (crc : BitVec 32) :
    hashLoop hashLookup (text ++ 0 :: rest) rounds byte crc = .error .nonTermination := by
  induction rounds generalizing byte crc with
  | zero => rfl
  | succ rounds ih =>
    have hlt : byte.toNat < text.length := Nat.lt_of_lt_of_le byte.toNat_lt hl
    have hc : text[byte.toNat] ≠ 0 := fun hc ↦ h0 (hc ▸ List.getElem_mem hlt)
    rw [hashLoop, List.getElem?_append_left hlt, List.getElem?_eq_getElem hlt]
    dsimp only
    rw [if_neg hc]
    exact ih _ _

/-! ### The call -/

/-- A call after `calls` earlier ones returns `value` for a text, whatever follows its
terminator in memory, and leaves the filled table. -/
def HashReturns (calls : Nat) (text : List UInt8) (value : BitVec 32) : Prop :=
  ∀ rest, ∃ rounds, hashCall rounds (lookupAfter calls) (text ++ 0 :: rest) =
    .ok (value, lookupAfter (calls + 1))

theorem hashReturns_crc32 {text : List UInt8} (h0 : 0 ∉ text) (hl : text.length < 2 ^ 32)
    (calls : Nat) : HashReturns calls text (crc32 text) := by
  intro rest
  refine ⟨text.length + 1, ?_⟩
  rw [hashCall, fillHashLookup_lookupAfter, lookupAfter_succ,
    hashLoop_of_lt hashByte h0 hl rest 0xFFFFFFFF (Nat.zero_le _) (by simp), hashStep_eq_byteStep]
  rfl

theorem not_hashReturns {text : List UInt8} (h0 : 0 ∉ text) (hl : 2 ^ 32 ≤ text.length)
    (calls : Nat) (value : BitVec 32) : ¬ HashReturns calls text value := by
  intro h
  obtain ⟨rounds, hr⟩ := h []
  rw [hashCall, hashLoop_of_le _ h0 hl] at hr
  cases hr

/-- Whatever earlier calls have left in the lookup table, a call returns the CRC-32. -/
def HashesToCrc32 (text : List UInt8) : Prop := ∀ calls, HashReturns calls text (crc32 text)

/-- A call returns the CRC-32 of a text if and only if the length of the text is in the range
of the counter; otherwise the counter starts over before it reaches the terminator. -/
theorem hashesToCrc32_iff {text : List UInt8} (h0 : 0 ∉ text) :
    HashesToCrc32 text ↔ text.length < 2 ^ 32 := by
  constructor
  · intro h
    by_contra hl
    exact not_hashReturns h0 (Nat.le_of_not_lt hl) 0 _ (h 0)
  · intro hl calls
    exact hashReturns_crc32 h0 hl calls

theorem hashesToCrc32_high_bytes :
    0 ∉ ([0xC3, 0xA5, 0xFF, 0x80] : List UInt8) ∧ HashesToCrc32 [0xC3, 0xA5, 0xFF, 0x80] :=
  ⟨by decide, (hashesToCrc32_iff (by decide)).mpr (by decide)⟩

theorem long_text_not_hashesToCrc32 :
    0 ∉ List.replicate (2 ^ 32) (97 : UInt8) ∧
      ¬ HashesToCrc32 (List.replicate (2 ^ 32) 97) := by
  have h0 : 0 ∉ List.replicate (2 ^ 32) (97 : UInt8) := by
    intro h
    exact absurd (List.eq_of_mem_replicate h) (by decide)
  exact ⟨h0, fun h ↦ not_hashReturns h0 List.length_replicate.ge 0 _ (h 0)⟩

/-! ### Near keys -/

/-- Two different texts of one length that differ only inside a window of four bytes. -/
structure NearKeys (key other : List UInt8) : Prop where
  zero_notMem : 0 ∉ key
  zero_notMem_other : 0 ∉ other
  ne : key ≠ other
  length_eq : key.length = other.length
  window : ∃ start, ∀ i, key[i]? ≠ other[i]? → start ≤ i ∧ i < start + 4

/-- Near keys are the same before and behind at most four bytes. -/
theorem NearKeys.split {key other : List UInt8} (h : NearKeys key other) :
    ∃ front bytes others back, key = front ++ bytes ++ back ∧
      other = front ++ others ++ back ∧ bytes.length = others.length ∧ bytes.length ≤ 4 := by
  obtain ⟨start, hwindow⟩ := h.window
  have hsame (i : Nat) (hi : i < start ∨ start + 4 ≤ i) : key[i]? = other[i]? := by
    by_contra hne
    have := hwindow i hne
    omega
  have hfront : key.take start = other.take start := by
    apply List.ext_getElem?
    intro i
    by_cases hi : i < start
    · rw [List.getElem?_take_of_lt hi, List.getElem?_take_of_lt hi, hsame i (.inl hi)]
    · rw [List.getElem?_take_eq_none (by omega), List.getElem?_take_eq_none (by omega)]
  have hback : key.drop (start + 4) = other.drop (start + 4) := by
    apply List.ext_getElem?
    intro i
    rw [List.getElem?_drop, List.getElem?_drop, hsame _ (.inr (Nat.le_add_right _ _))]
  have hsplit (text : List UInt8) :
      text = text.take start ++ (text.drop start).take 4 ++ text.drop (start + 4) := by
    rw [← List.drop_drop, List.append_assoc, List.take_append_drop, List.take_append_drop]
  refine ⟨key.take start, (key.drop start).take 4, (other.drop start).take 4,
    key.drop (start + 4), hsplit key, ?_, ?_, List.length_take_le _ _⟩
  · rw [hfront, hback]
    exact hsplit other
  · rw [List.length_take, List.length_take, List.length_drop, List.length_drop, h.length_eq]

/-- Near keys have different CRC-32s. -/
theorem NearKeys.crc32_ne {key other : List UInt8} (h : NearKeys key other) :
    crc32 key ≠ crc32 other := by
  obtain ⟨front, bytes, others, back, rfl, rfl, hl, h4⟩ := h.split
  intro he
  have hregister := congrArg (~~~ ·) he
  simp only [crc32, BitVec.not_not] at hregister
  have hbytes := Crc.register_window 0xEDB88320 (by decide) _ front back hl (by omega) hregister
  exact h.ne (by rw [hbytes])

/-! ### Entries apart -/

/-- The call is about this key. -/
def Op.On {β : Type} (key : Key) : Op β → Prop
  | .setValue k _ => k = key
  | .getValue k => k = key
  | .removeValue k => k = key
  | .clear => False
  | .iterate => False
  | .drain => False

/-- In every table that calls can build, a call about the other key returns and leaves what
is found under the key. -/
def KeptApart (key other : Key) : Prop :=
  ∀ (β : Type) (calls : List (Op β)) (s : List (Op β × Result β) × HashTableT β),
    exec (observe step) ([], create) calls = .ok s → ∀ op : Op β, op.On other →
      ∃ r table' value, step s.2 op = .ok (r, table') ∧
        (s.2.getValue key.1).map Prod.fst = .ok value ∧
        (table'.getValue key.1).map Prod.fst = .ok value

/-- A call about the other key leaves the entry of the key in the map. -/
theorem get_onMap {β : Type} {key other : Key} (h : key.hash ≠ other.hash) (m : Map β)
    {op : Op β} (hop : op.On other) : (onMap m op).2.get key.hash = m.get key.hash := by
  cases op with
  | setValue k value =>
    obtain rfl : k = other := hop
    exact (KeyedList.get_set _ _ _).trans (if_neg h.symm)
  | getValue k => rfl
  | removeValue k =>
    obtain rfl : k = other := hop
    exact KeyedList.get_remove_of_ne _ h.symm
  | clear => exact hop.elim
  | iterate => exact hop.elim
  | drain => exact hop.elim

/-- The table behind some calls represents a map. -/
def RepresentsMap {β : Type} (s : List (Op β × Result β) × HashTableT β) : Prop :=
  ∃ m, Represents s.2 m

/-- Whatever table calls build represents a map. -/
theorem representsMap_of_exec {β : Type} {calls : List (Op β)}
    {s : List (Op β × Result β) × HashTableT β}
    (hs : exec (observe step) ([], create) calls = .ok s) : RepresentsMap s := by
  have hstep (s : List (Op β × Result β) × HashTableT β) (op : Op β) (h : RepresentsMap s) :
      ∃ s', observe step s op = .ok s' ∧ RepresentsMap s' := by
    obtain ⟨m, hm⟩ := h
    obtain ⟨table', he, hr⟩ := step_onMap hm op
    refine ⟨(s.1 ++ [(op, (onMap m op).1)], table'), ?_, _, hr⟩
    rw [observe, he]
    rfl
  have hstart : RepresentsMap (β := β) ([], create) := ⟨_, represents_create⟩
  obtain ⟨s', hs', hm⟩ := exec_of_invariant hstart hstep calls
  rwa [Except.ok.inj (hs.symm.trans hs')]

/-- Keys with different hashes are kept apart. -/
theorem keptApart_of_hash_ne {key other : Key} (h : key.hash ≠ other.hash) :
    KeptApart key other := by
  intro β calls s hs op hop
  obtain ⟨m, hm⟩ := representsMap_of_exec hs
  obtain ⟨table', he, hr⟩ := step_onMap hm op
  obtain ⟨_, hbefore, -⟩ := hm.getValue key
  obtain ⟨_, hafter, -⟩ := hr.getValue key
  rw [get_onMap h m hop] at hafter
  exact ⟨_, table', _, he, by rw [hbefore]; rfl, by rw [hafter]; rfl⟩

/-- Calls on the two keys return, with different values, and the table keeps the entries of
keys with these texts apart. -/
def NeverAlias (key other : List UInt8) : Prop :=
  (∀ calls calls', ∃ value value', HashReturns calls key value ∧
    HashReturns calls' other value' ∧ value ≠ value') ∧
  ∀ k k' : Key, cString k.1.bytes = key → cString k'.1.bytes = other →
    KeptApart k k' ∧ KeptApart k' k

/-- Near keys never alias if and only if their length is in the range of the counter;
otherwise the calls on them do not return. -/
theorem neverAlias_iff {key other : List UInt8} (h : NearKeys key other) :
    NeverAlias key other ↔ key.length < 2 ^ 32 := by
  constructor
  · rintro ⟨hvalues, -⟩
    by_contra hl
    obtain ⟨value, _, hv, -, -⟩ := hvalues 0 0
    exact not_hashReturns h.zero_notMem (Nat.le_of_not_lt hl) 0 value hv
  · intro hl
    refine ⟨fun calls calls' ↦ ⟨_, _, hashReturns_crc32 h.zero_notMem hl calls,
      hashReturns_crc32 h.zero_notMem_other (h.length_eq ▸ hl) calls', h.crc32_ne⟩, ?_⟩
    intro k k' hk hk'
    have hne : k.hash ≠ k'.hash := by
      rw [Key.hash, Key.hash, hash_eq_crc32, hash_eq_crc32, hk, hk']
      exact h.crc32_ne
    exact ⟨keptApart_of_hash_ne hne, keptApart_of_hash_ne hne.symm⟩

/-- Two paths that differ in their fourth byte. -/
theorem neverAlias_paths :
    NearKeys (ascii "/api") (ascii "/apj") ∧ NeverAlias (ascii "/api") (ascii "/apj") := by
  have h : NearKeys (ascii "/api") (ascii "/apj") :=
    ⟨by decide, by decide, by decide, rfl, 0, fun i hi ↦ ⟨Nat.zero_le _, by
      by_contra hge
      exact hi ((List.getElem?_eq_none (Nat.le_of_not_lt hge)).trans
        (List.getElem?_eq_none (Nat.le_of_not_lt hge)).symm)⟩⟩
  exact ⟨h, (neverAlias_iff h).mpr (by decide)⟩

theorem long_keys_not_neverAlias :
    NearKeys (97 :: List.replicate (2 ^ 32) 97) (98 :: List.replicate (2 ^ 32) 97) ∧
      ¬ NeverAlias (97 :: List.replicate (2 ^ 32) 97) (98 :: List.replicate (2 ^ 32) 97) := by
  have h0 (c : UInt8) (hc : c ≠ 0) : 0 ∉ c :: List.replicate (2 ^ 32) (97 : UInt8) := by
    intro h
    rcases List.mem_cons.mp h with h | h
    · exact hc h.symm
    · exact absurd (List.eq_of_mem_replicate h) (by decide)
  refine ⟨⟨h0 97 (by decide), h0 98 (by decide), ?_, ?_, 0, ?_⟩, ?_⟩
  · intro h
    exact absurd (List.cons.inj h).1 (by decide)
  · rw [List.length_cons, List.length_cons]
  · intro i hi
    cases i with
    | zero => omega
    | succ i => exact absurd rfl hi
  · rintro ⟨hvalues, -⟩
    obtain ⟨value, _, hv, -, -⟩ := hvalues 0 0
    refine not_hashReturns (h0 97 (by decide)) ?_ 0 value hv
    rw [List.length_cons, List.length_replicate]
    exact Nat.le_succ _

end Wsic.HashTableT
