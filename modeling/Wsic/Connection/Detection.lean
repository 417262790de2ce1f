import Wsic.Connection.ConnectionT

/-!
# The detection of TLS

`connection_isSSL`, `src/connection/connection.c:328–340`, looks at what has arrived of a connection
when `server_acceptConnections` has polled it once. Its buffer has six bytes, whatever was received,
and the ones behind that are as `malloc` leaves them. What the client sends is taken for what it is
only if enough of it has arrived.
-/

open CMemory

namespace Wsic.Connection

/-- `connection_isSSL`, `connection.c:328`, on the bytes that have arrived. -/
def isSSL [FreshBytes] (buffered : List UInt8) : Bool :=
  match readBytes buffered 6 with
  | none => false
  | some buffer =>
    let isHandshakeRecord := buffer.getD 0 (FreshBytes.fresh 0) == 0x16
    let isClientHello := buffer.getD 5 (FreshBytes.fresh 5) == 0x01
    isHandshakeRecord && isClientHello

/-- The client sends a handshake record with a client hello. -/
def OpensHandshake (stream : List UInt8) : Prop :=
  stream[0]? = some 0x16 ∧ stream[5]? = some 0x01

instance (stream : List UInt8) : Decidable (OpensHandshake stream) :=
  inferInstanceAs (Decidable (_ ∧ _))

/-- Something has arrived. -/
private theorem isSSL_cons [FreshBytes] (b : UInt8) (bytes : List UInt8) :
    isSSL (b :: bytes) = (b == 0x16 && bytes.getD 4 (FreshBytes.fresh 5) == 0x01) := by
  rw [isSSL, readBytes_eq_some (List.cons_ne_nil b bytes) (by decide)]
  simp only [List.getD_eq_getElem?_getD, List.take_succ_cons, List.getElem?_cons_zero,
    List.getElem?_cons_succ, List.getElem?_take_of_lt (by decide : 4 < 5), Option.getD_some]

/-- Whatever the memory holds, a client is taken for what it is exactly when six bytes have
arrived, when it does not begin with a handshake record, or when nothing has arrived of a record
that is no client hello. -/
theorem detects_iff (stream : List UInt8) (arrived : ℕ) :
    (∀ fresh : FreshBytes, @isSSL fresh (stream.take arrived) = decide (OpensHandshake stream)) ↔
      6 ≤ (stream.take arrived).length ∨ stream[0]? ≠ some 0x16 ∨
        arrived = 0 ∧ ¬ OpensHandshake stream := by
  cases stream with
  | nil =>
    refine iff_of_true (fun fresh ↦ ?_) (.inr (.inl nofun))
    rw [List.take_nil]
    rfl
  | cons b rest =>
    cases arrived with
    | zero =>
      have hplain (fresh : FreshBytes) : @isSSL fresh ((b :: rest).take 0) = false := rfl
      constructor
      · intro h
        have hnot := h FreshBytes.zero
        rw [hplain, eq_comm, decide_eq_false_iff_not] at hnot
        exact .inr (.inr ⟨rfl, hnot⟩)
      · intro h fresh
        rw [hplain, eq_comm, decide_eq_false_iff_not]
        rcases h with h | h | h
        · rw [List.take_zero] at h
          exact absurd h (by decide)
        · exact fun hopens ↦ h hopens.1
        · exact h.2
    | succ n =>
      have hshown (fresh : FreshBytes) : @isSSL fresh ((b :: rest).take (n + 1)) =
          (b == 0x16 && (rest.take n).getD 4 (fresh.fresh 5) == 0x01) := by
        rw [List.take_succ_cons, isSSL_cons]
      simp only [hshown]
      by_cases hb : b = 0x16
      · subst hb
        by_cases hlength : 4 < (rest.take n).length
        · refine iff_of_true (fun fresh ↦ ?_) (.inl ?_)
          · have hget : rest[4]? = (rest.take n)[4]? := by
              rw [List.getElem?_take_of_lt (by rw [List.length_take] at hlength; omega)]
            rw [List.getD_eq_getElem _ _ hlength, Bool.eq_iff_iff, decide_eq_true_iff,
              OpensHandshake, List.getElem?_cons_succ, hget, List.getElem?_eq_getElem hlength]
            simp
          · rw [List.take_succ_cons, List.length_cons]
            omega
        · -- the sixth byte of the buffer is as it was
          refine iff_of_false (fun h ↦ ?_) ?_
          · have hzero := h ⟨fun _ ↦ 0⟩
            have hone := h ⟨fun _ ↦ 1⟩
            rw [List.getD_eq_default _ _ (Nat.le_of_not_lt hlength)] at hzero hone
            rw [← hzero] at hone
            revert hone
            decide
          · rintro (h | h | h)
            · rw [List.take_succ_cons, List.length_cons] at h
              omega
            · exact h rfl
            · exact absurd h.1 (Nat.succ_ne_zero n)
      · refine iff_of_true (fun fresh ↦ ?_) (.inr (.inl ?_))
        · rw [beq_false_of_ne hb, Bool.false_and, eq_comm, decide_eq_false_iff_not]
          exact fun hopens ↦ hb (Option.some.inj hopens.1)
        · exact fun h ↦ hb (Option.some.inj h)

end Wsic.Connection
