import Wsic.String.Cursor

/-!
# Reading from a connection

Model of `connection_readLine` and `connection_read`, `src/connection/connection.c`, on a socket
without TLS. What a client sends is a stream of bytes; each `poll` finds a beginning of it arrived.
`FIONREAD` counts the bytes that have arrived and are not consumed, and `recv` returns all bytes it
is asked for when they are among these.
-/

namespace Wsic

/-- What one `poll`, and `FIONREAD` behind it, find: nothing in time, a failure, or the number of
bytes of the stream that have arrived so far. -/
inductive Poll where
  | timeout
  | failure
  | ready (arrived : Nat)

/-- The bytes that the client sends, and what each `poll` of the server finds. -/
structure Traffic where
  stream : List UInt8
  poll : Nat → Poll

/-- The server's end of a connection: the number of bytes consumed and of polls made. -/
structure SocketT where
  consumed : Nat
  polls : Nat
deriving DecidableEq

namespace Connection

variable (traffic : Traffic)

/-- The bytes that are ready to be read. -/
def buffered (socket : SocketT) (arrived : Nat) : List UInt8 :=
  (traffic.stream.take arrived).drop socket.consumed

/-- `connection_readBytes`, `connection.c:227`: a read of nothing leaves no buffer. -/
def readBytes (buffered : List UInt8) (bytesToRead : Nat) : Option (List UInt8) :=
  if buffered.take bytesToRead = [] then none else some (buffered.take bytesToRead)

/-- The socket after one more poll. -/
def polled (socket : SocketT) : SocketT := { socket with polls := socket.polls + 1 }

/-- The socket after these bytes were consumed. -/
def consume (socket : SocketT) (buffer : List UInt8) : SocketT :=
  { socket with consumed := socket.consumed + buffer.length }

/-- The loop of `connection_read`, `connection.c:58–90`, with this many wake-ups left. Every
wake-up counts in `timeouts`, and the one behind the last only polls. -/
def readLoop (bytesToRead : Nat) : Nat → SocketT → Option StringT × SocketT
  | 0, socket => (none, polled socket)
  | rounds + 1, socket =>
    match traffic.poll socket.polls with
    | .timeout => readLoop bytesToRead rounds (polled socket)
    | .failure => (none, polled socket)
    | .ready arrived =>
      let bytesAvailable := (buffered traffic socket arrived).length
      if bytesAvailable = 0 then readLoop bytesToRead rounds (polled socket)
      else if bytesAvailable < bytesToRead then readLoop bytesToRead rounds (polled socket)
      else match readBytes (buffered traffic socket arrived) bytesToRead with
        | none => (none, polled socket)
        | some buffer =>
          (some (StringT.fromBufferWithLength buffer), consume (polled socket) buffer)

/-- `connection_read`, `connection.c:56`. -/
def read (socket : SocketT) (bytesToRead : Nat) : Option StringT × SocketT :=
  readLoop traffic bytesToRead 6 socket

/-- The loop of `connection_readLine`, `connection.c:96–162`, with this many wake-ups left. The
search goes on from the offset where the last one ended. -/
def readLineLoop (maxBytes : Nat) : Nat → Nat → SocketT → Option StringT × SocketT
  | 0, _, socket => (none, polled socket)
  | rounds + 1, offset, socket =>
    match traffic.poll socket.polls with
    | .timeout => readLineLoop maxBytes rounds offset (polled socket)
    | .failure => (none, polled socket)
    | .ready arrived =>
      let available := buffered traffic socket arrived
      if available.length = 0 then readLineLoop maxBytes rounds offset (polled socket)
      else
        -- Don't process more than max bytes
        let bytesAvailable := if available.length ≥ maxBytes then maxBytes else available.length
        match readBytes available bytesAvailable with
        | none => readLineLoop maxBytes rounds offset (polled socket)
        | some buffer =>
          let (found, cursor) :=
            StringCursorT.findNextChar ⟨StringT.fromBufferWithLength buffer, offset⟩ 10
          match found with
          | none =>
            if bytesAvailable ≥ maxBytes then (none, polled socket)
            else readLineLoop maxBytes rounds cursor.offset (polled socket)
          | some index =>
            match readBytes available (index + 1) with
            | none => (none, polled socket)
            | some buffer =>
              (some (StringT.fromBufferWithLength buffer).trimEnd, consume (polled socket) buffer)

/-- `connection_readLine`, `connection.c:93`. -/
def readLine (socket : SocketT) (maxBytes : Nat) : Option StringT × SocketT :=
  readLineLoop traffic maxBytes 6 0 socket

/-! ### What is still to be read -/

/-- The bytes of the stream that are not consumed, arrived or not. -/
def unread (socket : SocketT) : List UInt8 := traffic.stream.drop socket.consumed

/-- The bytes that are ready are the first ones that are not consumed. -/
theorem buffered_eq (socket : SocketT) (arrived : Nat) :
    buffered traffic socket arrived = (unread traffic socket).take (arrived - socket.consumed) := by
  rw [buffered, unread, List.drop_take]

@[simp] theorem unread_polled (socket : SocketT) :
    unread traffic (polled socket) = unread traffic socket := rfl

@[simp] theorem unread_consume (socket : SocketT) (buffer : List UInt8) :
    unread traffic (consume socket buffer) = (unread traffic socket).drop buffer.length := by
  rw [unread, consume, unread, List.drop_drop]

theorem readBytes_eq_some {available : List UInt8} {n : Nat} (h : available ≠ []) (hn : n ≠ 0) :
    readBytes available n = some (available.take n) := by
  rw [readBytes, if_neg]
  rw [List.take_eq_nil_iff]
  exact fun hor ↦ hor.elim hn h

/-! ### One wake-up of a read -/

section Read

variable {traffic} {bytesToRead rounds arrived : Nat} {socket : SocketT}

/-- A wake-up that shows enough bytes consumes them. -/
theorem readLoop_shown (hpos : 0 < bytesToRead)
    (hpoll : traffic.poll socket.polls = .ready arrived)
    (h : bytesToRead ≤ (buffered traffic socket arrived).length) :
    readLoop traffic bytesToRead (rounds + 1) socket =
      (some (StringT.fromBufferWithLength ((unread traffic socket).take bytesToRead)),
        consume (polled socket) ((unread traffic socket).take bytesToRead)) := by
  have hready : buffered traffic socket arrived ≠ [] := List.ne_nil_of_length_pos (hpos.trans_le h)
  have htake : (buffered traffic socket arrived).take bytesToRead =
      (unread traffic socket).take bytesToRead := by
    rw [buffered_eq] at h ⊢
    rw [List.take_take, Nat.min_eq_left (h.trans (List.length_take_le _ _))]
  rw [readLoop, hpoll]
  dsimp only
  rw [if_neg (Nat.ne_of_gt (hpos.trans_le h)), if_neg (Nat.not_lt.mpr h),
    readBytes_eq_some hready (Nat.ne_of_gt hpos), htake]

/-- A wake-up that shows fewer bytes passes on. -/
theorem readLoop_short (hpoll : traffic.poll socket.polls = .ready arrived)
    (h : (buffered traffic socket arrived).length < bytesToRead) :
    readLoop traffic bytesToRead (rounds + 1) socket =
      readLoop traffic bytesToRead rounds (polled socket) := by
  rw [readLoop, hpoll]
  dsimp only
  rw [if_pos h, ite_self]

/-- One of the six wake-ups of a read finds that so many bytes have arrived, and none fails before
it. -/
def Available (traffic : Traffic) (socket : SocketT) (bytesToRead : Nat) : Prop :=
  ∃ i < 6, (∀ j < i, traffic.poll (socket.polls + j) ≠ .failure) ∧
    ∃ arrived, traffic.poll (socket.polls + i) = .ready arrived ∧
      bytesToRead ≤ (buffered traffic socket arrived).length

/-- The loop returns the next bytes of the stream once a wake-up finds them. -/
private theorem readLoop_of_ready (hpos : 0 < bytesToRead) {i : Nat} (hi : i < rounds)
    (hfail : ∀ j < i, traffic.poll (socket.polls + j) ≠ .failure)
    (hready : traffic.poll (socket.polls + i) = .ready arrived)
    (h : bytesToRead ≤ (buffered traffic socket arrived).length) :
    (readLoop traffic bytesToRead rounds socket).1 =
      some (StringT.fromBufferWithLength ((unread traffic socket).take bytesToRead)) := by
  induction rounds generalizing i socket with
  | zero => exact absurd hi (Nat.not_lt_zero i)
  | succ rounds ih =>
    cases i with
    | zero => rw [readLoop_shown hpos hready h]
    | succ i =>
      have hrest : (readLoop traffic bytesToRead rounds (polled socket)).1 =
          some (StringT.fromBufferWithLength ((unread traffic socket).take bytesToRead)) := by
        apply @ih (polled socket) i (by omega)
        · intro j hj
          rw [polled, Nat.add_assoc, Nat.add_comm 1]
          exact hfail (j + 1) (by omega)
        · rwa [polled, Nat.add_assoc, Nat.add_comm 1]
        · exact h
      cases hpoll : traffic.poll socket.polls with
      | timeout =>
        rw [readLoop, hpoll]
        exact hrest
      | failure => exact absurd hpoll (hfail 0 (by omega))
      | ready arrived' =>
        by_cases henough : bytesToRead ≤ (buffered traffic socket arrived').length
        · rw [readLoop_shown hpos hpoll henough]
        · rw [readLoop_short hpoll (Nat.not_le.mp henough)]
          exact hrest

theorem read_of_available (hpos : 0 < bytesToRead) (h : Available traffic socket bytesToRead) :
    (read traffic socket bytesToRead).1 =
      some (StringT.fromBufferWithLength ((unread traffic socket).take bytesToRead)) := by
  obtain ⟨i, hi, hfail, arrived, hready, henough⟩ := h
  exact readLoop_of_ready hpos hi hfail hready henough

end Read

end Connection
end Wsic
