import Wsic.Connection.ConnectionT

/-!
# Connections with and without TLS

`connection_read` and `connection_readLine` of `src/connection/connection.c` over whatever the
operating system and OpenSSL answer, on a plain socket and with TLS. Nothing is assumed of the
answers but that a read gives at most as many bytes as it is asked for. A stream of bytes that
arrive over time is one such network.
-/

namespace Wsic

/-- What a connection is read with, on the state of the world outside of the program: `poll`,
`ioctl` with `FIONREAD` and `recv` of the operating system, `SSL_pending`, `SSL_peek_ex` and
`SSL_read_ex` of OpenSSL. `none` is a failure; `recv` is told whether to peek. -/
structure Network (σ : Type) where
  poll : σ → Int × σ
  ioctl : σ → Option Int × σ
  recv : Bool → σ → Nat → Option (List UInt8) × σ
  sslPending : σ → Int
  sslPeek : σ → Nat → Option (List UInt8) × σ
  sslRead : σ → Nat → Option (List UInt8) × σ
  length_recv_le : ∀ peek s n, ∀ bytes ∈ (recv peek s n).1, bytes.length ≤ n
  length_sslPeek_le : ∀ s n, ∀ bytes ∈ (sslPeek s n).1, bytes.length ≤ n
  length_sslRead_le : ∀ s n, ∀ bytes ∈ (sslRead s n).1, bytes.length ≤ n

namespace Network

variable {σ : Type} (network : Network σ)

/-! ### One call of the network -/

/-- `connection_readBytes`, `connection.c:227`: a read of nothing leaves no buffer. -/
def readBytes (peek : Bool) (s : σ) (bytesToRead : Nat) : Option (List UInt8) × σ :=
  match network.recv peek s bytesToRead with
  | (none, s) => (none, s)
  | (some buffer, s) => if buffer = [] then (none, s) else (some buffer, s)

/-- `connection_readSSLBytes`, `connection.c:254`. -/
def readSSLBytes (peek : Bool) (s : σ) (bytesToRead : Nat) : Option (List UInt8) × σ :=
  if peek then network.sslPeek s bytesToRead else network.sslRead s bytesToRead

/-- The choice between the two, such as `connection.c:118–121`. -/
def receive (ssl peek : Bool) (s : σ) (bytesToRead : Nat) : Option (List UInt8) × σ :=
  if ssl then network.readSSLBytes peek s bytesToRead else network.readBytes peek s bytesToRead

/-- `connection_pollForData`, `connection.c:165`. -/
def pollForData (ssl : Bool) (s : σ) : Bool × σ :=
  if ssl ∧ network.sslPending s > 0 then (true, s)
  else
    let (status, s) := network.poll s
    if status < -1 then (false, s) else if status = 0 then (false, s) else (true, s)

/-- `connection_getAvailableBytes`, `connection.c:190`; `-1` is a failure. With TLS nothing is
pending before a first read, so one byte is peeked at. -/
def getAvailableBytes (ssl : Bool) (s : σ) : Int × σ :=
  if ssl then
    let bytesAvailable := network.sslPending s
    if bytesAvailable < 0 then (-1, s)
    else if bytesAvailable = 0 then (bytesAvailable, (network.readSSLBytes true s 1).2)
    else (bytesAvailable, s)
  else match network.ioctl s with
    | (none, s) => (-1, s)
    | (some bytesAvailable, s) => (bytesAvailable, s)

/-- What is received has at most the bytes that were asked for. -/
theorem length_receive_le {ssl peek : Bool} {s s' : σ} {n : Nat} {bytes : List UInt8}
    (h : network.receive ssl peek s n = (some bytes, s')) : bytes.length ≤ n := by
  unfold receive at h
  split at h
  · unfold readSSLBytes at h
    split at h
    · exact network.length_sslPeek_le s n bytes (by rw [h]; rfl)
    · exact network.length_sslRead_le s n bytes (by rw [h]; rfl)
  · unfold readBytes at h
    split at h
    · cases h
    · next heq =>
      split at h <;> cases h
      exact network.length_recv_le peek s n bytes (by rw [heq]; rfl)

/-! ### Reading -/

/-- The loop of `connection_read`, `connection.c:58–90`, with this many wake-ups left. -/
def readLoop (ssl : Bool) (bytesToRead : Nat) : Nat → σ → Option StringT × σ
  | 0, s => (none, (network.pollForData ssl s).2)
  | rounds + 1, s =>
    let (dataIsAvailable, s) := network.pollForData ssl s
    if dataIsAvailable = false then readLoop ssl bytesToRead rounds s
    else
      let (bytesAvailable, s) := network.getAvailableBytes ssl s
      if bytesAvailable = 0 then readLoop ssl bytesToRead rounds s
      else if bytesAvailable < 0 then (none, s)
      else if bytesAvailable.toNat < bytesToRead then readLoop ssl bytesToRead rounds s
      else match network.receive ssl false s bytesToRead with
        | (none, s) => (none, s)
        | (some buffer, s) => (some (StringT.fromBufferWithLength buffer), s)

/-- `connection_read`, `connection.c:56`. -/
def read (ssl : Bool) (s : σ) (bytesToRead : Nat) : Option StringT × σ :=
  network.readLoop ssl bytesToRead 6 s

/-- No more than the limit is processed, `connection.c:110–113`. -/
def clip (maxBytes : Nat) (bytesAvailable : Int) : Nat :=
  if bytesAvailable.toNat ≥ maxBytes then maxBytes else bytesAvailable.toNat

theorem clip_le (maxBytes : Nat) (bytesAvailable : Int) :
    clip maxBytes bytesAvailable ≤ maxBytes := by
  unfold clip
  split <;> omega

/-- The loop of `connection_readLine`, `connection.c:96–162`, with this many wake-ups left. -/
def readLineLoop (ssl : Bool) (maxBytes : Nat) : Nat → Nat → σ → Option StringT × σ
  | 0, _, s => (none, (network.pollForData ssl s).2)
  | rounds + 1, offset, s =>
    let (dataIsAvailable, s) := network.pollForData ssl s
    if dataIsAvailable = false then readLineLoop ssl maxBytes rounds offset s
    else
      let (bytesAvailable, s) := network.getAvailableBytes ssl s
      if bytesAvailable = 0 then readLineLoop ssl maxBytes rounds offset s
      else if bytesAvailable < 0 then (none, s)
      else
        match network.receive ssl true s (clip maxBytes bytesAvailable) with
        | (none, s) => readLineLoop ssl maxBytes rounds offset s
        | (some buffer, s) =>
          let (found, cursor) :=
            StringCursorT.findNextChar ⟨StringT.fromBufferWithLength buffer, offset⟩ 10
          match found with
          | none =>
            if clip maxBytes bytesAvailable ≥ maxBytes then (none, s)
            else readLineLoop ssl maxBytes rounds cursor.offset s
          | some index =>
            match network.receive ssl false s (index + 1) with
            | (none, s) => (none, s)
            | (some buffer, s) => (some (StringT.fromBufferWithLength buffer).trimEnd, s)

/-- `connection_readLine`, `connection.c:93`. -/
def readLine (ssl : Bool) (s : σ) (maxBytes : Nat) : Option StringT × σ :=
  network.readLineLoop ssl maxBytes 6 0 s

/-- The end of a line is found among the peeked bytes, wherever the search starts. -/
theorem line_le_of_found {ssl : Bool} {n offset index : Nat} {s s' : σ} {buffer : List UInt8}
    {cursor : StringCursorT} (hpeek : network.receive ssl true s n = (some buffer, s'))
    (hfound : StringCursorT.findNextChar ⟨StringT.fromBufferWithLength buffer, offset⟩ 10 =
      (some index, cursor)) : index + 1 ≤ n := by
  have hindex : index < buffer.length := (StringCursorT.findNextChar_of_some hfound).2.1
  have hbuffer := network.length_receive_le hpeek
  omega

private theorem size_readLineLoop_le {ssl : Bool} {maxBytes rounds offset : Nat} {s s' : σ}
    {line : StringT}
    (h : network.readLineLoop ssl maxBytes rounds offset s = (some line, s')) :
    line.size ≤ maxBytes := by
  induction rounds generalizing offset s with
  | zero => cases h
  | succ rounds ih =>
    rw [readLineLoop] at h
    dsimp only at h
    -- Without data, with a failure, and without a peek there is no line in this wake-up.
    split at h
    · exact ih h
    split at h
    · exact ih h
    split at h
    · cases h
    split at h
    · exact ih h
    · next buffer _ hpeek =>
      split at h
      · -- The search goes on at the next wake-up, unless the limit is reached.
        split at h
        · cases h
        · exact ih h
      · next index hfound =>
        split at h
        · cases h
        · next taken _ htaken =>
          cases h
          have hline := network.line_le_of_found hpeek (Prod.ext hfound rfl)
          have htake : (StringT.fromBufferWithLength taken).size ≤ index + 1 :=
            network.length_receive_le htaken
          have htrim := (StringT.fromBufferWithLength taken).size_trimEnd_le
          exact htrim.trans (htake.trans (hline.trans (clip_le _ _)))

/-- A line that is returned has at most as many bytes as the call allows. -/
theorem size_readLine_le {ssl : Bool} {maxBytes : Nat} {s s' : σ} {line : StringT}
    (h : network.readLine ssl s maxBytes = (some line, s')) : line.size ≤ maxBytes :=
  network.size_readLineLoop_le h

end Network

/-! ### A socket on which a stream arrives -/

namespace Connection

/-- What `poll` returns. -/
def pollStatus : Poll → Int
  | .timeout => 0
  | .failure => 1
  | .ready _ => 1

/-- The bytes that a poll found ready. -/
def bytesShown (traffic : Traffic) (socket : SocketT) : Poll → List UInt8
  | .timeout => []
  | .failure => []
  | .ready arrived => buffered traffic socket arrived

/-- What `FIONREAD` finds behind a poll. -/
def lengthShown (traffic : Traffic) (socket : SocketT) : Poll → Option Int
  | .failure => none
  | poll => some (bytesShown traffic socket poll).length

/-- The operating system on a socket without TLS. Between two polls nothing arrives. -/
def plainNetwork (traffic : Traffic) : Network SocketT where
  poll socket := (pollStatus (traffic.poll socket.polls), polled socket)
  ioctl socket := (lengthShown traffic socket (traffic.poll (socket.polls - 1)), socket)
  recv peek socket n :=
    let buffer := (bytesShown traffic socket (traffic.poll (socket.polls - 1))).take n
    (some buffer, if peek then socket else consume socket buffer)
  sslPending _ := 0
  sslPeek socket _ := (none, socket)
  sslRead socket _ := (none, socket)
  length_recv_le := by
    intro peek socket n bytes h
    cases h
    exact List.length_take_le n _
  length_sslPeek_le := by
    intro socket n bytes h
    cases h
  length_sslRead_le := by
    intro socket n bytes h
    cases h

section Plain

variable {traffic : Traffic} {socket : SocketT} {arrived : Nat}

theorem pollForData_timeout (h : traffic.poll socket.polls = .timeout) :
    (plainNetwork traffic).pollForData false socket = (false, polled socket) := by
  simp [Network.pollForData, plainNetwork, h, pollStatus]

theorem pollForData_failure (h : traffic.poll socket.polls = .failure) :
    (plainNetwork traffic).pollForData false socket = (true, polled socket) := by
  simp [Network.pollForData, plainNetwork, h, pollStatus]

theorem pollForData_ready (h : traffic.poll socket.polls = .ready arrived) :
    (plainNetwork traffic).pollForData false socket = (true, polled socket) := by
  simp [Network.pollForData, plainNetwork, h, pollStatus]

theorem getAvailableBytes_failure (h : traffic.poll socket.polls = .failure) :
    (plainNetwork traffic).getAvailableBytes false (polled socket) = (-1, polled socket) := by
  simp [Network.getAvailableBytes, plainNetwork, polled, h, lengthShown]

theorem getAvailableBytes_ready (h : traffic.poll socket.polls = .ready arrived) :
    (plainNetwork traffic).getAvailableBytes false (polled socket) =
      (((buffered traffic socket arrived).length : Int), polled socket) := by
  simp [Network.getAvailableBytes, plainNetwork, polled, h, lengthShown, bytesShown, buffered]

theorem receive_peek (h : traffic.poll socket.polls = .ready arrived) (n : Nat) :
    (plainNetwork traffic).receive false true (polled socket) n =
      (readBytes (buffered traffic socket arrived) n, polled socket) := by
  have hrecv : (plainNetwork traffic).recv true (polled socket) n =
      (some ((buffered traffic socket arrived).take n), polled socket) := by
    simp [plainNetwork, polled, h, bytesShown, buffered]
  rw [Network.receive, if_neg Bool.false_ne_true, Network.readBytes, hrecv, readBytes]
  dsimp only
  split <;> rfl

theorem receive_take (h : traffic.poll socket.polls = .ready arrived) (n : Nat) :
    (plainNetwork traffic).receive false false (polled socket) n =
      (readBytes (buffered traffic socket arrived) n,
        (readBytes (buffered traffic socket arrived) n).elim (polled socket)
          (consume (polled socket))) := by
  have hrecv : (plainNetwork traffic).recv false (polled socket) n =
      (some ((buffered traffic socket arrived).take n),
        consume (polled socket) ((buffered traffic socket arrived).take n)) := by
    simp [plainNetwork, polled, h, bytesShown, buffered]
  rw [Network.receive, if_neg Bool.false_ne_true, Network.readBytes, hrecv, readBytes]
  dsimp only
  split
  · next hnil =>
    rw [hnil]
    rfl
  · rfl

theorem snd_pollForData (socket : SocketT) :
    ((plainNetwork traffic).pollForData false socket).2 = polled socket := by
  cases h : traffic.poll socket.polls with
  | timeout => rw [pollForData_timeout h]
  | failure => rw [pollForData_failure h]
  | ready arrived => rw [pollForData_ready h]

theorem readLineLoop_plainNetwork (maxBytes rounds offset : Nat) (socket : SocketT) :
    (plainNetwork traffic).readLineLoop false maxBytes rounds offset socket =
      readLineLoop traffic maxBytes rounds offset socket := by
  induction rounds generalizing offset socket with
  | zero => exact congrArg (Prod.mk none) (snd_pollForData socket)
  | succ rounds ih =>
    rw [Network.readLineLoop, readLineLoop]
    cases hpoll : traffic.poll socket.polls with
    | timeout =>
      rw [pollForData_timeout hpoll]
      exact ih offset (polled socket)
    | failure =>
      rw [pollForData_failure hpoll]
      dsimp only
      rw [getAvailableBytes_failure hpoll]
      rfl
    | ready arrived =>
      rw [pollForData_ready hpoll]
      dsimp only
      rw [getAvailableBytes_ready hpoll]
      dsimp only
      rw [if_neg (Ne.symm Bool.false_ne_true), receive_peek hpoll]
      have hclip : Network.clip maxBytes (buffered traffic socket arrived).length =
          if (buffered traffic socket arrived).length ≥ maxBytes then maxBytes
          else (buffered traffic socket arrived).length := rfl
      rw [← hclip]
      by_cases hnil : (buffered traffic socket arrived).length = 0
      · rw [if_pos hnil, if_pos (by omega)]
        exact ih offset (polled socket)
      rw [if_neg hnil, if_neg (by omega), if_neg (by omega)]
      cases readBytes (buffered traffic socket arrived)
          (Network.clip maxBytes (buffered traffic socket arrived).length) with
      | none => exact ih offset (polled socket)
      | some buffer =>
        dsimp only
        cases (StringCursorT.findNextChar ⟨StringT.fromBufferWithLength buffer, offset⟩ 10).1 with
        | none =>
          dsimp only
          rw [ih]
        | some index =>
          dsimp only
          rw [receive_take hpoll]
          cases readBytes (buffered traffic socket arrived) (index + 1) <;> rfl

theorem readLoop_plainNetwork (bytesToRead rounds : Nat) (socket : SocketT) :
    (plainNetwork traffic).readLoop false bytesToRead rounds socket =
      readLoop traffic bytesToRead rounds socket := by
  induction rounds generalizing socket with
  | zero => exact congrArg (Prod.mk none) (snd_pollForData socket)
  | succ rounds ih =>
    rw [Network.readLoop, readLoop]
    cases hpoll : traffic.poll socket.polls with
    | timeout =>
      rw [pollForData_timeout hpoll]
      exact ih (polled socket)
    | failure =>
      rw [pollForData_failure hpoll]
      dsimp only
      rw [getAvailableBytes_failure hpoll]
      rfl
    | ready arrived =>
      rw [pollForData_ready hpoll]
      dsimp only
      rw [getAvailableBytes_ready hpoll]
      dsimp only
      rw [if_neg (Ne.symm Bool.false_ne_true), Int.toNat_natCast]
      by_cases hnil : (buffered traffic socket arrived).length = 0
      · rw [if_pos hnil, if_pos (by omega)]
        exact ih (polled socket)
      rw [if_neg hnil, if_neg (by omega), if_neg (by omega), ih, receive_take hpoll]
      cases readBytes (buffered traffic socket arrived) bytesToRead <;> rfl

/-- The lines of a stream are those that are read from the socket on which it arrives. -/
theorem readLine_plainNetwork : (plainNetwork traffic).readLine false = readLine traffic := by
  funext socket maxBytes
  exact readLineLoop_plainNetwork maxBytes 6 0 socket

theorem read_plainNetwork : (plainNetwork traffic).read false = read traffic := by
  funext socket bytesToRead
  exact readLoop_plainNetwork bytesToRead 6 socket

end Plain

end Connection
end Wsic
