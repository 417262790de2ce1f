import Wsic.Lib.Traced
import Wsic.Connection.Network
import Wsic.Worker.WorkerT

/-!
# The budget of a header

The loop over the header, `src/worker/worker.c:127–168`, counts the lines it has read and lets the
next call of `connection_readLine` take what `REQUEST_MAX_HEADER_SIZE` leaves. The difference is a
`size_t`. The loop is repeated here with its calls recorded, over every connection, with and without
TLS: no call is made with a difference that has wrapped.
-/

open CMemory Tracing

namespace Wsic

/-- A connection with or without TLS. -/
def Network.reader {σ : Type} (network : Network σ) (ssl : Bool) : Reader σ :=
  ⟨network.readLine ssl, network.read ssl⟩

/-- The worker's connection to a socket on which a stream arrives. -/
theorem Connection.reader_plainNetwork (traffic : Traffic) :
    (plainNetwork traffic).reader false = Worker.plainReader traffic := by
  rw [Network.reader, readLine_plainNetwork, read_plainNetwork]
  rfl

namespace Worker

/-! ### The loop with its calls recorded -/

/-- One round of the loop: the size counted before it, the limit that is passed on, and the line
that is returned. -/
structure LineCall where
  headerSize : ℕ
  maxBytes : ℕ
  line : Option StringT

/-- The size is within the limit, so that the difference does not wrap, and the line is not longer
than the difference. -/
structure LineCall.WithinBudget (call : LineCall) : Prop where
  headerSize_le : call.headerSize ≤ requestMaxHeaderSize
  maxBytes_eq : call.maxBytes = requestMaxHeaderSize - call.headerSize
  size_le : ∀ line ∈ call.line, line.size ≤ call.maxBytes

section Loop

variable [FreshBytes] {σ : Type} (reader : Reader σ)

/-- `connection_readLine` with its call recorded. -/
def readLineTraced (headerSize maxBytes : ℕ) (socket : σ) : Traced LineCall (Option StringT × σ) :=
  Traced.call ⟨headerSize, maxBytes, (reader.readLine socket maxBytes).1⟩
    (.ok (reader.readLine socket maxBytes))

/-- `readHeader` with its calls recorded. -/
def readHeaderTraced : ℕ → ℕ → ℕ → HttpT → σ → Traced LineCall (Bool × HttpT × σ)
  | 0, _, _, _, _ => liftM (.error .nonTermination : Checked (Bool × HttpT × σ))
  | rounds + 1, line, headerSize, request, socket => do
    let maxBytes := (requestMaxHeaderSize + 2 ^ 64 - headerSize) % 2 ^ 64
    match ← readLineTraced reader headerSize maxBytes socket with
    | (none, socket) => return (true, request, socket)
    | (some currentLine, socket) =>
      if currentLine.size = 0 then return (true, request, socket)
      else do
        let parse :=
          if line = 0 then request.parseRequestLine currentLine else request.parseHeader currentLine
        let (parsed, request) ← liftM parse
        if parsed then
          readHeaderTraced rounds (line + 1) (headerSize + currentLine.size) request socket
        else return (false, request, socket)

/-- Without its records this is the loop of the worker. -/
theorem result_readHeaderTraced (rounds line headerSize : ℕ) (request : HttpT) (socket : σ) :
    (readHeaderTraced reader rounds line headerSize request socket).result =
      readHeader reader rounds line headerSize request socket := by
  induction rounds generalizing line headerSize request socket with
  | zero => rfl
  | succ rounds ih =>
    rw [readHeaderTraced, readHeader, Traced.result_bind, readLineTraced, Traced.result_call]
    rcases reader.readLine socket ((requestMaxHeaderSize + 2 ^ 64 - headerSize) % 2 ^ 64) with
      ⟨_ | currentLine, socket⟩
    · rfl
    · rw [checked_ok_bind]
      dsimp only
      split
      · rfl
      · rw [Traced.result_bind, Traced.result_liftM]
        have hrest (parsed : Bool × HttpT) :
            (if parsed.1 then readHeaderTraced reader rounds (line + 1)
                (headerSize + currentLine.size) parsed.2 socket
              else Pure.pure (false, parsed.2, socket)).result =
            if parsed.1 then readHeader reader rounds (line + 1) (headerSize + currentLine.size)
                parsed.2 socket
              else Pure.pure (false, parsed.2, socket) := by
          split
          · exact ih _ _ _ _
          · rfl
        simp only [hrest]
        split <;> rfl

/-- When lines are not longer than a call allows, the size stays within the limit and every call
gets what is left. -/
theorem all_readHeaderTraced
    (hreader : ∀ socket maxBytes, ∀ line ∈ (reader.readLine socket maxBytes).1,
      line.size ≤ maxBytes)
    (rounds line : ℕ) {headerSize : ℕ} (request : HttpT) (socket : σ)
    (hsize : headerSize ≤ requestMaxHeaderSize) :
    (readHeaderTraced reader rounds line headerSize request socket).All
      LineCall.WithinBudget := by
  induction rounds generalizing line headerSize request socket with
  | zero => exact Traced.all_liftM _
  | succ rounds ih =>
    have hmax : (requestMaxHeaderSize + 2 ^ 64 - headerSize) % 2 ^ 64 =
        requestMaxHeaderSize - headerSize := by
      unfold requestMaxHeaderSize at hsize ⊢
      omega
    rw [readHeaderTraced, hmax]
    apply Traced.all_bind
    · exact Traced.all_call ⟨hsize, rfl, hreader socket _⟩ _
    · rintro ⟨returned, next⟩ hread
      cases returned with
      | none => exact Traced.all_pure _
      | some currentLine =>
        -- The line fits into what is left, so the size behind it is within the limit.
        have hline : currentLine.size ≤ requestMaxHeaderSize - headerSize :=
          hreader socket _ currentLine (by rw [Except.ok.inj hread]; rfl)
        dsimp only
        split
        · exact Traced.all_pure _
        · refine Traced.all_bind (Traced.all_liftM _) ?_
          rintro ⟨parsed, request⟩ -
          dsimp only
          split
          · exact ih _ _ _ (by omega)
          · exact Traced.all_pure _

end Loop

/-! ### The limit of a connection -/

/-- Without its records the loop is the one of the worker, and in every round the size is within
the limit, the call gets what is left of it, and its line is not longer. -/
structure KeepsBudget [FreshBytes] {σ : Type} (reader : Reader σ) (rounds : ℕ) (socket : σ) :
    Prop where
  result : (readHeaderTraced reader rounds 0 0 HttpT.create socket).result =
    readHeader reader rounds 0 0 HttpT.create socket
  within : (readHeaderTraced reader rounds 0 0 HttpT.create socket).All LineCall.WithinBudget

/-- Whatever arrives on a connection, with TLS or without, and however many lines are read, the
limit that is passed on never wraps. -/
theorem connection_keepsBudget [FreshBytes] {σ : Type} (network : Network σ) (ssl : Bool)
    (rounds : ℕ) (socket : σ) : KeepsBudget (network.reader ssl) rounds socket := by
  refine ⟨result_readHeaderTraced _ rounds 0 0 _ socket,
    all_readHeaderTraced _ ?_ rounds 0 _ socket (Nat.zero_le _)⟩
  intro socket maxBytes line hline
  have hread : network.readLine ssl socket maxBytes =
      (some line, (network.readLine ssl socket maxBytes).2) := Prod.ext hline rfl
  exact network.size_readLine_le hread

/-- A request that arrives whole. -/
theorem request_keepsBudget : @KeepsBudget FreshBytes.zero SocketT
    (plainReader ⟨ascii "GET / HTTP/1.1\nHost: a\n\n", fun _ ↦ .ready 24⟩) 3 ⟨0, 0⟩ := by
  rw [← Connection.reader_plainNetwork]
  exact @connection_keepsBudget FreshBytes.zero SocketT _ false 3 ⟨0, 0⟩

end Worker
end Wsic
