import Wsic.Lib.Transition
import Wsic.Connection.ConnectionT

/-!
# Lines of a connection

`connection_readLine` of `src/connection/connection.c` peeks at what has arrived and consumes one
line once its end is there. The search for the end stops early at NUL and goes on at the next
wake-up; what it has passed holds no end of a line. An abstract reader of lines, which sees the
stream only, accepts every sequence of calls.
-/

open CMemory Transition

namespace Wsic.Connection

/-! ### The abstract reader -/

/-- The bytes up to the first newline, and a newline. -/
def firstLine (unread : List UInt8) : List UInt8 := unread.takeWhile (· ≠ 10) ++ [10]

/-- Reading lines off a stream: a call without a line leaves the stream, a call with a line takes
the first one off it, which has at most as many bytes as the call allows and is returned without
the blanks at its end. -/
def acceptLine (unread : List UInt8) : Nat × Option StringT → Option (List UInt8)
  | (_, none) => some unread
  | (maxBytes, some line) =>
    if 10 ∈ unread ∧ (firstLine unread).length ≤ maxBytes ∧
        line.content = (firstLine unread).rdropWhile StringT.isTrimmed
    then some (unread.drop (firstLine unread).length) else none

theorem firstLine_append {body : List UInt8} (h : 10 ∉ body) (rest : List UInt8) :
    firstLine (body ++ 10 :: rest) = body ++ [10] := by
  have hbody : ∀ c ∈ body, decide (c ≠ 10) = true := by
    intro c hc
    rw [decide_eq_true_iff]
    exact fun he ↦ h (he ▸ hc)
  rw [firstLine, List.takeWhile_append_of_pos hbody, List.takeWhile_cons_of_neg (by simp),
    List.append_nil]

theorem firstLine_of_mem {unread : List UInt8} (h : 10 ∈ unread) :
    ∃ body rest, unread = body ++ 10 :: rest ∧ 10 ∉ body ∧ firstLine unread = body ++ [10] := by
  obtain ⟨body, rest, rfl, hbody⟩ := List.eq_append_cons_of_mem h
  exact ⟨body, rest, rfl, hbody, firstLine_append hbody rest⟩

/-- A call that the reader accepts with a line. -/
theorem acceptLine_some_eq_some {unread after : List UInt8} {maxBytes : Nat} {line : StringT}
    (h : acceptLine unread (maxBytes, some line) = some after) :
    ∃ body, 10 ∉ body ∧ unread = body ++ [10] ++ after ∧
      line.content = (body ++ [10]).rdropWhile StringT.isTrimmed := by
  rw [acceptLine, Option.ite_none_right_eq_some] at h
  obtain ⟨⟨hmem, -, hline⟩, hafter⟩ := h
  obtain ⟨body, rest, rfl, hbody, hfirst⟩ := firstLine_of_mem hmem
  have hsplit : body ++ 10 :: rest = body ++ [10] ++ rest := by
    rw [List.append_assoc, List.singleton_append]
  rw [hfirst] at hline hafter
  rw [hsplit, List.drop_left] at hafter
  cases hafter
  exact ⟨body, hbody, hsplit, hline⟩

/-- The lines of accepted calls are the first ones of the stream, and the rest is left. -/
theorem lines_of_accepted {unread after : List UInt8} {calls : List (Nat × Option StringT)}
    (h : calls.foldlM acceptLine unread = some after) :
    ∃ bodies : List (List UInt8), (∀ body ∈ bodies, 10 ∉ body) ∧
      unread = (bodies.map (· ++ [10])).flatten ++ after ∧
      (calls.filterMap Prod.snd).map StringT.content =
        bodies.map (fun body ↦ (body ++ [10]).rdropWhile StringT.isTrimmed) := by
  induction calls generalizing unread with
  | nil =>
    cases h
    exact ⟨[], fun _ hm ↦ absurd hm List.not_mem_nil, rfl, rfl⟩
  | cons call calls ih =>
    obtain ⟨maxBytes, result⟩ := call
    rw [List.foldlM_cons, Option.bind_eq_bind, Option.bind_eq_some_iff] at h
    obtain ⟨next, hcall, hcalls⟩ := h
    obtain ⟨bodies, hbodies, hnext, hlines⟩ := ih hcalls
    cases result with
    | none =>
      cases hcall
      exact ⟨bodies, hbodies, hnext, hlines⟩
    | some line =>
      obtain ⟨body, hbody, hunread, hline⟩ := acceptLine_some_eq_some hcall
      refine ⟨body :: bodies, ?_, ?_, ?_⟩
      · exact List.forall_mem_cons.mpr ⟨hbody, hbodies⟩
      · rw [hunread, hnext, List.map_cons, List.flatten_cons]
        simp only [List.append_assoc]
      · rw [List.map_cons, ← hline, ← hlines]
        rfl

/-! ### One wake-up -/

section Wakeup

variable (traffic : Traffic)

/-- What a wake-up looks through: what is ready, up to the limit. -/
def visible (maxBytes : Nat) (socket : SocketT) (arrived : Nat) : List UInt8 :=
  (buffered traffic socket arrived).take maxBytes

theorem visible_eq (maxBytes : Nat) (socket : SocketT) (arrived : Nat) :
    visible traffic maxBytes socket arrived =
      (unread traffic socket).take (min maxBytes (arrived - socket.consumed)) := by
  rw [visible, buffered_eq, List.take_take]

variable {traffic}

/-- Where a search that found nothing goes on. -/
def nextOffset (text : List UInt8) (offset : Nat) : Nat :=
  offset + min (strlen (text.drop offset) + 1) (text.drop offset).length

/-- A wake-up with something to look through searches it, and gives up at the limit. -/
private theorem readLineLoop_ready {maxBytes rounds offset arrived : Nat} {socket : SocketT}
    (hpoll : traffic.poll socket.polls = .ready arrived) :
    readLineLoop traffic maxBytes (rounds + 1) offset socket =
      if visible traffic maxBytes socket arrived = [] then
        readLineLoop traffic maxBytes rounds offset (polled socket)
      else
        match StringCursorT.findNextChar ⟨StringT.fromBufferWithLength
            (visible traffic maxBytes socket arrived), offset⟩ 10 with
        | (none, cursor) =>
          if maxBytes ≤ (visible traffic maxBytes socket arrived).length then (none, polled socket)
          else readLineLoop traffic maxBytes rounds cursor.offset (polled socket)
        | (some index, _) =>
          match readBytes (buffered traffic socket arrived) (index + 1) with
          | none => (none, polled socket)
          | some buffer =>
            (some (StringT.fromBufferWithLength buffer).trimEnd,
              consume (polled socket) buffer) := by
  rw [readLineLoop, hpoll]
  dsimp only
  set available := buffered traffic socket arrived with havailable
  have hvisible : visible traffic maxBytes socket arrived = available.take maxBytes := rfl
  by_cases hnil : available = []
  · rw [hvisible, hnil, List.take_nil, if_pos rfl, if_pos List.length_nil]
  · have hbytes : available.take (if available.length ≥ maxBytes then maxBytes
        else available.length) = available.take maxBytes := by
      split
      · rfl
      · rw [List.take_length, List.take_of_length_le (by omega)]
    have hlimit : (if available.length ≥ maxBytes then maxBytes else available.length) ≥ maxBytes ↔
        maxBytes ≤ (available.take maxBytes).length := by
      rw [List.length_take]
      split <;> omega
    rw [if_neg (mt List.eq_nil_of_length_eq_zero hnil), hvisible, readBytes, hbytes]
    by_cases htake : available.take maxBytes = []
    · rw [if_pos htake, if_pos htake]
    · rw [if_neg htake, if_neg htake]
      simp only [hlimit]
      rcases StringCursorT.findNextChar ⟨StringT.fromBufferWithLength (available.take maxBytes),
        offset⟩ 10 with ⟨found, cursor⟩
      cases found <;> rfl

private theorem newline_notMem_take {text : List UInt8} (h : 10 ∉ cString text) :
    10 ∉ text.take (strlen text + 1) := by
  induction text with
  | nil => exact List.not_mem_nil
  | cons c text ih =>
    by_cases hc : c = 0
    · rw [hc]
      simp [strlen]
    · rw [cString_cons_of_ne hc, List.mem_cons, not_or] at h
      rw [strlen, cString_cons_of_ne hc, List.length_cons, List.take_succ_cons, List.mem_cons,
        not_or]
      exact ⟨h.1, ih h.2⟩

/-- What a search has passed without an end of a line. -/
private theorem newline_notMem_nextOffset {bytes : List UInt8} {n offset : Nat}
    (h : 10 ∉ bytes.take offset) (hnot : 10 ∉ cString ((bytes.take n).drop offset)) :
    10 ∉ bytes.take (nextOffset (bytes.take n) offset) := by
  rw [List.drop_take] at hnot
  rw [nextOffset, List.drop_take, List.take_add, List.mem_append, not_or]
  refine ⟨h, ?_⟩
  have htake : ∀ k, (bytes.drop offset).take
      (min k ((bytes.drop offset).take (n - offset)).length) =
        ((bytes.drop offset).take (n - offset)).take k := by
    intro k
    rw [List.take_take, List.take_eq_take_iff, List.length_take]
    omega
  rw [htake]
  exact newline_notMem_take hnot

/-- The line whose end a search has found. -/
private theorem firstLine_of_found {bytes a r : List UInt8} {n offset : Nat}
    (h : 10 ∉ bytes.take offset) (ha : 10 ∉ a)
    (hsplit : (bytes.take n).drop offset = a ++ 10 :: r) :
    10 ∈ bytes ∧ firstLine bytes = bytes.take (offset + a.length + 1) ∧
      offset + a.length + 1 ≤ min n bytes.length := by
  have hlen := congrArg List.length hsplit
  rw [List.length_drop, List.length_take, List.length_append, List.length_cons] at hlen
  rw [List.drop_take] at hsplit
  have hrest : bytes.drop offset = a ++ 10 :: (r ++ (bytes.drop offset).drop (n - offset)) := by
    rw [← List.cons_append, ← List.append_assoc, ← hsplit, List.take_append_drop]
  have hbytes : bytes = (bytes.take offset ++ a) ++
      10 :: (r ++ (bytes.drop offset).drop (n - offset)) := by
    rw [List.append_assoc, ← hrest, List.take_append_drop]
  have hbody : 10 ∉ bytes.take offset ++ a := by
    rw [List.mem_append, not_or]
    exact ⟨h, ha⟩
  have hlength : (bytes.take offset ++ a ++ [10]).length = offset + a.length + 1 := by
    rw [List.length_append, List.length_append, List.length_take, List.length_singleton]
    omega
  refine ⟨?_, ?_, by omega⟩
  · rw [hbytes]
    exact List.mem_append_right _ List.mem_cons_self
  · rw [← hlength]
    generalize bytes.take offset ++ a = body at hbytes hbody
    generalize r ++ (bytes.drop offset).drop (n - offset) = rest at hbytes
    rw [hbytes, firstLine_append hbody, List.append_cons body 10 rest, List.take_left]

/-- A wake-up that shows the end of the line behind what the search has passed reads the line. -/
theorem readLineLoop_found {maxBytes rounds offset arrived : Nat} {socket : SocketT}
    (hpoll : traffic.poll socket.polls = .ready arrived)
    (hoffset : 10 ∉ (unread traffic socket).take offset)
    (h : 10 ∈ cString ((visible traffic maxBytes socket arrived).drop offset)) :
    10 ∈ unread traffic socket ∧ (firstLine (unread traffic socket)).length ≤ maxBytes ∧
      readLineLoop traffic maxBytes (rounds + 1) offset socket =
        (some (StringT.fromBufferWithLength (firstLine (unread traffic socket))).trimEnd,
          consume (polled socket) (firstLine (unread traffic socket))) := by
  obtain ⟨a, r, hsplit, ha, hz⟩ := StringCursorT.exists_append_of_mem_cString h
  have hsplit' := hsplit
  rw [visible_eq] at hsplit'
  obtain ⟨hmem, hfirst, hle⟩ := firstLine_of_found hoffset ha hsplit'
  have hne : visible traffic maxBytes socket arrived ≠ [] := by
    intro hnil
    rw [hnil, List.drop_nil] at hsplit
    exact absurd hsplit.symm (List.append_ne_nil_of_right_ne_nil _ (List.cons_ne_nil _ _))
  have hready : buffered traffic socket arrived ≠ [] := by
    intro hnil
    rw [visible, hnil, List.take_nil] at hne
    exact hne rfl
  have hread : readBytes (buffered traffic socket arrived) (offset + a.length + 1) =
      some (firstLine (unread traffic socket)) := by
    rw [readBytes_eq_some hready (Nat.succ_ne_zero _), buffered_eq, List.take_take, hfirst,
      Nat.min_eq_left (by omega)]
  refine ⟨hmem, ?_, ?_⟩
  · rw [hfirst, List.length_take]
    omega
  · rw [readLineLoop_ready hpoll, if_neg hne, StringCursorT.findNextChar_of_append (by decide) ha hz
      (by rw [StringCursorT.rest_fresh, hsplit])]
    dsimp only
    rw [hread]

/-- Any other wake-up passes on, or gives up when it has looked through as much as allowed. -/
theorem readLineLoop_not_found {maxBytes rounds offset arrived : Nat} {socket : SocketT}
    (hpoll : traffic.poll socket.polls = .ready arrived)
    (hoffset : 10 ∉ (unread traffic socket).take offset)
    (h : 10 ∉ cString ((visible traffic maxBytes socket arrived).drop offset)) :
    10 ∉ (unread traffic socket).take
        (nextOffset (visible traffic maxBytes socket arrived) offset) ∧
      readLineLoop traffic maxBytes (rounds + 1) offset socket =
        if visible traffic maxBytes socket arrived ≠ [] ∧
            maxBytes ≤ (visible traffic maxBytes socket arrived).length then (none, polled socket)
        else readLineLoop traffic maxBytes rounds
          (nextOffset (visible traffic maxBytes socket arrived) offset) (polled socket) := by
  constructor
  · rw [visible_eq] at h ⊢
    exact newline_notMem_nextOffset hoffset h
  · rw [readLineLoop_ready hpoll]
    by_cases hnil : visible traffic maxBytes socket arrived = []
    · rw [if_pos hnil, if_neg (fun hand ↦ hand.1 hnil), hnil, nextOffset, List.drop_nil]
      rfl
    · rw [if_neg hnil, StringCursorT.findNextChar_of_notMem (by rwa [StringCursorT.rest_fresh])]
      dsimp only
      rw [StringCursorT.rest_fresh]
      simp only [hnil, ne_eq, not_false_eq_true, true_and]
      rfl

/-- The loop gives up and leaves the stream, or takes the first line off it. -/
theorem readLineLoop_cases {maxBytes rounds offset : Nat} {socket : SocketT}
    (hoffset : 10 ∉ (unread traffic socket).take offset) :
    ((readLineLoop traffic maxBytes rounds offset socket).1 = none ∧
      (readLineLoop traffic maxBytes rounds offset socket).2.consumed = socket.consumed) ∨
    (10 ∈ unread traffic socket ∧ (firstLine (unread traffic socket)).length ≤ maxBytes ∧
      (readLineLoop traffic maxBytes rounds offset socket).1 =
        some (StringT.fromBufferWithLength (firstLine (unread traffic socket))).trimEnd ∧
      (readLineLoop traffic maxBytes rounds offset socket).2.consumed =
        socket.consumed + (firstLine (unread traffic socket)).length) := by
  induction rounds generalizing offset socket with
  | zero => exact .inl ⟨rfl, rfl⟩
  | succ rounds ih =>
    cases hpoll : traffic.poll socket.polls with
    | timeout =>
      rw [readLineLoop, hpoll]
      exact @ih offset (polled socket) hoffset
    | failure =>
      rw [readLineLoop, hpoll]
      exact .inl ⟨rfl, rfl⟩
    | ready arrived =>
      by_cases hfound : 10 ∈ cString ((visible traffic maxBytes socket arrived).drop offset)
      · obtain ⟨hmem, hle, hread⟩ := @readLineLoop_found _ _ rounds _ _ _ hpoll hoffset hfound
        rw [hread]
        exact .inr ⟨hmem, hle, rfl, rfl⟩
      · obtain ⟨hnext, hread⟩ := @readLineLoop_not_found _ _ rounds _ _ _ hpoll hoffset hfound
        rw [hread]
        split
        · exact .inl ⟨rfl, rfl⟩
        · exact @ih _ (polled socket) hnext

/-- The abstract reader accepts a call. -/
theorem acceptLine_readLine (maxBytes : Nat) (socket : SocketT) :
    acceptLine (unread traffic socket) (maxBytes, (readLine traffic socket maxBytes).1) =
      some (unread traffic (readLine traffic socket maxBytes).2) := by
  have hnil : 10 ∉ (unread traffic socket).take 0 := List.not_mem_nil
  unfold readLine
  rcases readLineLoop_cases hnil with ⟨hread, hconsumed⟩ | ⟨hmem, hle, hread, hconsumed⟩
  · rw [hread, unread, unread, hconsumed]
    rfl
  · have hline :
        (StringT.fromBufferWithLength (firstLine (unread traffic socket))).trimEnd.content =
          (firstLine (unread traffic socket)).rdropWhile StringT.isTrimmed := by
      rw [StringT.content_trimEnd, StringT.content_fromBufferWithLength]
    rw [hread, acceptLine, if_pos ⟨hmem, hle, hline⟩, unread, unread, hconsumed, List.drop_drop]
    rfl

end Wakeup

/-! ### Sequences of calls -/

/-- One call with this limit, as a step of the socket. -/
def readLineStep (traffic : Traffic) (socket : SocketT) (maxBytes : Nat) :
    Checked (Option StringT × SocketT) :=
  .ok (readLine traffic socket maxBytes)

/-- Whatever arrives when: the abstract reader accepts every sequence of calls and their results,
and leaves what the calls leave. So the returned lines are the first ones of the stream. -/
theorem runs_readLines (traffic : Traffic) (socket : SocketT) (limits : List Nat) :
    ∃ calls socket', exec (observe (readLineStep traffic)) ([], socket) limits =
        .ok (calls, socket') ∧
      calls.foldlM acceptLine (unread traffic socket) = some (unread traffic socket') ∧
      ∃ bodies : List (List UInt8), (∀ body ∈ bodies, 10 ∉ body) ∧
        unread traffic socket = (bodies.map (· ++ [10])).flatten ++ unread traffic socket' ∧
        (calls.filterMap Prod.snd).map StringT.content =
          bodies.map (fun body ↦ (body ++ [10]).rdropWhile StringT.isTrimmed) := by
  have hguard : Guarded (observe (readLineStep traffic)) (fun _ _ ↦ True) ([], socket) limits :=
    fun _ _ _ _ _ ↦ trivial
  have hstep : ∀ socket bytes maxBytes, unread traffic socket = bytes → True →
      ∃ line socket' after, readLineStep traffic socket maxBytes = .ok (line, socket') ∧
        acceptLine bytes (maxBytes, line) = some after ∧ unread traffic socket' = after := by
    rintro socket _ maxBytes rfl -
    exact ⟨(readLine traffic socket maxBytes).1, (readLine traffic socket maxBytes).2, _, rfl,
      acceptLine_readLine maxBytes socket, rfl⟩
  obtain ⟨⟨calls, socket'⟩, hexec, after, haccept, rfl⟩ :=
    simulation (R := fun socket bytes ↦ unread traffic socket = bytes) rfl hstep hguard
  exact ⟨calls, socket', hexec, haccept, lines_of_accepted haccept⟩

end Wsic.Connection
