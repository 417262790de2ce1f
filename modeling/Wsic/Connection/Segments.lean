import Mathlib.Data.List.Forall2
import Wsic.Connection.Lines

/-!
# Segments of a stream

Does what `connection_readLine` and `connection_read` of `src/connection/connection.c` return
depend on how the stream is cut into segments? Both count every wake-up as a timeout and give up
at the seventh, so a line or body has to be there within six wake-ups. A search for the end of a
line passes at most one NUL at each of them.
-/

open CMemory

namespace Wsic.Connection

/-- A client whose bytes are there at every wake-up: by the `i`-th one, `arrived i` of them. -/
def timely (stream : List UInt8) (arrived : Nat → Nat) : Traffic :=
  ⟨stream, fun i ↦ .ready (arrived i)⟩

/-- Every wake-up finds bytes that the one before did not find, until the whole stream is there. -/
def NewData (stream : List UInt8) (arrived : Nat → Nat) : Prop :=
  (stream ≠ [] → 0 < arrived 0) ∧ ∀ i, arrived i ≤ stream.length ∧ arrived i ≤ arrived (i + 1) ∧
    (arrived i < stream.length → arrived i < arrived (i + 1))

/-! ### Being in time -/

/-- The places behind the NULs up to the first newline and behind the newline, in a text that
starts at this place. -/
def stopsFrom : Nat → List UInt8 → List Nat
  | _, [] => []
  | i, c :: text =>
    if c = 10 then [i + 1]
    else if c = 0 then (i + 1) :: stopsFrom (i + 1) text
    else stopsFrom (i + 1) text

/-- The numbers of bytes that the next wake-ups look through: those of this many wake-ups, up to
the first that shows the limit. -/
def looksThrough (shown : Nat → Nat) (maxBytes : Nat) : Nat → Nat → List Nat
  | 0, _ => []
  | rounds + 1, i =>
    if maxBytes ≤ shown i then [maxBytes] else shown i :: looksThrough shown maxBytes rounds (i + 1)

/-- The number of bytes that are ready at a wake-up. -/
def shown (stream : List UInt8) (arrived : Nat → Nat) (consumed i : Nat) : Nat :=
  min (arrived i) stream.length - consumed

/-- There is a first line, and the places where its search stops can be told to different
wake-ups, in order, that look through so many bytes. -/
def LineInTime (stream : List UInt8) (arrived : Nat → Nat) (socket : SocketT) (maxBytes : Nat) :
    Prop :=
  10 ∈ stream.drop socket.consumed ∧
    List.SublistForall₂ (· ≤ ·) (stopsFrom 0 (stream.drop socket.consumed))
      (looksThrough (shown stream arrived socket.consumed) maxBytes 6 socket.polls)

/-- One of the six wake-ups shows so many bytes. -/
def BytesInTime (stream : List UInt8) (arrived : Nat → Nat) (socket : SocketT)
    (bytesToRead : Nat) : Prop :=
  ∃ i < 6, bytesToRead ≤ shown stream arrived socket.consumed (socket.polls + i)

/-! ### Stops -/

theorem stopsFrom_append {a : List UInt8} (h : 10 ∉ a) (hz : 0 ∉ a) (i : Nat) (text : List UInt8) :
    stopsFrom i (a ++ text) = stopsFrom (i + a.length) text := by
  induction a generalizing i with
  | nil => rfl
  | cons c a ih =>
    rw [List.mem_cons, not_or] at h hz
    rw [List.cons_append, stopsFrom, if_neg (Ne.symm h.1), if_neg (Ne.symm hz.1), ih h.2 hz.2,
      List.length_cons, Nat.add_right_comm, Nat.add_assoc]

theorem stopsFrom_ne_nil {text : List UInt8} (h : 10 ∈ text) (i : Nat) : stopsFrom i text ≠ [] := by
  induction text generalizing i with
  | nil => exact absurd h List.not_mem_nil
  | cons c text ih =>
    rw [stopsFrom]
    by_cases hc : c = 10
    · rw [if_pos hc]
      exact List.cons_ne_nil _ _
    · rw [if_neg hc]
      split
      · exact List.cons_ne_nil _ _
      · exact ih ((List.mem_cons.mp h).resolve_left (Ne.symm hc)) (i + 1)

theorem lt_of_mem_stopsFrom {i p : Nat} {text : List UInt8} (h : p ∈ stopsFrom i text) : i < p := by
  induction text generalizing i with
  | nil => exact absurd h List.not_mem_nil
  | cons c text ih =>
    rw [stopsFrom] at h
    split at h
    · rw [List.mem_singleton.mp h]
      exact Nat.lt_succ_self i
    · split at h
      · rcases List.mem_cons.mp h with rfl | h
        · exact Nat.lt_succ_self i
        · exact (Nat.lt_succ_self i).trans (ih h)
      · exact (Nat.lt_succ_self i).trans (ih h)

/-- A search that finds no newline stops behind a NUL, or there is no stop in what it looks
through. -/
theorem stopsFrom_nextOffset {bytes : List UInt8} {n offset : Nat}
    (h : 10 ∉ cString ((bytes.take n).drop offset)) :
    (stopsFrom offset (bytes.drop offset) = nextOffset (bytes.take n) offset ::
        stopsFrom (nextOffset (bytes.take n) offset)
          (bytes.drop (nextOffset (bytes.take n) offset)) ∧
      nextOffset (bytes.take n) offset ≤ (bytes.take n).length) ∨
    (stopsFrom offset (bytes.drop offset) = stopsFrom (nextOffset (bytes.take n) offset)
        (bytes.drop (nextOffset (bytes.take n) offset)) ∧
      (bytes.take n).length ≤ nextOffset (bytes.take n) offset) := by
  set text := (bytes.take n).drop offset with htext
  have hprefix : text <+: bytes.drop offset := by
    rw [htext, List.drop_take]
    exact List.take_prefix _ _
  obtain ⟨rest, hrest⟩ := hprefix
  have hlen : text.length = (bytes.take n).length - offset := List.length_drop
  by_cases hz : 0 ∈ text
  · obtain ⟨a, r, hsplit, ha⟩ := List.eq_append_cons_of_mem hz
    have hstr : cString text = a := by
      rw [hsplit, cString_append_zero, cString_eq_self ha]
    have hnext : nextOffset (bytes.take n) offset = offset + a.length + 1 := by
      have hlt : a.length + 1 ≤ text.length := by
        rw [hsplit, List.length_append, List.length_cons]
        omega
      rw [nextOffset, ← htext, strlen, hstr, Nat.min_eq_left hlt, Nat.add_assoc]
    left
    rw [hstr] at h
    have hdrop : bytes.drop (offset + a.length + 1) = r ++ rest := by
      rw [Nat.add_assoc, ← List.drop_drop, ← hrest, hsplit, List.append_assoc, List.cons_append,
        ← List.drop_drop, List.drop_left]
      rfl
    rw [hnext, hdrop, ← hrest, hsplit, List.append_assoc, List.cons_append, stopsFrom_append h ha,
      stopsFrom, if_neg (by decide), if_pos rfl]
    rw [hsplit, List.length_append, List.length_cons] at hlen
    exact ⟨rfl, by omega⟩
  · have hstr : cString text = text := cString_eq_self hz
    have hnext : nextOffset (bytes.take n) offset = offset + text.length := by
      rw [nextOffset, ← htext, strlen, hstr, Nat.min_eq_right (Nat.le_succ _)]
    right
    rw [hstr] at h
    rw [hnext, ← List.drop_drop, ← hrest, stopsFrom_append h hz, List.drop_left]
    exact ⟨rfl, by omega⟩

/-! ### Telling stops to wake-ups -/

private theorem sublistForall₂_of_cons {p : Nat} {ps vs : List Nat}
    (h : List.SublistForall₂ (· ≤ ·) (p :: ps) vs) : List.SublistForall₂ (· ≤ ·) ps vs := by
  induction vs with
  | nil => cases h
  | cons v vs ih =>
    cases h with
    | cons _ h => exact .cons_right h
    | cons_right h => exact .cons_right (ih h)

/-- A wake-up that looks through the first stop takes it. -/
private theorem sublistForall₂_cons_of_le {p v : Nat} (h : p ≤ v) (ps vs : List Nat) :
    List.SublistForall₂ (· ≤ ·) (p :: ps) (v :: vs) ↔ List.SublistForall₂ (· ≤ ·) ps vs := by
  constructor
  · intro hs
    cases hs with
    | cons _ hs => exact hs
    | cons_right hs => exact sublistForall₂_of_cons hs
  · exact fun hs ↦ .cons h hs

/-- A wake-up that does not reach the first stop takes none. -/
private theorem sublistForall₂_cons_of_lt {v : Nat} {ps : List Nat} (hne : ps ≠ [])
    (h : ∀ p ∈ ps, v < p) (vs : List Nat) :
    List.SublistForall₂ (· ≤ ·) ps (v :: vs) ↔ List.SublistForall₂ (· ≤ ·) ps vs := by
  constructor
  · intro hs
    cases hs with
    | nil => exact absurd rfl hne
    | cons hle _ => exact absurd hle (Nat.not_le.mpr (h _ List.mem_cons_self))
    | cons_right hs => exact hs
  · exact .cons_right

/-- A line that has not ended has a stop, which needs a wake-up. -/
private theorem not_sublistForall₂_nil {bytes : List UInt8} {offset : Nat} (hmem : 10 ∈ bytes)
    (hoffset : 10 ∉ bytes.take offset) :
    ¬ List.SublistForall₂ (· ≤ ·) (stopsFrom offset (bytes.drop offset)) ([] : List Nat) := by
  rw [← List.take_append_drop offset bytes, List.mem_append] at hmem
  obtain ⟨p, ps, hstops⟩ :=
    List.exists_cons_of_ne_nil (stopsFrom_ne_nil (hmem.resolve_left hoffset) offset)
  rw [hstops]
  rintro ⟨⟩

/-- After a search without a newline, the remaining stops are left to the remaining wake-ups. -/
private theorem sublistForall₂_nextOffset {bytes : List UInt8} {n offset : Nat} (hmem : 10 ∈ bytes)
    (hoffset : 10 ∉ bytes.take (nextOffset (bytes.take n) offset))
    (h : 10 ∉ cString ((bytes.take n).drop offset)) (vs : List Nat) :
    List.SublistForall₂ (· ≤ ·) (stopsFrom offset (bytes.drop offset))
        ((bytes.take n).length :: vs) ↔
      List.SublistForall₂ (· ≤ ·) (stopsFrom (nextOffset (bytes.take n) offset)
        (bytes.drop (nextOffset (bytes.take n) offset))) vs := by
  rcases stopsFrom_nextOffset h with ⟨hstops, hle⟩ | ⟨hstops, hle⟩
  · rw [hstops, sublistForall₂_cons_of_le hle]
  · rw [hstops]
    apply sublistForall₂_cons_of_lt
    · apply stopsFrom_ne_nil
      rw [← List.take_append_drop (nextOffset (bytes.take n) offset) bytes, List.mem_append] at hmem
      exact hmem.resolve_left hoffset
    · exact fun p hp ↦ hle.trans_lt (lt_of_mem_stopsFrom hp)

/-! ### Lines -/

section Lines

variable {stream : List UInt8} {arrived : Nat → Nat}

theorem length_buffered (socket : SocketT) :
    (buffered (timely stream arrived) socket (arrived socket.polls)).length =
      shown stream arrived socket.consumed socket.polls := by
  rw [buffered, List.length_drop, List.length_take]
  rfl

theorem length_visible (maxBytes : Nat) (socket : SocketT) :
    (visible (timely stream arrived) maxBytes socket (arrived socket.polls)).length =
      min maxBytes (shown stream arrived socket.consumed socket.polls) := by
  rw [visible, List.length_take, length_buffered]

/-- The next wake-up looks through what is shown up to the limit, and is the last one there. -/
private theorem looksThrough_succ (shown : Nat → Nat) (maxBytes rounds i : Nat) :
    looksThrough shown maxBytes (rounds + 1) i = min maxBytes (shown i) ::
      if maxBytes ≤ shown i then [] else looksThrough shown maxBytes rounds (i + 1) := by
  rw [looksThrough]
  split
  · next h => rw [Nat.min_eq_left h]
  · next h => rw [Nat.min_eq_right (by omega)]

/-- A newline that a search finds is its only stop. -/
private theorem stopsFrom_found {bytes : List UInt8} {n offset : Nat}
    (h : 10 ∈ cString ((bytes.take n).drop offset)) :
    ∃ p, stopsFrom offset (bytes.drop offset) = [p] ∧ p ≤ (bytes.take n).length := by
  obtain ⟨a, r, hsplit, ha, hz⟩ := StringCursorT.exists_append_of_mem_cString h
  have hlen := congrArg List.length hsplit
  rw [List.length_drop, List.length_append, List.length_cons] at hlen
  have hprefix : a ++ 10 :: r <+: bytes.drop offset := by
    rw [← hsplit, List.drop_take]
    exact List.take_prefix _ _
  obtain ⟨rest, hrest⟩ := hprefix
  refine ⟨offset + a.length + 1, ?_, by omega⟩
  rw [← hrest, List.append_assoc, List.cons_append, stopsFrom_append ha hz, stopsFrom, if_pos rfl]

/-- The loop reads a line when the stops that are left can be told to the wake-ups that are left,
and no line otherwise. -/
private theorem readLineLoop_timely {maxBytes rounds offset : Nat} {socket : SocketT}
    (hpos : 0 < maxBytes) (hmem : 10 ∈ stream.drop socket.consumed)
    (hoffset : 10 ∉ (stream.drop socket.consumed).take offset) :
    (readLineLoop (timely stream arrived) maxBytes rounds offset socket).1 ≠ none ↔
      List.SublistForall₂ (· ≤ ·) (stopsFrom offset ((stream.drop socket.consumed).drop offset))
        (looksThrough (shown stream arrived socket.consumed) maxBytes rounds socket.polls) := by
  induction rounds generalizing offset socket with
  | zero =>
    refine iff_of_false (fun h ↦ h rfl) ?_
    exact not_sublistForall₂_nil hmem hoffset
  | succ rounds ih =>
    have hpoll : (timely stream arrived).poll socket.polls = .ready (arrived socket.polls) := rfl
    have hlength := @length_visible stream arrived maxBytes socket
    have hvisible := visible_eq (timely stream arrived) maxBytes socket (arrived socket.polls)
    change _ = (stream.drop socket.consumed).take _ at hvisible
    by_cases hfound : 10 ∈ cString
        ((visible (timely stream arrived) maxBytes socket (arrived socket.polls)).drop offset)
    · obtain ⟨-, -, hread⟩ := @readLineLoop_found (timely stream arrived) maxBytes rounds offset _
        socket hpoll hoffset hfound
      rw [hvisible] at hfound hlength
      obtain ⟨p, hstops, hle⟩ := stopsFrom_found hfound
      rw [hread, looksThrough_succ, hstops, ← hlength]
      exact iff_of_true (Option.some_ne_none _) (.cons hle .nil)
    · obtain ⟨hnext, hread⟩ := @readLineLoop_not_found (timely stream arrived) maxBytes rounds
        offset _ socket hpoll hoffset hfound
      rw [hread, looksThrough_succ, ← hlength]
      rw [hvisible] at hfound hnext ⊢
      rw [sublistForall₂_nextOffset hmem hnext hfound]
      rw [hvisible] at hlength
      by_cases hlimit : maxBytes ≤ shown stream arrived socket.consumed socket.polls
      · -- The limit is reached: the code gives up, and no wake-up is left.
        rw [Nat.min_eq_left hlimit] at hlength
        have hne := List.ne_nil_of_length_pos (hlength.symm ▸ hpos)
        rw [if_pos ⟨hne, hlength.ge⟩, if_pos hlimit]
        exact iff_of_false (fun h ↦ h rfl) (not_sublistForall₂_nil hmem hnext)
      · rw [if_neg (by omega), if_neg hlimit]
        exact @ih _ (polled socket) hmem hnext

/-- A call returns the first line when it is in time, and none otherwise. -/
theorem readLine_timely (maxBytes : Nat) (socket : SocketT) :
    (LineInTime stream arrived socket maxBytes ∧
      (readLine (timely stream arrived) socket maxBytes).1 = some
        (StringT.fromBufferWithLength (firstLine (stream.drop socket.consumed))).trimEnd) ∨
    (¬ LineInTime stream arrived socket maxBytes ∧
      (readLine (timely stream arrived) socket maxBytes).1 = none) := by
  have hnil : 10 ∉ (stream.drop socket.consumed).take 0 := List.not_mem_nil
  unfold readLine
  rcases @readLineLoop_cases (timely stream arrived) maxBytes 6 0 socket hnil with
    ⟨hread, -⟩ | ⟨hmem, hle, hread, -⟩
  · refine .inr ⟨?_, hread⟩
    rintro ⟨hmem, hstops⟩
    by_cases hpos : 0 < maxBytes
    · exact (readLineLoop_timely hpos hmem hnil).mpr hstops hread
    · rw [Nat.eq_zero_of_not_pos hpos, looksThrough, if_pos (Nat.zero_le _)] at hstops
      obtain ⟨p, ps, hcons⟩ := List.exists_cons_of_ne_nil (stopsFrom_ne_nil hmem 0)
      have hp : 0 < p := lt_of_mem_stopsFrom (by rw [hcons]; exact List.mem_cons_self)
      rw [hcons] at hstops
      cases hstops with
      | cons hle _ => exact absurd hle (Nat.not_le.mpr hp)
      | cons_right hstops => cases hstops
  · have hpos : 0 < maxBytes := by
      rw [firstLine, List.length_append, List.length_singleton] at hle
      omega
    have hne : (readLineLoop (timely stream arrived) maxBytes 6 0 socket).1 ≠ none := by
      rw [hread]
      exact Option.some_ne_none _
    exact .inl ⟨⟨hmem, (readLineLoop_timely hpos hmem hnil).mp hne⟩, hread⟩

end Lines

/-! ### Bodies -/

section Bodies

variable {stream : List UInt8} {arrived : Nat → Nat}

/-- The loop returns so many bytes when one of the wake-ups that are left shows them. -/
private theorem readLoop_timely {bytesToRead : Nat} (hpos : 0 < bytesToRead) (rounds : Nat)
    (socket : SocketT) :
    ((∃ i < rounds, bytesToRead ≤ shown stream arrived socket.consumed (socket.polls + i)) ∧
      (readLoop (timely stream arrived) bytesToRead rounds socket).1 = some
        (StringT.fromBufferWithLength ((stream.drop socket.consumed).take bytesToRead))) ∨
    ((¬ ∃ i < rounds, bytesToRead ≤ shown stream arrived socket.consumed (socket.polls + i)) ∧
      (readLoop (timely stream arrived) bytesToRead rounds socket).1 = none) := by
  induction rounds generalizing socket with
  | zero => exact .inr ⟨by rintro ⟨i, hi, -⟩; exact absurd hi (Nat.not_lt_zero i), rfl⟩
  | succ rounds ih =>
    have hlength := @length_buffered stream arrived socket
    have hpoll : (timely stream arrived).poll socket.polls = .ready (arrived socket.polls) := rfl
    have hsplit : (∃ i < rounds + 1,
          bytesToRead ≤ shown stream arrived socket.consumed (socket.polls + i)) ↔
        bytesToRead ≤ shown stream arrived socket.consumed socket.polls ∨
        ∃ i < rounds, bytesToRead ≤ shown stream arrived (polled socket).consumed
          ((polled socket).polls + i) := by
      rw [Nat.exists_lt_succ_left, Nat.add_zero]
      simp only [polled, Nat.add_assoc, Nat.add_comm 1]
    rw [hsplit]
    by_cases hshown : bytesToRead ≤ shown stream arrived socket.consumed socket.polls
    · rw [readLoop_shown hpos hpoll (by rwa [hlength])]
      exact .inl ⟨.inl hshown, rfl⟩
    · rw [readLoop_short hpoll (by rw [hlength]; exact Nat.not_le.mp hshown),
        or_iff_right hshown]
      exact ih (polled socket)

/-- A call returns the next bytes when they are in time, and none otherwise. -/
theorem read_timely {bytesToRead : Nat} (hpos : 0 < bytesToRead) (socket : SocketT) :
    (BytesInTime stream arrived socket bytesToRead ∧
      (read (timely stream arrived) socket bytesToRead).1 = some
        (StringT.fromBufferWithLength ((stream.drop socket.consumed).take bytesToRead))) ∨
    (¬ BytesInTime stream arrived socket bytesToRead ∧
      (read (timely stream arrived) socket bytesToRead).1 = none) :=
  readLoop_timely hpos 6 socket

/-- Nothing is read when no bytes are asked for. -/
theorem read_zero (socket : SocketT) : (read (timely stream arrived) socket 0).1 = none := by
  have hloop : ∀ rounds socket, (readLoop (timely stream arrived) 0 rounds socket).1 = none := by
    intro rounds
    induction rounds with
    | zero => exact fun _ ↦ rfl
    | succ rounds ih =>
      intro socket
      have hpoll : (timely stream arrived).poll socket.polls = .ready (arrived socket.polls) := rfl
      rw [readLoop, hpoll]
      dsimp only
      split
      · exact ih (polled socket)
      · rfl
  exact hloop 6 socket

end Bodies

/-! ### Two ways to cut a stream -/

/-- From the same place of a stream, two arrivals of it give the same line and the same bytes
exactly when the line is in time for both or for none, and so are the bytes. -/
theorem sameResults_iff (stream : List UInt8) (consumed polls polls' : Nat)
    (arrived arrived' : Nat → Nat) (maxBytes bytesToRead : Nat) :
    ((readLine (timely stream arrived) ⟨consumed, polls⟩ maxBytes).1 =
        (readLine (timely stream arrived') ⟨consumed, polls'⟩ maxBytes).1 ∧
      (read (timely stream arrived) ⟨consumed, polls⟩ bytesToRead).1 =
        (read (timely stream arrived') ⟨consumed, polls'⟩ bytesToRead).1) ↔
    ((LineInTime stream arrived ⟨consumed, polls⟩ maxBytes ↔
        LineInTime stream arrived' ⟨consumed, polls'⟩ maxBytes) ∧
      (0 < bytesToRead → (BytesInTime stream arrived ⟨consumed, polls⟩ bytesToRead ↔
        BytesInTime stream arrived' ⟨consumed, polls'⟩ bytesToRead))) := by
  apply and_congr
  · rcases @readLine_timely stream arrived maxBytes ⟨consumed, polls⟩ with ⟨h, hr⟩ | ⟨h, hr⟩ <;>
      rcases @readLine_timely stream arrived' maxBytes ⟨consumed, polls'⟩ with
        ⟨h', hr'⟩ | ⟨h', hr'⟩ <;>
      rw [hr, hr'] <;> simp [h, h']
  · by_cases hpos : 0 < bytesToRead
    · rcases @read_timely stream arrived _ hpos ⟨consumed, polls⟩ with ⟨h, hr⟩ | ⟨h, hr⟩ <;>
        rcases @read_timely stream arrived' _ hpos ⟨consumed, polls'⟩ with ⟨h', hr'⟩ | ⟨h', hr'⟩ <;>
        rw [hr, hr'] <;> simp [h, h', hpos]
    · rw [Nat.eq_zero_of_not_pos hpos, read_zero, read_zero]
      simp

/-- Seven bytes in one segment, and in seven: the line is read, and given up. -/
theorem seven_segments_not_same :
    NewData (ascii "abcdef\n") (fun _ ↦ 7) ∧ NewData (ascii "abcdef\n") (fun i ↦ min (i + 1) 7) ∧
    (readLine (timely (ascii "abcdef\n") (fun _ ↦ 7)) ⟨0, 0⟩ 100).1 ≠
      (readLine (timely (ascii "abcdef\n") (fun i ↦ min (i + 1) 7)) ⟨0, 0⟩ 100).1 := by
  have hlength : (ascii "abcdef\n").length = 7 := by decide
  refine ⟨⟨fun _ ↦ by decide, fun i ↦ ?_⟩, ⟨fun _ ↦ by decide, fun i ↦ ?_⟩, by decide⟩
  · rw [hlength]
    dsimp only
    omega
  · rw [hlength]
    dsimp only
    omega

end Wsic.Connection
