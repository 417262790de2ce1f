import Wsic.Connection.Lines

/-!
# Lines that can be read

Which lines `connection_readLine` of `src/connection/connection.c` can return at all: its search
stops at a NUL and goes on behind it at the next wake-up, so that a line with more than five NULs
is never found. Every other line is, when its bytes arrive up to one NUL after the other.
-/

open CMemory

namespace Wsic.Connection

/-- The string that is returned for a line. -/
def lineOf (body : List UInt8) : StringT := (StringT.fromBufferWithLength (body ++ [10])).trimEnd

theorem content_lineOf (body : List UInt8) :
    (lineOf body).content = (body ++ [10]).rdropWhile StringT.isTrimmed := by
  rw [lineOf, StringT.content_trimEnd, StringT.content_fromBufferWithLength]

variable {traffic : Traffic} {maxBytes rounds : ℕ} {socket : SocketT}

/-! ### No line with many NULs is returned -/

private theorem count_take_strlen (text : List UInt8) :
    (text.take (strlen text + 1)).count 0 ≤ 1 := by
  rw [List.take_add_one, take_strlen, List.count_append,
    List.count_eq_zero_of_not_mem (zero_notMem_cString text), Nat.zero_add]
  exact List.count_le_length.trans Option.length_toList_le

/-- A search passes at most one NUL. -/
private theorem count_passed {bytes : List UInt8} {n offset : ℕ}
    (h : 10 ∉ bytes.take (nextOffset (bytes.take n) offset)) :
    ((bytes.drop offset).takeWhile (· ≠ 10)).count 0 ≤
      ((bytes.drop (nextOffset (bytes.take n) offset)).takeWhile (· ≠ 10)).count 0 + 1 := by
  set text := (bytes.take n).drop offset with htext
  set d := min (strlen text + 1) text.length with hd
  have hnext : nextOffset (bytes.take n) offset = offset + d := rfl
  rw [hnext] at h ⊢
  have hfront : (bytes.drop offset).take d = text.take (strlen text + 1) := by
    rw [htext, List.drop_take] at hd ⊢
    rw [List.take_take]
    apply List.take_eq_take_iff.mpr
    rw [hd, List.length_take]
    omega
  have hplain : ∀ c ∈ (bytes.drop offset).take d, decide (c ≠ 10) = true := by
    intro c hc
    rw [decide_eq_true_iff]
    rintro rfl
    apply h
    rw [List.take_add]
    exact List.mem_append_right _ hc
  rw [← List.take_append_drop d (bytes.drop offset), List.takeWhile_append_of_pos hplain,
    List.count_append, List.drop_drop, hfront]
  have := count_take_strlen text
  omega

/-- Every wake-up passes at most one NUL, and the last one none. -/
theorem count_of_readLineLoop {offset : ℕ} (hoffset : 10 ∉ (unread traffic socket).take offset)
    (h : (readLineLoop traffic maxBytes rounds offset socket).1 ≠ none) :
    (((unread traffic socket).drop offset).takeWhile (· ≠ 10)).count 0 < rounds := by
  induction rounds generalizing offset socket with
  | zero => exact absurd rfl h
  | succ rounds ih =>
    cases hpoll : traffic.poll socket.polls with
    | timeout =>
      rw [readLineLoop, hpoll] at h
      exact Nat.lt_succ_of_lt (@ih (polled socket) offset hoffset h)
    | failure =>
      rw [readLineLoop, hpoll] at h
      exact absurd rfl h
    | ready arrived =>
      by_cases hfound : 10 ∈ cString ((visible traffic maxBytes socket arrived).drop offset)
      · obtain ⟨a, r, hsplit, ha, hz⟩ := StringCursorT.exists_append_of_mem_cString hfound
        rw [visible_eq, List.drop_take] at hsplit
        have hfront : a ++ 10 :: r <+: (unread traffic socket).drop offset :=
          hsplit ▸ List.take_prefix _ _
        obtain ⟨behind, hbytes⟩ := hfront
        have hplain : ∀ c ∈ a, decide (c ≠ 10) = true := by
          intro c hc
          exact decide_eq_true (fun he ↦ ha (he ▸ hc))
        rw [← hbytes, List.append_assoc, List.takeWhile_append_of_pos hplain, List.cons_append,
          List.takeWhile_cons_of_neg (by simp), List.append_nil, List.count_eq_zero_of_not_mem hz]
        exact Nat.succ_pos _
      · obtain ⟨hnext, hread⟩ := @readLineLoop_not_found _ _ rounds _ _ _ hpoll hoffset hfound
        rw [hread] at h
        split at h
        · exact absurd rfl h
        · have hrest := @ih (polled socket) _ hnext h
          rw [unread_polled] at hrest
          rw [visible_eq] at hnext hrest
          have := count_passed hnext
          omega

/-- A line that a call returns is the first one of the stream, is as long as the call allows, and
has at most five NULs. -/
theorem readLine_cases (traffic : Traffic) (maxBytes : ℕ) (socket : SocketT) :
    ((readLine traffic socket maxBytes).1 = none ∧
      (readLine traffic socket maxBytes).2.consumed = socket.consumed) ∨
    ∃ body rest, unread traffic socket = body ++ 10 :: rest ∧ 10 ∉ body ∧ body.count 0 ≤ 5 ∧
      body.length + 1 ≤ maxBytes ∧ (readLine traffic socket maxBytes).1 = some (lineOf body) ∧
      (readLine traffic socket maxBytes).2.consumed = socket.consumed + (body.length + 1) := by
  have hnil : 10 ∉ (unread traffic socket).take 0 := List.not_mem_nil
  unfold readLine
  rcases @readLineLoop_cases traffic maxBytes 6 0 socket hnil with h | ⟨hmem, hle, hread, hconsumed⟩
  · exact .inl h
  · right
    obtain ⟨body, rest, hunread, hbody, hfirst⟩ := firstLine_of_mem hmem
    have hcount := @count_of_readLineLoop traffic maxBytes 6 socket 0 hnil
      (by rw [hread]; exact Option.some_ne_none _)
    have htext : ((unread traffic socket).drop 0).takeWhile (· ≠ 10) = body :=
      List.append_cancel_right hfirst
    rw [htext] at hcount
    rw [hfirst, List.length_append, List.length_singleton] at hle hconsumed
    rw [hfirst] at hread
    exact ⟨body, rest, hunread, hbody, Nat.le_of_lt_succ hcount, hle, hread, hconsumed⟩

/-! ### Every other line is returned once -/

/-- The number of bytes of the stream up to each NUL of a line, and up to its end, when the line
begins behind `k` bytes. -/
def stops : ℕ → List UInt8 → List ℕ
  | k, [] => [k + 1]
  | k, c :: body => if c = 0 then (k + 1) :: stops (k + 1) body else stops (k + 1) body

theorem length_stops (k : ℕ) (body : List UInt8) : (stops k body).length = body.count 0 + 1 := by
  induction body generalizing k with
  | nil => rfl
  | cons c body ih =>
    rw [stops]
    split
    · next hc => rw [List.length_cons, ih, hc, List.count_cons_self]
    · next hc => rw [ih, List.count_cons_of_ne hc]

private theorem stops_append {a : List UInt8} (h : 0 ∉ a) (k : ℕ) (body : List UInt8) :
    stops k (a ++ body) = stops (k + a.length) body := by
  induction a generalizing k with
  | nil => rfl
  | cons c a ih =>
    rw [List.mem_cons, not_or] at h
    rw [List.cons_append, stops, if_neg (Ne.symm h.1), ih h.2, List.length_cons, Nat.add_assoc,
      Nat.add_comm 1]

/-- What a wake-up shows of a line that has arrived up to some byte. -/
private theorem visible_of_arrived {before behind : List UInt8}
    (hunread : unread traffic socket = before ++ behind) (hmax : before.length ≤ maxBytes) :
    visible traffic maxBytes socket (socket.consumed + before.length) = before := by
  rw [visible_eq, Nat.add_sub_cancel_left, Nat.min_eq_right hmax, hunread, List.take_left]

/-- A wake-up that shows a line up to its next NUL ends behind that. -/
private theorem readLineLoop_toZero {done a behind : List UInt8}
    (hunread : unread traffic socket = (done ++ (a ++ [0])) ++ behind) (hdone : 10 ∉ done)
    (ha : 10 ∉ a) (hzero : 0 ∉ a) (hmax : done.length + a.length + 1 < maxBytes)
    (hpoll : traffic.poll socket.polls = .ready (socket.consumed + done.length + a.length + 1)) :
    readLineLoop traffic maxBytes (rounds + 1) done.length socket =
      readLineLoop traffic maxBytes rounds (done ++ (a ++ [0])).length (polled socket) := by
  have hlength : (done ++ (a ++ [0])).length = done.length + a.length + 1 := by
    simp
    omega
  have hvisible := @visible_of_arrived _ maxBytes _ _ _ hunread (by omega)
  rw [hlength, ← Nat.add_assoc, ← Nat.add_assoc] at hvisible
  have hdrop : (done ++ (a ++ [0])).drop done.length = a ++ [0] := List.drop_left
  have hstring : cString (a ++ [0]) = a := by
    rw [cString_append_zero, cString_eq_self hzero]
  obtain ⟨-, hread⟩ := @readLineLoop_not_found traffic maxBytes rounds done.length _ socket hpoll
    (by rw [hunread, List.append_assoc, List.take_left]; exact hdone)
    (by rw [hvisible, hdrop, hstring]; exact ha)
  have hnext : nextOffset (done ++ (a ++ [0])) done.length = (done ++ (a ++ [0])).length := by
    rw [nextOffset, hdrop, strlen, hstring, hlength, List.length_append, List.length_singleton,
      Nat.min_self]
    rfl
  rw [hvisible, if_neg (fun hfull ↦ by omega), hnext] at hread
  exact hread

/-- A wake-up that shows the rest of a line without NUL returns the line. -/
private theorem readLineLoop_toEnd {done todo rest : List UInt8}
    (hunread : unread traffic socket = done ++ (todo ++ 10 :: rest)) (hdone : 10 ∉ done)
    (htodo : 10 ∉ todo) (hzero : 0 ∉ todo) (hmax : done.length + todo.length + 1 ≤ maxBytes)
    (hpoll : traffic.poll socket.polls =
      .ready (socket.consumed + done.length + todo.length + 1)) :
    readLineLoop traffic maxBytes (rounds + 1) done.length socket =
      (some (lineOf (done ++ todo)),
        ⟨socket.consumed + (done.length + todo.length + 1), socket.polls + 1⟩) := by
  have hsplit : unread traffic socket = (done ++ (todo ++ [10])) ++ rest := by
    simp [hunread]
  have hlength : (done ++ (todo ++ [10])).length = done.length + todo.length + 1 := by
    simp
    omega
  have hvisible := @visible_of_arrived _ maxBytes _ _ _ hsplit (by omega)
  rw [hlength, ← Nat.add_assoc, ← Nat.add_assoc] at hvisible
  have hbody : 10 ∉ done ++ todo := by
    rw [List.mem_append, not_or]
    exact ⟨hdone, htodo⟩
  obtain ⟨-, -, hread⟩ := @readLineLoop_found traffic maxBytes rounds done.length _ socket hpoll
    (by rw [hunread, List.take_left]; exact hdone)
    (by
      rw [hvisible, List.drop_left, cString_append hzero, cString_cons_of_ne (by decide)]
      exact List.mem_append_right _ List.mem_cons_self)
  rw [hread, hunread, ← List.append_assoc, firstLine_append hbody, consume, polled]
  simp only [List.length_append, List.length_singleton]
  rfl

/-- The loop goes from one NUL to the next and returns the line. -/
private theorem readLineLoop_stops {done todo rest : List UInt8}
    (hunread : unread traffic socket = done ++ (todo ++ 10 :: rest)) (hdone : 10 ∉ done)
    (htodo : 10 ∉ todo) (hcount : todo.count 0 < rounds)
    (hmax : done.length + todo.length + 1 ≤ maxBytes)
    (hpoll : ∀ i a, (stops (socket.consumed + done.length) todo)[i]? = some a →
      traffic.poll (socket.polls + i) = .ready a) :
    readLineLoop traffic maxBytes rounds done.length socket =
      (some (lineOf (done ++ todo)), ⟨socket.consumed + (done.length + todo.length + 1),
        socket.polls + (todo.count 0 + 1)⟩) := by
  induction rounds generalizing done todo socket with
  | zero => exact absurd hcount (Nat.not_lt_zero _)
  | succ rounds ih =>
    by_cases hzero : 0 ∈ todo
    · obtain ⟨a, todo, rfl, ha⟩ := List.eq_append_cons_of_mem hzero
      rw [List.mem_append, List.mem_cons, not_or, not_or] at htodo
      rw [List.count_append, List.count_eq_zero_of_not_mem ha, List.count_cons_self,
        Nat.zero_add] at hcount ⊢
      rw [stops_append ha, stops, if_pos rfl] at hpoll
      rw [List.length_append, List.length_cons] at hmax
      have hsplit : unread traffic socket = (done ++ (a ++ [0])) ++ (todo ++ 10 :: rest) := by
        simp [hunread]
      have hdone' : 10 ∉ done ++ (a ++ [0]) := by
        rw [List.mem_append, List.mem_append, List.mem_singleton, not_or, not_or]
        exact ⟨hdone, htodo.1, htodo.2.1⟩
      have hlength : (done ++ (a ++ [0])).length = done.length + a.length + 1 := by
        simp
        omega
      have hrest := @ih (polled socket) (done ++ (a ++ [0])) todo hsplit hdone' htodo.2.2 (by omega)
        (by omega) (fun i b hb ↦ by
          rw [hlength, ← Nat.add_assoc, ← Nat.add_assoc] at hb
          have hlater := hpoll (i + 1) b hb
          rwa [Nat.add_comm i, ← Nat.add_assoc] at hlater)
      have htext : done ++ (a ++ [0]) ++ todo = done ++ (a ++ 0 :: todo) := by simp
      rw [readLineLoop_toZero hsplit hdone htodo.1 ha (by omega) (hpoll 0 _ rfl), hrest, htext,
        hlength, List.length_append, List.length_cons]
      dsimp only [polled]
      congr 2 <;> omega
    · have hready := hpoll 0 _ (by rw [← List.append_nil todo, stops_append hzero]; rfl)
      rw [readLineLoop_toEnd hunread hdone htodo hzero hmax hready,
        List.count_eq_zero_of_not_mem hzero]

/-- A call returns every line without a newline and with at most five NULs, if the call allows as
many bytes, when the bytes arrive up to one NUL after the other. -/
theorem readLine_stops {body rest : List UInt8}
    (hunread : unread traffic socket = body ++ 10 :: rest) (hbody : 10 ∉ body)
    (hcount : body.count 0 ≤ 5) (hmax : body.length + 1 ≤ maxBytes)
    (hpoll : ∀ i a, (stops socket.consumed body)[i]? = some a →
      traffic.poll (socket.polls + i) = .ready a) :
    readLine traffic socket maxBytes = (some (lineOf body),
      ⟨socket.consumed + (body.length + 1), socket.polls + (body.count 0 + 1)⟩) := by
  have hread := @readLineLoop_stops traffic maxBytes 6 socket [] body rest hunread
    List.not_mem_nil hbody (Nat.lt_succ_of_le hcount) (by simpa using hmax) hpoll
  simpa [readLine] using hread

end Wsic.Connection
