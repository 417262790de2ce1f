import Wsic.Connection.Arrivals
import Wsic.Worker.Request

/-!
# The size of a header

How many bytes does the loop over the header, `src/worker/worker.c:127–168`, take off a connection?
Each call of `connection_readLine` may take what `REQUEST_MAX_HEADER_SIZE` leaves behind the lines
before it, but these are counted without the blanks at their ends, which were taken off too.
-/

open CMemory Wsic.Connection

namespace Wsic.Worker

variable [FreshBytes]

/-! ### The loop, round by round -/

/-- The loop before a round. It ends with all lines parsed, with a line that is refused, or with a
fault of a parser. -/
structure HeaderState where
  line : ℕ
  headerSize : ℕ
  request : HttpT
  socket : SocketT
  ended : Option (Checked Bool)

namespace HeaderState

/-- Before the first round. -/
def start (socket : SocketT) : HeaderState := ⟨0, 0, HttpT.create, socket, none⟩

/-- The limit of the next line, a `size_t`. -/
def maxBytes (s : HeaderState) : ℕ := (requestMaxHeaderSize + 2 ^ 64 - s.headerSize) % 2 ^ 64

/-- The parsers of the lines. -/
def parseLine (s : HeaderState) (currentLine : StringT) : Checked (Bool × HttpT) :=
  if s.line = 0 then s.request.parseRequestLine currentLine else s.request.parseHeader currentLine

/-- One round of the loop, `worker.c:128–167`. -/
def step (traffic : Traffic) (s : HeaderState) : HeaderState :=
  match s.ended with
  | some _ => s
  | none =>
    match readLine traffic s.socket s.maxBytes with
    | (none, socket) => { s with socket := socket, ended := some (.ok true) }
    | (some currentLine, socket) =>
      if currentLine.size = 0 then { s with socket := socket, ended := some (.ok true) }
      else
        match s.parseLine currentLine with
        | .error fault => { s with socket := socket, ended := some (.error fault) }
        | .ok (false, request) =>
          { s with request := request, socket := socket, ended := some (.ok false) }
        | .ok (true, request) =>
          ⟨s.line + 1, s.headerSize + currentLine.size, request, socket, none⟩

/-- The loop after a number of rounds. -/
def after (traffic : Traffic) (socket : SocketT) (rounds : ℕ) : HeaderState :=
  (step traffic)^[rounds] (start socket)

/-- What the loop gives, if it has ended. -/
def result (s : HeaderState) : Checked (Bool × HttpT × SocketT) :=
  match s.ended with
  | none => .error .nonTermination
  | some (.error fault) => .error fault
  | some (.ok parsed) => .ok (parsed, s.request, s.socket)

section Step

variable {traffic : Traffic} {s : HeaderState}

theorem step_of_ended (h : s.ended ≠ none) : s.step traffic = s := by
  unfold step
  split
  · rfl
  · next hnone => exact absurd hnone h

/-- Every round of a running loop makes one call. -/
theorem socket_step (h : s.ended = none) :
    (s.step traffic).socket = (readLine traffic s.socket s.maxBytes).2 := by
  unfold step
  rw [h]
  dsimp only
  split
  · next heq => rw [heq]
  · next heq =>
    rw [heq]
    split
    · rfl
    · split <;> rfl

/-- A line that is parsed is counted, and the loop goes on. -/
theorem step_parsed {currentLine : StringT} {socket : SocketT} {request : HttpT}
    (h : s.ended = none) (hread : readLine traffic s.socket s.maxBytes = (some currentLine, socket))
    (hsize : currentLine.size ≠ 0) (hparse : s.parseLine currentLine = .ok (true, request)) :
    s.step traffic = ⟨s.line + 1, s.headerSize + currentLine.size, request, socket, none⟩ := by
  rw [step, h, hread]
  dsimp only
  rw [if_neg hsize, hparse]

/-- Without a line the loop ends. -/
theorem ended_step_of_none (h : s.ended = none)
    (hread : (readLine traffic s.socket s.maxBytes).1 = none) : (s.step traffic).ended ≠ none := by
  rw [step, h, show readLine traffic s.socket s.maxBytes = (none, _) from Prod.ext hread rfl]
  exact Option.some_ne_none _

/-- At a blank line, and at one that is not parsed, the loop ends. -/
theorem ended_step_of_line {currentLine : StringT} {socket : SocketT} (h : s.ended = none)
    (hread : readLine traffic s.socket s.maxBytes = (some currentLine, socket))
    (hstop : currentLine.size = 0 ∨ ∀ request, s.parseLine currentLine ≠ .ok (true, request)) :
    (s.step traffic).ended ≠ none := by
  rw [step, h, hread]
  dsimp only
  by_cases hsize : currentLine.size = 0
  · rw [if_pos hsize]
    exact Option.some_ne_none _
  · rw [if_neg hsize]
    rcases hparse : s.parseLine currentLine with fault | ⟨_ | _, request⟩
    · exact Option.some_ne_none _
    · exact Option.some_ne_none _
    · exact absurd hparse (hstop.resolve_left hsize request)

/-- A round of `readHeader` is a round of the loop. -/
theorem readHeader_succ (h : s.ended = none) (rounds : ℕ) :
    readHeader (plainReader traffic) (rounds + 1) s.line s.headerSize s.request s.socket =
      if (s.step traffic).ended = none then
        readHeader (plainReader traffic) rounds (s.step traffic).line (s.step traffic).headerSize
          (s.step traffic).request (s.step traffic).socket
      else (s.step traffic).result := by
  have hread : (plainReader traffic).readLine s.socket
      ((requestMaxHeaderSize + 2 ^ 64 - s.headerSize) % 2 ^ 64) =
        readLine traffic s.socket s.maxBytes := rfl
  rw [readHeader, step, h, hread]
  rcases readLine traffic s.socket s.maxBytes with ⟨_ | currentLine, socket⟩
  · rfl
  · dsimp only
    by_cases hsize : currentLine.size = 0
    · simp only [if_pos hsize]
      rfl
    · simp only [if_neg hsize, parseLine]
      by_cases hline : s.line = 0
      · simp only [if_pos hline]
        rcases s.request.parseRequestLine currentLine with fault | ⟨_ | _, request⟩ <;> rfl
      · simp only [if_neg hline]
        rcases s.request.parseHeader currentLine with fault | ⟨_ | _, request⟩ <;> rfl

/-- The rounds are those of `readHeader`. -/
theorem readHeader_eq_result (h : s.ended = none) (rounds : ℕ) :
    readHeader (plainReader traffic) rounds s.line s.headerSize s.request s.socket =
      ((step traffic)^[rounds] s).result := by
  induction rounds generalizing s with
  | zero =>
    rw [Function.iterate_zero, id_eq, result, h]
    rfl
  | succ rounds ih =>
    rw [readHeader_succ h, Function.iterate_succ_apply]
    split
    · next hrunning => exact ih hrunning
    · next hended => rw [Function.iterate_fixed (step_of_ended hended)]

end Step

end HeaderState

/-! ### Lines and the limit -/

/-- What is counted of a line: its length without the blanks and the newline at its end. -/
def counted (body : List UInt8) : ℕ := ((body ++ [10]).rdropWhile StringT.isTrimmed).length

/-- What lines take off a connection, with their blanks and newlines. -/
def lineBytes (lines : List (List UInt8)) : ℕ := (lines.map (fun body ↦ body.length + 1)).sum

/-- Lines are parsed, the first one as a request line and the others as headers. -/
inductive ParsesTo : List (List UInt8) → HttpT → Prop where
  | nothing : ParsesTo [] HttpT.create
  | line {lines : List (List UInt8)} {body : List UInt8} {request request' : HttpT} :
      ParsesTo lines request →
      (if lines = [] then request.parseRequestLine (lineOf body)
        else request.parseHeader (lineOf body)) = .ok (true, request') →
      ParsesTo (lines ++ [body]) request'

/-- A stream begins with these lines, and each of them can be read: it has at most five NULs, and
is not longer than what the limit leaves behind the counted lines. -/
structure HeaderLines (stream : List UInt8) (lines : List (List UInt8)) : Prop where
  text : (lines.map (· ++ [10])).flatten <+: stream
  body : ∀ body ∈ lines, 10 ∉ body ∧ body.count 0 ≤ 5
  fits : ∀ before body, before ++ [body] <+: lines →
    (before.map counted).sum + (body.length + 1) ≤ requestMaxHeaderSize

/-- A stream begins with such lines that have more bytes than the limit; all but the last one are
parsed, and none of these is blank. -/
def SlipsThrough (stream : List UInt8) : Prop :=
  ∃ lines last request, HeaderLines stream (lines ++ [last]) ∧ ParsesTo lines request ∧
    (∀ body ∈ lines, counted body ≠ 0) ∧ requestMaxHeaderSize < lineBytes (lines ++ [last])

section Lines

variable {stream : List UInt8} {lines : List (List UInt8)} {body rest : List UInt8}

omit [FreshBytes] in
theorem size_lineOf (body : List UInt8) : (lineOf body).size = counted body := by
  rw [← StringT.length_content, content_lineOf, counted]

omit [FreshBytes] in
theorem counted_le (body : List UInt8) : counted body ≤ body.length + 1 := by
  have hle := (List.rdropWhile_prefix StringT.isTrimmed (body ++ [10])).length_le
  rwa [List.length_append, List.length_singleton] at hle

omit [FreshBytes] in
theorem lineBytes_concat (lines : List (List UInt8)) (body : List UInt8) :
    lineBytes (lines ++ [body]) = lineBytes lines + (body.length + 1) := by
  simp [lineBytes]

omit [FreshBytes] in
theorem length_flatten_lines (lines : List (List UInt8)) :
    (lines.map (· ++ [10])).flatten.length = lineBytes lines := by
  simp [lineBytes, List.length_flatten, Function.comp_def]

namespace HeaderLines

omit [FreshBytes] in
theorem nil (stream : List UInt8) : HeaderLines stream [] :=
  ⟨List.nil_prefix, fun _ hm ↦ absurd hm List.not_mem_nil, fun _ _ hle ↦
    absurd (List.prefix_nil.mp hle) (List.append_ne_nil_of_right_ne_nil _ (List.cons_ne_nil _ _))⟩

omit [FreshBytes] in
/-- The counted lines are within the limit. -/
theorem counted_le (h : HeaderLines stream lines) :
    (lines.map counted).sum ≤ requestMaxHeaderSize := by
  cases lines using List.reverseRecOn with
  | nil => exact Nat.zero_le _
  | append_singleton lines body =>
    have hfits := h.fits lines body (List.prefix_refl _)
    have hle := Worker.counted_le body
    simp only [List.map_append, List.map_cons, List.map_nil, List.sum_append, List.sum_singleton]
    omega

omit [FreshBytes] in
theorem of_prefix (h : HeaderLines stream lines) {fewer : List (List UInt8)}
    (hle : fewer <+: lines) : HeaderLines stream fewer := by
  obtain ⟨more, rfl⟩ := hle
  refine ⟨?_, fun body hm ↦ h.body body (List.mem_append_left _ hm),
    fun before body hle ↦ h.fits before body (hle.trans (List.prefix_append _ _))⟩
  have htext := h.text
  rw [List.map_append, List.flatten_append] at htext
  exact (List.prefix_append _ _).trans htext

omit [FreshBytes] in
/-- What is behind the lines. -/
theorem text_eq (h : HeaderLines stream lines) :
    stream = (lines.map (· ++ [10])).flatten ++ stream.drop (lineBytes lines) := by
  obtain ⟨rest, hrest⟩ := h.text
  rw [← hrest, ← length_flatten_lines, List.drop_left]

omit [FreshBytes] in
/-- The next line. -/
theorem concat (h : HeaderLines stream lines)
    (hrest : stream.drop (lineBytes lines) = body ++ 10 :: rest) (hbody : 10 ∉ body)
    (hcount : body.count 0 ≤ 5)
    (hfits : (lines.map counted).sum + (body.length + 1) ≤ requestMaxHeaderSize) :
    HeaderLines stream (lines ++ [body]) := by
  refine ⟨⟨rest, ?_⟩, ?_, ?_⟩
  · conv_rhs => rw [h.text_eq, hrest]
    simp
  · intro other hm
    rcases List.mem_append.mp hm with hm | hm
    · exact h.body other hm
    · rw [List.mem_singleton.mp hm]
      exact ⟨hbody, hcount⟩
  · intro before other hle
    rcases List.prefix_concat_iff.mp hle with heq | hle
    · obtain ⟨rfl, hlast⟩ := List.append_inj' heq rfl
      obtain rfl := List.singleton_inj.mp hlast
      exact hfits
    · exact h.fits before other hle

omit [FreshBytes] in
/-- The line behind some lines. -/
theorem drop_eq (h : HeaderLines stream (lines ++ [body])) :
    ∃ rest, stream.drop (lineBytes lines) = body ++ 10 :: rest := by
  refine ⟨stream.drop (lineBytes (lines ++ [body])), ?_⟩
  have htext := h.text_eq
  rw [List.map_append, List.flatten_append, List.append_assoc] at htext
  conv_lhs => rw [htext]
  rw [← length_flatten_lines, List.drop_left]
  simp

end HeaderLines

end Lines

/-! ### The lines that the loop takes -/

namespace HeaderState

/-- However many rounds are made, the calls take at most the limit off the connection. -/
def WithinLimit (traffic : Traffic) (polls : ℕ) : Prop :=
  ∀ rounds, (after traffic ⟨0, polls⟩ rounds).socket.consumed ≤ requestMaxHeaderSize

/-- Whatever arrives when, the loop takes at most the limit off a connection on which this stream
is sent. -/
def KeepsLimit (stream : List UInt8) : Prop := ∀ poll polls, WithinLimit ⟨stream, poll⟩ polls

theorem after_succ (traffic : Traffic) (socket : SocketT) (rounds : ℕ) :
    after traffic socket (rounds + 1) = (after traffic socket rounds).step traffic :=
  Function.iterate_succ_apply' _ _ _

/-- The loop is running, and has taken these lines. -/
structure Behind (stream : List UInt8) (s : HeaderState) (lines : List (List UInt8)) : Prop where
  running : s.ended = none
  line : s.line = lines.length
  headerSize : s.headerSize = (lines.map counted).sum
  consumed : s.socket.consumed = lineBytes lines
  header : HeaderLines stream lines
  parsed : ParsesTo lines s.request
  notBlank : ∀ body ∈ lines, counted body ≠ 0

namespace Behind

variable {traffic : Traffic} {s : HeaderState} {lines : List (List UInt8)}

theorem start (stream : List UInt8) (polls : ℕ) :
    Behind stream (HeaderState.start ⟨0, polls⟩) [] :=
  ⟨rfl, rfl, rfl, rfl, .nil stream, .nothing, fun _ hm ↦ absurd hm List.not_mem_nil⟩

theorem maxBytes_eq {stream : List UInt8} (h : Behind stream s lines) :
    s.maxBytes = requestMaxHeaderSize - (lines.map counted).sum := by
  have hle := h.header.counted_le
  rw [maxBytes, h.headerSize]
  unfold requestMaxHeaderSize at hle ⊢
  omega

theorem parseLine_eq {stream : List UInt8} (h : Behind stream s lines) (currentLine : StringT) :
    s.parseLine currentLine = if lines = [] then s.request.parseRequestLine currentLine
      else s.request.parseHeader currentLine := by
  rw [parseLine, h.line]
  simp only [List.length_eq_zero_iff]

/-- A line that is read and parsed is one more. -/
theorem takes (h : Behind traffic.stream s lines) {body : List UInt8} {socket : SocketT}
    {request : HttpT}
    (hread : readLine traffic s.socket s.maxBytes = (some (lineOf body), socket))
    (hconsumed : socket.consumed = lineBytes (lines ++ [body]))
    (hheader : HeaderLines traffic.stream (lines ++ [body])) (hblank : counted body ≠ 0)
    (hparse : (if lines = [] then s.request.parseRequestLine (lineOf body)
      else s.request.parseHeader (lineOf body)) = .ok (true, request)) :
    s.step traffic = ⟨s.line + 1, s.headerSize + counted body, request, socket, none⟩ ∧
      Behind traffic.stream (s.step traffic) (lines ++ [body]) := by
  have hstep := step_parsed h.running hread (by rwa [size_lineOf])
    ((h.parseLine_eq (lineOf body)).trans hparse)
  rw [size_lineOf] at hstep
  refine ⟨hstep, ?_⟩
  rw [hstep]
  refine ⟨rfl, ?_, ?_, hconsumed, hheader, .line h.parsed hparse, ?_⟩
  · rw [List.length_append, ← h.line]
    rfl
  · simp [h.headerSize]
  · intro other hm
    rcases List.mem_append.mp hm with hm | hm
    · exact h.notBlank other hm
    · rwa [List.mem_singleton.mp hm]

/-- The line that a round reads, if it reads one. -/
theorem step (h : Behind traffic.stream s lines) :
    ((s.step traffic).ended ≠ none ∧ (s.step traffic).socket.consumed = s.socket.consumed) ∨
    ∃ body, HeaderLines traffic.stream (lines ++ [body]) ∧
      (s.step traffic).socket.consumed = lineBytes (lines ++ [body]) ∧
      ((s.step traffic).ended ≠ none ∨
        Behind traffic.stream (s.step traffic) (lines ++ [body])) := by
  have hsocket := @socket_step _ traffic s h.running
  rcases readLine_cases traffic s.maxBytes s.socket with ⟨hread, hsame⟩ |
    ⟨body, rest, hunread, hbody, hcount, hlength, hread, htaken⟩
  · exact .inl ⟨ended_step_of_none h.running hread, hsocket ▸ hsame⟩
  · rw [h.maxBytes_eq] at hlength
    rw [unread, h.consumed] at hunread
    have hfits : (lines.map counted).sum + (body.length + 1) ≤ requestMaxHeaderSize := by omega
    have hheader := h.header.concat hunread hbody hcount hfits
    have hconsumed : (readLine traffic s.socket s.maxBytes).2.consumed =
        lineBytes (lines ++ [body]) := by
      rw [htaken, h.consumed, lineBytes_concat]
    refine .inr ⟨body, hheader, hsocket ▸ hconsumed, ?_⟩
    have hcall : readLine traffic s.socket s.maxBytes = (some (lineOf body), _) :=
      Prod.ext hread rfl
    by_cases hblank : counted body = 0
    · exact .inl (ended_step_of_line h.running hcall (.inl ((size_lineOf body).trans hblank)))
    · by_cases hparse : ∃ request, s.parseLine (lineOf body) = .ok (true, request)
      · obtain ⟨request, hparse⟩ := hparse
        rw [h.parseLine_eq] at hparse
        exact .inr (h.takes hcall hconsumed hheader hblank hparse).2
      · exact .inl (ended_step_of_line h.running hcall (.inr (not_exists.mp hparse)))

end Behind

/-- The loop keeps the limit unless the stream slips through. -/
theorem withinLimit_of_not_slipsThrough {traffic : Traffic} (h : ¬ SlipsThrough traffic.stream)
    (polls : ℕ) : WithinLimit traffic polls := by
  intro rounds
  suffices hinvariant : ∀ s, s = after traffic ⟨0, polls⟩ rounds →
      s.socket.consumed ≤ requestMaxHeaderSize ∧
        (s.ended ≠ none ∨ ∃ lines, Behind traffic.stream s lines) from (hinvariant _ rfl).1
  induction rounds with
  | zero =>
    rintro _ rfl
    exact ⟨Nat.zero_le _, .inr ⟨[], Behind.start traffic.stream polls⟩⟩
  | succ rounds ih =>
    rintro _ rfl
    obtain ⟨hle, hstate⟩ := ih _ rfl
    rw [after_succ]
    rcases hstate with hended | ⟨lines, hbehind⟩
    · rw [step_of_ended hended]
      exact ⟨hle, .inl hended⟩
    · rcases hbehind.step with ⟨hended, hsame⟩ | ⟨body, hheader, hconsumed, hnext⟩
      · exact ⟨hsame ▸ hle, .inl hended⟩
      · refine ⟨?_, hnext.imp_right (fun hbehind' ↦ ⟨_, hbehind'⟩)⟩
        by_contra hlarge
        exact h ⟨lines, body, _, hheader, hbehind.parsed, hbehind.notBlank,
          hconsumed ▸ Nat.lt_of_not_le hlarge⟩

/-! ### Arrivals that let a stream slip through -/

/-- What arrives for the lines behind `k` bytes, wake-up by wake-up. -/
def arrivals : ℕ → List (List UInt8) → List ℕ
  | _, [] => []
  | k, body :: lines => stops k body ++ arrivals (k + (body.length + 1)) lines

/-- Lines whose bytes arrive as `arrivals` says. -/
def arriving (stream : List UInt8) (lines : List (List UInt8)) : Traffic where
  stream := stream
  poll i := ((arrivals 0 lines)[i]?).elim .timeout .ready

omit [FreshBytes] in
theorem arrivals_append (k : ℕ) (lines more : List (List UInt8)) :
    arrivals k (lines ++ more) = arrivals k lines ++ arrivals (k + lineBytes lines) more := by
  induction lines generalizing k with
  | nil => rfl
  | cons body lines ih =>
    rw [List.cons_append, arrivals, arrivals, ih, List.append_assoc]
    simp [lineBytes, Nat.add_assoc]

omit [FreshBytes] in
/-- The wake-ups of the next line show it up to one NUL after the other. -/
theorem poll_arriving (stream : List UInt8) (lines : List (List UInt8)) (body : List UInt8)
    (more : List (List UInt8)) {i a : ℕ} (h : (stops (lineBytes lines) body)[i]? = some a) :
    (arriving stream (lines ++ body :: more)).poll ((arrivals 0 lines).length + i) = .ready a := by
  obtain ⟨hi, -⟩ := List.getElem?_eq_some_iff.mp h
  have hnext : (arrivals 0 (lines ++ body :: more))[(arrivals 0 lines).length + i]? = some a := by
    rw [arrivals_append, List.getElem?_append_right (Nat.le_add_right _ _), Nat.add_sub_cancel_left,
      Nat.zero_add, arrivals, List.getElem?_append_left hi]
    exact h
  rw [arriving]
  dsimp only
  rw [hnext]
  rfl

section Arriving

variable {stream : List UInt8} {all lines more : List (List UInt8)} {body : List UInt8}

/-- The next line is read. -/
private theorem readLine_arriving {s : HeaderState} (hall : all = lines ++ body :: more)
    (hheader : HeaderLines stream all) (h : Behind stream s lines)
    (hpolls : s.socket.polls = (arrivals 0 lines).length) :
    readLine (arriving stream all) s.socket s.maxBytes = (some (lineOf body),
      ⟨lineBytes (lines ++ [body]), (arrivals 0 (lines ++ [body])).length⟩) := by
  have hnext : lines ++ [body] <+: all := ⟨more, by rw [hall, List.append_assoc]; rfl⟩
  obtain ⟨rest, hrest⟩ := (hheader.of_prefix hnext).drop_eq
  obtain ⟨hbody, hcount⟩ :=
    hheader.body body (hall ▸ List.mem_append_right _ List.mem_cons_self)
  have hunread : unread (arriving stream all) s.socket = body ++ 10 :: rest := by
    rw [unread, h.consumed]
    exact hrest
  have hmax : body.length + 1 ≤ s.maxBytes := by
    have hfits := hheader.fits lines body hnext
    rw [h.maxBytes_eq]
    omega
  have hpoll (i a : ℕ) (ha : (stops s.socket.consumed body)[i]? = some a) :
      (arriving stream all).poll (s.socket.polls + i) = .ready a := by
    rw [h.consumed] at ha
    rw [hpolls, hall]
    exact poll_arriving stream lines body more ha
  rw [readLine_stops hunread hbody hcount hmax hpoll, h.consumed, hpolls, lineBytes_concat,
    arrivals_append, List.length_append, Nat.zero_add, arrivals, arrivals, List.append_nil,
    length_stops]

/-- The loop takes one line after the other. -/
private theorem behind_arriving {request : HttpT} (hparsed : ParsesTo lines request)
    (hall : all = lines ++ more) (hheader : HeaderLines stream all)
    (hblank : ∀ body ∈ lines, counted body ≠ 0) :
    ∃ s, after (arriving stream all) ⟨0, 0⟩ lines.length = s ∧ Behind stream s lines ∧
      s.request = request ∧ s.socket.polls = (arrivals 0 lines).length := by
  induction hparsed generalizing more with
  | nothing => exact ⟨_, rfl, Behind.start stream 0, rfl, rfl⟩
  | @line lines body request request' _ hparse ih =>
    have hall' : all = lines ++ body :: more := by rw [hall, List.append_assoc]; rfl
    obtain ⟨s, hafter, hbehind, rfl, hpolls⟩ := ih hall'
      (fun other hm ↦ hblank other (List.mem_append_left _ hm))
    have hread := readLine_arriving hall' hheader hbehind hpolls
    obtain ⟨hstep, hnext⟩ := @Behind.takes _ (arriving stream all) s lines hbehind body _ request'
      hread rfl (hheader.of_prefix ⟨more, hall.symm⟩)
      (hblank body (List.mem_append_right _ List.mem_cons_self)) hparse
    refine ⟨s.step (arriving stream all), ?_, hnext, ?_, ?_⟩
    · rw [List.length_append, List.length_singleton, after_succ, hafter]
    · rw [hstep]
    · rw [hstep]

end Arriving

/-- Whenever a stream slips through, there are arrivals with which the limit is exceeded. -/
theorem not_keepsLimit {stream : List UInt8} (h : SlipsThrough stream) : ¬ KeepsLimit stream := by
  obtain ⟨lines, last, request, hheader, hparsed, hblank, hlarge⟩ := h
  intro hkeeps
  obtain ⟨s, hafter, hbehind, -, hpolls⟩ := behind_arriving hparsed rfl hheader hblank
  have hread := @readLine_arriving _ stream _ lines [] last s rfl hheader hbehind hpolls
  have hnext := hkeeps (arriving stream (lines ++ [last])).poll 0 (lines.length + 1)
  rw [show (⟨stream, (arriving stream (lines ++ [last])).poll⟩ : Traffic) =
    arriving stream (lines ++ [last]) from rfl, after_succ, hafter,
    socket_step hbehind.running, hread] at hnext
  exact absurd hlarge (Nat.not_lt.mpr hnext)

/-- The limit is kept on a stream, whatever arrives when, if and only if the stream does not begin
with lines that have more bytes than the limit while each is short enough for what is counted of
the lines before it. -/
theorem keepsLimit_iff (stream : List UInt8) : KeepsLimit stream ↔ ¬ SlipsThrough stream := by
  constructor
  · exact fun h hslips ↦ not_keepsLimit hslips h
  · exact fun h poll polls ↦ @withinLimit_of_not_slipsThrough _ ⟨stream, poll⟩ h polls

/-- Then the loop of the worker leaves the connection within the limit. -/
theorem WithinLimit.readHeader {traffic : Traffic} {polls : ℕ} (h : WithinLimit traffic polls)
    {rounds : ℕ} {parsed : Bool} {request : HttpT} {socket : SocketT}
    (hread : Worker.readHeader (plainReader traffic) rounds 0 0 HttpT.create ⟨0, polls⟩ =
      .ok (parsed, request, socket)) : socket.consumed ≤ requestMaxHeaderSize := by
  have hresult : .ok (parsed, request, socket) = (after traffic ⟨0, polls⟩ rounds).result :=
    hread.symm.trans (@readHeader_eq_result _ traffic (HeaderState.start ⟨0, polls⟩) rfl rounds)
  have hsocket : (after traffic ⟨0, polls⟩ rounds).socket = socket := by
    unfold result at hresult
    split at hresult <;> cases hresult
    rfl
  rw [← hsocket]
  exact h rounds

/-! ### A header that is too large -/

/-- A line with blanks at its end. -/
def padded (text : String) (blanks : ℕ) : List UInt8 := ascii text ++ List.replicate blanks 32

/-- A request line and a header line, both padded. -/
def paddedStream (blanks : ℕ) : List UInt8 :=
  padded "GET / HTTP/1.1" blanks ++ 10 :: (padded "A: b" blanks ++ [10])

omit [FreshBytes] in
private theorem notMem_padded {text : String} {c : UInt8} (h : c ∉ ascii text) (hc : c ≠ 32)
    (blanks : ℕ) : c ∉ padded text blanks := by
  rw [padded, List.mem_append, not_or]
  exact ⟨h, fun hm ↦ hc (List.eq_of_mem_replicate hm)⟩

omit [FreshBytes] in
/-- The blanks of a padded line are trimmed. -/
private theorem trimmed_padded {text : String} (h : (ascii text).rdropWhile StringT.isTrimmed =
    ascii text) (blanks : ℕ) :
    (padded text blanks ++ [10]).rdropWhile StringT.isTrimmed = ascii text := by
  rw [List.rdropWhile_concat_pos _ _ _ (by decide), padded]
  induction blanks with
  | zero => rw [List.replicate_zero, List.append_nil, h]
  | succ blanks ih =>
    rw [List.replicate_succ', ← List.append_assoc, List.rdropWhile_concat_pos _ _ _ (by decide), ih]

omit [FreshBytes] in
private theorem length_padded (text : String) (blanks : ℕ) :
    (padded text blanks).length = (ascii text).length + blanks := by
  rw [padded, List.length_append, List.length_replicate]

omit [FreshBytes] in
private theorem length_get : (ascii "GET / HTTP/1.1").length = 14 := by decide +kernel

private theorem parseRequestLine_padded (blanks : ℕ) :
    ∃ request, HttpT.create.parseRequestLine (lineOf (padded "GET / HTTP/1.1" blanks)) =
      .ok (true, request) := by
  have hcontent := (content_lineOf (padded "GET / HTTP/1.1" blanks)).trans
    (trimmed_padded (by decide) blanks)
  have htarget : HttpT.parseRequestTarget HttpT.newUrl (HttpT.token (ascii "/")) =
      .ok (true, HttpT.newUrl.setPath (some (StringT.fromBufferWithLength (ascii "/")))) := by
    rw [HttpT.token, StringCursorT.foldl_appendChar (by decide) (by decide)]
    exact HttpT.parseRequestTarget_path (by decide) (by decide) _
  obtain ⟨request, hparse, -⟩ := @HttpT.parseRequestLine_accepted _ _ (ascii "GET") (ascii "/")
    (ascii "HTTP/1.1") _ hcontent (by decide) (by decide) (by decide) (by decide) (by decide)
    ⟨49, 49, [], by decide, by decide, by decide, by decide, by decide⟩ htarget
  exact ⟨request, hparse⟩

/-- The header line is short enough for the 14 bytes that are counted of the request line. -/
theorem slipsThrough_padded {blanks : ℕ} (h : 18 + blanks < requestMaxHeaderSize)
    (hlarge : requestMaxHeaderSize < 20 + 2 * blanks) : SlipsThrough (paddedStream blanks) := by
  have hget : (padded "GET / HTTP/1.1" blanks).length = 14 + blanks := by
    rw [length_padded, length_get]
  have hheader : (padded "A: b" blanks).length = 4 + blanks := length_padded _ _
  have hcounted : counted (padded "GET / HTTP/1.1" blanks) = 14 := by
    rw [counted, trimmed_padded (by decide), length_get]
  have hone : HeaderLines (paddedStream blanks) [padded "GET / HTTP/1.1" blanks] := by
    refine (HeaderLines.nil (paddedStream blanks)).concat rfl
      (notMem_padded (by decide) (by decide) _) ?_ ?_
    · rw [List.count_eq_zero_of_not_mem (notMem_padded (by decide) (by decide) _)]
      exact Nat.zero_le _
    · rw [hget, List.map_nil, List.sum_nil]
      omega
  have hdrop : (paddedStream blanks).drop (lineBytes [padded "GET / HTTP/1.1" blanks]) =
      padded "A: b" blanks ++ 10 :: [] := by
    rw [paddedStream, List.append_cons, ← length_flatten_lines, List.map_singleton,
      List.flatten_singleton, List.drop_left]
  have htwo : HeaderLines (paddedStream blanks)
      ([padded "GET / HTTP/1.1" blanks] ++ [padded "A: b" blanks]) := by
    refine hone.concat hdrop (notMem_padded (by decide) (by decide) _) ?_ ?_
    · rw [List.count_eq_zero_of_not_mem (notMem_padded (by decide) (by decide) _)]
      exact Nat.zero_le _
    · rw [hheader, List.map_singleton, List.sum_singleton, hcounted]
      omega
  obtain ⟨request, hparse⟩ := parseRequestLine_padded blanks
  refine ⟨_, _, request, htwo, .line .nothing ((if_pos rfl).trans hparse), ?_, ?_⟩
  · intro body hm
    rw [List.mem_singleton.mp hm, hcounted]
    decide
  · rw [lineBytes_concat, hheader, lineBytes, List.map_singleton, List.sum_singleton, hget]
    omega

omit [FreshBytes] in
/-- Two lines of almost a megabyte each, most of it blanks, are read. -/
theorem padded_header_not_keepsLimit : ¬ @KeepsLimit FreshBytes.zero (paddedStream 1048557) :=
  @not_keepsLimit FreshBytes.zero _ (@slipsThrough_padded FreshBytes.zero 1048557 (by decide)
    (by decide))

end HeaderState

end Wsic.Worker
