import Wsic.Cgi.Exchange
import Wsic.Worker.ScriptBody

/-!
# The answer of a script

A request for a script with a body, from the stream of the connection through the exchange with
the script back to the client: what `cgi_read` returns, `src/cgi/cgi.c:131–189`, is sent by
`connection_write`, `src/connection/connection.c:280–310`, up to its first NUL.
-/

open CMemory Effects Effects.Outcome Interaction Transition Wsic.Cgi Wsic.Connection

namespace Wsic.Worker

variable [FreshBytes]

/-- What is read without a NUL is a fresh string. -/
private theorem foldl_append_eq {reads : List (List UInt8)} (h : (0 : UInt8) ∉ reads.flatten)
    (content : List UInt8) :
    reads.foldl StringT.appendBufferWithLength (StringT.fromBufferWithLength content) =
      StringT.fromBufferWithLength (content ++ reads.flatten) := by
  induction reads generalizing content with
  | nil => rw [List.foldl_nil, List.flatten_nil, List.append_nil]
  | cons bytes reads ih =>
    rw [List.flatten_cons, List.mem_append, not_or] at h
    have hlast : bytes.getLast? ≠ some 0 := fun hlast ↦ h.1 (List.mem_of_getLast? hlast)
    rw [List.foldl_cons, StringT.fromBufferWithLength_append _ _ hlast, ih h.2, List.append_assoc,
      List.flatten_cons]

/-- The buffer of the response. It is null when nothing was read. -/
theorem buffer_cgiRead {script : Script} {reads : List (List UInt8)}
    (hscript : script.output = some reads) :
    (cgiRead script).bind StringT.buffer = none ↔ reads = [] := by
  rw [cgiRead, hscript, Option.map_some, Option.bind_some]
  cases reads using List.reverseRecOn with
  | nil => exact iff_of_true rfl rfl
  | append_singleton reads bytes =>
    rw [List.foldl_append, List.foldl_cons, List.foldl_nil, StringT.buffer_appendBufferWithLength]
    simp

/-- What was read without a NUL is sent as it is. -/
theorem connectionWrite_cgiRead {script : Script} {reads : List (List UInt8)}
    (hscript : script.output = some reads) (hne : reads ≠ []) (h : (0 : UInt8) ∉ reads.flatten) :
    ∃ buffer, (cgiRead script).bind StringT.buffer = some buffer ∧
      HttpT.connectionWrite buffer = reads.flatten := by
  obtain ⟨bytes, reads, rfl⟩ := List.exists_cons_of_ne_nil hne
  have hread : cgiRead script =
      some (StringT.fromBufferWithLength (bytes :: reads).flatten) := by
    rw [List.flatten_cons, List.mem_append, not_or] at h
    have hlast : bytes.getLast? ≠ some 0 := fun hlast ↦ h.1 (List.mem_of_getLast? hlast)
    rw [cgiRead, hscript, Option.map_some, List.foldl_cons, StringT.create_append _ hlast,
      foldl_append_eq h.2, List.flatten_cons]
  refine ⟨_, by rw [hread, Option.bind_some, StringT.buffer_fromBufferWithLength], ?_⟩
  rw [HttpT.connectionWrite, take_strlen, cString_append_zero, cString_eq_self h]

/-- The answer is what was read exactly when that is a text. -/
private theorem responses_answerCGI_iff {context : Context} {reads : List (List UInt8)}
    (hscript : context.script.output = some reads) (hreads : [] ∉ reads) (rounds : ℕ)
    (request : HttpT) :
    responses (answerCGI context rounds request) = [(0, reads.flatten)] ↔
      reads.flatten ≠ [] ∧ 0 ∉ reads.flatten := by
  constructor
  · intro h
    have hmem : Effect.response 0 reads.flatten ∈ (answerCGI context rounds request).events :=
      mem_responses.mp (h ▸ List.mem_singleton_self _)
    unfold answerCGI at hmem
    split at hmem
    · -- a page has another code
      have hpage := all_returnPage (P := fun effect ↦ ∃ bytes, effect = .response 500 bytes)
        (fun bytes ↦ ⟨bytes, rfl⟩) request (PageT.create500 rounds
          (StringT.fromBuffer (ascii "Unable to build response."))) (requestPath request)
      obtain ⟨bytes, he⟩ := hpage _ hmem
      cases he
    · next buffer hbuffer =>
      rw [events_emit, events_attempt_of_nil (fun _ ↦ rfl), List.mem_singleton] at hmem
      injection hmem with _ hsent
      constructor
      · intro hnil
        have hne : reads ≠ [] := fun he ↦ by
          rw [(buffer_cgiRead hscript).mpr he] at hbuffer
          cases hbuffer
        obtain ⟨bytes, rest, rfl⟩ := List.exists_cons_of_ne_nil hne
        rw [List.flatten_cons, List.append_eq_nil_iff] at hnil
        exact hreads (hnil.1 ▸ List.mem_cons_self)
      · rw [hsent, HttpT.connectionWrite, take_strlen]
        exact zero_notMem_cString buffer
  · rintro ⟨hne, hzero⟩
    have hreads : reads ≠ [] := fun he ↦ hne (by rw [he, List.flatten_nil])
    obtain ⟨buffer, hbuffer, hsent⟩ := connectionWrite_cgiRead hscript hreads hzero
    rw [responses, answerCGI, hbuffer]
    dsimp only
    rw [events_emit, events_attempt_of_nil (fun _ ↦ rfl), hsent]
    rfl

variable {context : Context} {sites : List SiteT} {traffic : Traffic} {socket : SocketT}

/-- A script that is read to its end is answered with, and with nothing else than, what it writes
when it is given the body and a NUL, exactly when this is not empty and has no NUL. The order in
which the worker and the script have run, the sizes of the reads and the delays are not seen. -/
theorem handleConnection_scriptOutput_iff
    (request : ScriptRequest context sites traffic socket) {capacity : ℕ}
    {script : Program UInt8} {turns : List Turn} {e : Exchange}
    (hrun : exec (Exchange.step capacity) (.start request.body script) turns = .ok e)
    {reads : List (List UInt8)} (hanswered : e.worker = .answered reads)
    (hspawns : context.script.spawns = true) (houtput : context.script.output = some reads)
    (rounds : ℕ) :
    responses (handleConnection context (plainReader traffic) rounds socket) =
        [(0, script.output (request.body ++ [0]))] ↔
      script.output (request.body ++ [0]) ≠ [] ∧ 0 ∉ script.output (request.body ++ [0]) := by
  have hconsistent := (followed hrun).consistent
  rw [Consistent, hanswered] at hconsistent
  obtain ⟨hflatten, hreads⟩ := hconsistent
  obtain ⟨environment, request', hevents⟩ := request.events_handleConnection
  have hresponses : responses (handleConnection context (plainReader traffic) rounds socket) =
      responses (answerCGI context rounds request') := by
    rw [responses, responses, hevents, hspawns, if_neg (by decide)]
    rfl
  rw [hresponses, ← hflatten]
  exact responses_answerCGI_iff houtput hreads rounds request'

/-- A script that repeats the first byte of its input. -/
def firstByte : Program UInt8 := .read fun first ↦ .write (first.getD 63) .exit

/-- The script waits for the worker, and the worker then for the script. -/
def firstByteTurns : List Turn :=
  [.worker, .worker, .worker, .worker, .timeout, .script, .timeout, .script, .worker, .script,
    .worker]

omit [FreshBytes] in
theorem handleConnection_firstByte :
    ∃ form : @ScriptRequest FreshBytes.zero (formContext ⟨true, fun _ ↦ 65536, some [[104]]⟩)
        [plainSite] formTraffic ⟨0, 0⟩, ∀ rounds,
      responses (@handleConnection FreshBytes.zero _
        (formContext ⟨true, fun _ ↦ 65536, some [[104]]⟩) (plainReader formTraffic) rounds
        ⟨0, 0⟩) =
          [(0, firstByte.output (@ScriptRequest.body FreshBytes.zero _ _ _ _ form ++ [0]))] := by
  let _ := FreshBytes.zero
  obtain ⟨form, hbody⟩ := exists_formRequest ⟨true, fun _ ↦ 65536, some [[104]]⟩
  refine ⟨form, fun rounds ↦ ?_⟩
  have hrun : exec (Exchange.step 4) (.start form.body firstByte) firstByteTurns =
      .ok ⟨.answered [[104]], [105, 0], [], [], none⟩ := by
    rw [hbody]
    rfl
  refine (handleConnection_scriptOutput_iff form hrun rfl rfl rfl rounds).mpr ?_
  rw [hbody]
  decide

end Wsic.Worker
