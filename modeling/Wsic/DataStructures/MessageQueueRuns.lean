import Mathlib.Data.Finset.Card
import Wsic.Lib.Transition
import Wsic.DataStructures.MessageQueueT
import Wsic.DataStructures.RingOps

/-!
# Runs of the message queue

All interleavings of the steps of `src/datastructures/message-queue/message-queue.c` by any
threads. Values come out exactly once and in order, nothing comes out after the unlock, and
no wake-up is lost: while a consumer is blocked, every queued value has a woken consumer of
its own on the way to it.
-/

open CMemory Transition

namespace Wsic.MessageQueueT

variable {T V : Type}

/-! ### What one step does -/

/-- One round of a pop on a queue that holds `vs`: with the flag set it leaves the queue,
otherwise it takes the first value. -/
def RoundOn (queue : MessageQueueT V) (vs : List (Option V)) (round : Round V)
    (queue' : MessageQueueT V) (vs' : List (Option V)) : Prop :=
  queue'.unlocked = queue.unlocked ∧
    ((queue.unlocked = true ∧ round = .unlocked ∧ vs' = vs) ∨
      (queue.unlocked = false ∧ round = .removed vs.head? ∧ vs' = vs.tail))

theorem popRound_spec {queue : MessageQueueT V} {vs : List (Option V)} (h : queue.list.Holds vs) :
    ∃ round queue' vs', queue.popRound = .ok (round, queue') ∧ queue'.list.Holds vs' ∧
      RoundOn queue vs round queue' vs' := by
  unfold popRound
  split
  · next hu => exact ⟨.unlocked, queue, vs, rfl, h, rfl, .inl ⟨hu, rfl, rfl⟩⟩
  · next hu =>
    obtain ⟨list, he, hh⟩ := h.removeFront
    rw [he, checked_ok_bind]
    exact ⟨_, _, vs.tail, rfl, hh, rfl, .inr ⟨by simpa using hu, rfl, rfl⟩⟩

/-- The check at the start of a pop is the one that the loop makes first. -/
theorem pop_eq_popRound (queue : MessageQueueT V) : queue.pop = queue.popRound := by
  unfold pop popRound
  split <;> rfl

namespace System

/-- What a step makes of a system whose queue holds `vs`. -/
def StepOn [DecidableEq T] (s : System T V) (vs : List (Option V)) (s' : System T V)
    (vs' : List (Option V)) : Label T V → Prop
  | .push _ value signalled => vs' = vs ++ [value] ∧ s'.queue.unlocked = s.queue.unlocked ∧
      s'.waiting = s.waiting \ signalled ∧ s'.woken = s.woken ∪ signalled ∧
      s'.log = s.log ++ [.pushed value]
  | .pop t | .resume t => ∃ round, RoundOn s.queue vs round s'.queue vs' ∧
      s' = s.afterRound t (round, s'.queue)
  | .spurious t => vs' = vs ∧
      s' = { s with waiting := s.waiting.erase t, woken := insert t s.woken }
  | .unlock _ => vs' = vs ∧ s'.queue.unlocked = true ∧ s'.waiting = ∅ ∧
      s'.log = s.log ++ [.unlocked]

/-- Every step succeeds on a queue that holds a sequence. -/
theorem step_spec [DecidableEq T] {s : System T V} {vs : List (Option V)}
    (h : s.queue.list.Holds vs) (l : Label T V) : ∃ s' vs', step s l = .ok s' ∧
      s'.queue.list.Holds vs' ∧ StepOn s vs s' vs' l := by
  cases l with
  | push t value signalled =>
    obtain ⟨list, he, hh, -⟩ := h.addValue value
    refine ⟨⟨{ s.queue with list := list }, s.waiting \ signalled, s.woken ∪ signalled,
      s.log ++ [.pushed value]⟩, vs ++ [value], ?_, hh, rfl, rfl, rfl, rfl, rfl⟩
    rw [step, push, he]
    rfl
  | pop t =>
    obtain ⟨round, queue', vs', he, hh, hr⟩ := popRound_spec h
    refine ⟨s.afterRound t (round, queue'), vs', ?_, hh, round, hr, rfl⟩
    rw [step, pop_eq_popRound, he]
    rfl
  | spurious t => exact ⟨_, vs, rfl, h, rfl, rfl⟩
  | resume t =>
    obtain ⟨round, queue', vs', he, hh, hr⟩ := popRound_spec h
    refine ⟨s.afterRound t (round, queue'), vs', ?_, hh, round, hr, rfl⟩
    rw [step, he]
    rfl
  | unlock t => exact ⟨_, vs, rfl, h, rfl, rfl, rfl, rfl⟩

end System

/-! ### Exactly once and in order -/

/-- Every round of a pop after the unlock returns null and takes nothing. -/
def NothingAfterUnlock (log : List (Event T V)) : Prop :=
  ∀ before after, log = before ++ .unlocked :: after → ∀ t round, .round t round ∈ after →
    round.waits = false ∧ round.value = none ∧ round.taken = none

/-- The values pushed are the values removed by pops followed by those in the queue, the
pops return what they remove, no pushed value is returned twice, and after the unlock
every pop returns null and takes nothing. -/
structure ExactlyOnce (s : System T V) : Prop where
  inOrder : ∃ vs, s.queue.list.Holds vs ∧
    pushedValues s.log = removedValues s.log ++ vs.reduceOption
  returned : (returns s.log).filterMap Prod.snd = removedValues s.log
  once : (pushedValues s.log).Nodup → ((returns s.log).filterMap Prod.snd).Nodup
  afterUnlock : NothingAfterUnlock s.log

/-- A pop returns what its last round took. -/
theorem filterMap_returns (log : List (Event T V)) :
    (returns log).filterMap Prod.snd = removedValues log := by
  rw [returns, removedValues, List.filterMap_filterMap]
  congr 1
  funext e
  cases e with
  | pushed value => rfl
  | unlocked => rfl
  | round t round =>
    cases round with
    | unlocked => rfl
    | removed taken =>
      cases taken with
      | none => rfl
      | some value => cases value <;> rfl

theorem nothingAfterUnlock_concat {log : List (Event T V)} {e : Event T V}
    (h : NothingAfterUnlock log)
    (he : .unlocked ∈ log → ∀ t round, e = .round t round → round = .unlocked) :
    NothingAfterUnlock (log ++ [e]) := by
  intro before after heq t round hm
  rcases List.eq_nil_or_concat' after with rfl | ⟨after, e', rfl⟩
  · exact absurd hm List.not_mem_nil
  · rw [← List.cons_append, ← List.append_assoc] at heq
    obtain ⟨hlog, hlast⟩ := List.append_singleton_inj.mp heq
    rcases List.mem_append.mp hm with hm | hm
    · exact h before after hlog t round hm
    · have hu : Event.unlocked ∈ log := by simp [hlog]
      rw [he hu t round (by rw [hlast, ← List.mem_singleton.mp hm])]
      exact ⟨rfl, rfl, rfl⟩

/-- The invariant behind `ExactlyOnce`. -/
structure Ordered (s : System T V) (vs : List (Option V)) : Prop where
  holds : s.queue.list.Holds vs
  inOrder : pushedValues s.log = removedValues s.log ++ vs.reduceOption
  flag : .unlocked ∈ s.log → s.queue.unlocked = true
  afterUnlock : NothingAfterUnlock s.log

theorem pushedValues_concat (log : List (Event T V)) (e : Event T V) :
    pushedValues (log ++ [e]) = pushedValues log ++ pushedValues [e] := List.filterMap_append

theorem removedValues_concat (log : List (Event T V)) (e : Event T V) :
    removedValues (log ++ [e]) = removedValues log ++ removedValues [e] := List.filterMap_append

private theorem reduceOption_singleton (value : Option V) :
    [value].reduceOption = pushedValues [(.pushed value : Event T V)] := by
  cases value <;> rfl

private theorem reduceOption_split (t : T) (vs : List (Option V)) :
    vs.reduceOption = removedValues [.round t (.removed vs.head?)] ++ vs.tail.reduceOption := by
  cases vs with
  | nil => rfl
  | cons v vs => cases v <;> rfl

variable [DecidableEq T]

private theorem Ordered.round {s s' : System T V} {vs vs' : List (Option V)} (h : Ordered s vs)
    (hh : s'.queue.list.Holds vs') {t : T} {round : Round V}
    (hr : RoundOn s.queue vs round s'.queue vs') (hs : s' = s.afterRound t (round, s'.queue)) :
    Ordered s' vs' := by
  have hlog : s'.log = s.log ++ [.round t round] := by
    rw [hs]
    rfl
  have hpushed : pushedValues s'.log = pushedValues s.log := by
    rw [hlog, pushedValues_concat]
    exact List.append_nil _
  obtain ⟨hflag, hcase⟩ := hr
  refine ⟨hh, ?_, ?_, ?_⟩
  · rw [hpushed, h.inOrder, hlog, removedValues_concat]
    rcases hcase with ⟨-, rfl, rfl⟩ | ⟨-, rfl, rfl⟩
    · exact congrArg (· ++ _) (List.append_nil _).symm
    · rw [List.append_assoc, ← reduceOption_split]
  · intro hm
    rw [hlog] at hm
    rw [hflag]
    rcases List.mem_append.mp hm with hm | hm
    · exact h.flag hm
    · cases List.mem_singleton.mp hm
  · rw [hlog]
    apply nothingAfterUnlock_concat h.afterUnlock
    intro hm t' round' he
    cases he
    rcases hcase with ⟨-, rfl, -⟩ | ⟨hu, -, -⟩
    · rfl
    · rw [h.flag hm] at hu
      cases hu

/-- Every step keeps the order. -/
theorem Ordered.step {s s' : System T V} {vs vs' : List (Option V)} {l : Label T V}
    (h : Ordered s vs) (hh : s'.queue.list.Holds vs') (hs : s.StepOn vs s' vs' l) :
    Ordered s' vs' := by
  cases l with
  | push t value signalled =>
    obtain ⟨rfl, hflag, -, -, hlog⟩ := hs
    refine ⟨hh, ?_, ?_, ?_⟩
    · rw [hlog, pushedValues_concat, removedValues_concat, h.inOrder, List.reduceOption_append,
        reduceOption_singleton (T := T)]
      simp [removedValues]
    · intro hm
      rw [hlog] at hm
      rw [hflag]
      exact h.flag (by simpa using hm)
    · rw [hlog]
      exact nothingAfterUnlock_concat h.afterUnlock (fun _ _ _ he ↦ by cases he)
  | pop t =>
    obtain ⟨round, hr, hs⟩ := hs
    exact h.round hh hr hs
  | resume t =>
    obtain ⟨round, hr, hs⟩ := hs
    exact h.round hh hr hs
  | spurious t =>
    obtain ⟨rfl, rfl⟩ := hs
    exact ⟨hh, h.inOrder, h.flag, h.afterUnlock⟩
  | unlock t =>
    obtain ⟨rfl, hflag, -, hlog⟩ := hs
    refine ⟨hh, ?_, fun _ ↦ hflag, ?_⟩
    · rw [hlog, pushedValues_concat, removedValues_concat, h.inOrder]
      simp [removedValues, pushedValues]
    · rw [hlog]
      exact nothingAfterUnlock_concat h.afterUnlock (fun _ _ _ he ↦ by cases he)

/-- In every interleaving of enabled steps the queue works, and hands out every value
exactly once and in order. -/
theorem runs_exactlyOnce (schedule : List (Label T V))
    (h : Guarded System.step System.Enabled System.create schedule) :
    ∃ s, exec System.step System.create schedule = .ok s ∧ ExactlyOnce s := by
  have hinit : ∃ vs, Ordered (System.create : System T V) vs := by
    refine ⟨[], ListT.holds_create, rfl, fun hm ↦ absurd hm List.not_mem_nil, ?_⟩
    intro before after heq
    exact absurd heq (by simp [System.create])
  have hstep (s : System T V) (l : Label T V) (hi : ∃ vs, Ordered s vs) (_ : s.Enabled l) :
      ∃ s', System.step s l = .ok s' ∧ ∃ vs, Ordered s' vs := by
    obtain ⟨vs, hi⟩ := hi
    obtain ⟨s', vs', he, hh, hs⟩ := System.step_spec hi.holds l
    exact ⟨s', he, vs', hi.step hh hs⟩
  obtain ⟨s, he, vs, hi⟩ := exec_of_guarded (P := fun s ↦ ∃ vs, Ordered s vs) hinit hstep h
  refine ⟨s, he, ⟨vs, hi.holds, hi.inOrder⟩, filterMap_returns s.log, ?_, hi.afterUnlock⟩
  intro hnodup
  rw [filterMap_returns]
  rw [hi.inOrder] at hnodup
  exact (List.nodup_append.mp hnodup).1

/-- A consumer waits, is woken by a push, and finds that another one took the value. -/
theorem runs_exactlyOnce_stolen :
    ∃ s : System Nat Nat, exec System.step System.create
      [.pop 1, .push 0 (some 7) {1}, .pop 2, .resume 1, .unlock 0, .resume 1] = .ok s ∧
      ExactlyOnce s := by
  apply runs_exactlyOnce
  refine guarded_cons.mpr ⟨by decide, ?_⟩
  rintro _ ⟨⟩
  refine guarded_cons.mpr ⟨by decide, ?_⟩
  rintro _ ⟨⟩
  refine guarded_cons.mpr ⟨by decide, ?_⟩
  rintro _ ⟨⟩
  refine guarded_cons.mpr ⟨by decide, ?_⟩
  rintro _ ⟨⟩
  refine guarded_cons.mpr ⟨by decide, ?_⟩
  rintro _ ⟨⟩
  exact guarded_cons.mpr ⟨by decide, fun _ _ ↦ guarded_nil⟩

/-! ### No lost wake-up -/

/-- A push of a value that is not null. -/
def Label.PushesValue : Label T V → Prop
  | .push _ value _ => value ≠ none
  | _ => True

/-- The invariant behind the wake-ups: waiting and woken threads are different ones, only
values are queued, and while a thread waits the flag is not set and every queued value
has a woken thread of its own. -/
structure Awake (s : System T V) (vs : List (Option V)) : Prop where
  holds : s.queue.list.Holds vs
  disjoint : Disjoint s.waiting s.woken
  values : none ∉ vs
  enough : s.waiting.Nonempty → s.queue.unlocked = false ∧ vs.length ≤ s.woken.card

private theorem Awake.round {s s' : System T V} {vs vs' : List (Option V)} (h : Awake s vs)
    (hh : s'.queue.list.Holds vs') {t : T} {round : Round V}
    (hr : RoundOn s.queue vs round s'.queue vs') (hs : s' = s.afterRound t (round, s'.queue)) :
    Awake s' vs' := by
  have hwoken : s'.woken = s.woken.erase t := by
    rw [hs]
    rfl
  have hwaiting : s'.waiting = if round.waits then insert t s.waiting else s.waiting := by
    rw [hs]
    rfl
  have hdisjoint : Disjoint s.waiting (s.woken.erase t) :=
    h.disjoint.mono_right (Finset.erase_subset _ _)
  obtain ⟨hflag, hcase⟩ := hr
  rcases hcase with ⟨hu, rfl, rfl⟩ | ⟨hu, rfl, rfl⟩
  · -- The flag is set, so no thread waits.
    refine ⟨hh, by rwa [hwaiting, hwoken], h.values, ?_⟩
    intro hne
    rw [hwaiting] at hne
    rw [(h.enough hne).1] at hu
    cases hu
  · cases vs with
    | nil =>
      refine ⟨hh, ?_, h.values, fun _ ↦ ⟨by rw [hflag, hu], Nat.zero_le _⟩⟩
      rw [hwaiting, hwoken, show (Round.removed ([] : List (Option V)).head?).waits = true from rfl,
        if_pos rfl, Finset.disjoint_insert_left]
      exact ⟨Finset.notMem_erase _ _, hdisjoint⟩
    | cons v vs =>
      obtain ⟨x, rfl⟩ : ∃ x, v = some x := Option.ne_none_iff_exists'.mp
        (fun hv ↦ h.values (hv ▸ List.mem_cons_self))
      have hstay : s'.waiting = s.waiting := hwaiting
      refine ⟨hh, by rwa [hstay, hwoken], fun hm ↦ h.values (List.mem_cons_of_mem _ hm), ?_⟩
      intro hne
      rw [hstay] at hne
      refine ⟨by rw [hflag, hu], ?_⟩
      have hcard := (h.enough hne).2
      have herase := Finset.pred_card_le_card_erase (s := s.woken) (a := t)
      rw [List.length_cons] at hcard
      rw [hwoken, List.tail_cons]
      omega

private theorem Awake.push {s s' : System T V} {vs : List (Option V)} {value : Option V}
    {signalled : Finset T} (h : Awake s vs) (hh : s'.queue.list.Holds (vs ++ [value]))
    (hvalue : value ≠ none) (hsub : signalled ⊆ s.waiting)
    (hsignal : s.waiting.Nonempty → signalled.Nonempty)
    (hflag : s'.queue.unlocked = s.queue.unlocked) (hwaiting : s'.waiting = s.waiting \ signalled)
    (hwoken : s'.woken = s.woken ∪ signalled) : Awake s' (vs ++ [value]) := by
  have hdisjoint : Disjoint s.woken signalled := (h.disjoint.mono_left hsub).symm
  refine ⟨hh, ?_, ?_, ?_⟩
  · rw [hwaiting, hwoken, Finset.disjoint_union_right]
    exact ⟨h.disjoint.mono_left Finset.sdiff_subset, Finset.sdiff_disjoint⟩
  · intro hm
    rcases List.mem_append.mp hm with hm | hm
    · exact h.values hm
    · exact hvalue (List.mem_singleton.mp hm).symm
  · intro hne
    rw [hwaiting] at hne
    have hne' : s.waiting.Nonempty := hne.mono Finset.sdiff_subset
    obtain ⟨hu, hcard⟩ := h.enough hne'
    have hpos := (hsignal hne').card_pos
    refine ⟨by rw [hflag, hu], ?_⟩
    rw [hwoken, Finset.card_union_of_disjoint hdisjoint, List.length_append,
      List.length_singleton]
    omega

/-- Every step keeps enough threads awake, as long as only values are pushed. -/
theorem Awake.step {s s' : System T V} {vs vs' : List (Option V)} {l : Label T V}
    (h : Awake s vs) (hh : s'.queue.list.Holds vs') (he : s.Enabled l) (hv : l.PushesValue)
    (hs : s.StepOn vs s' vs' l) : Awake s' vs' := by
  cases l with
  | push t value signalled =>
    obtain ⟨rfl, hflag, hwaiting, hwoken, -⟩ := hs
    obtain ⟨-, hsub, hsignal⟩ := he
    exact h.push hh hv hsub hsignal hflag hwaiting hwoken
  | pop t =>
    obtain ⟨round, hr, hs⟩ := hs
    exact h.round hh hr hs
  | resume t =>
    obtain ⟨round, hr, hs⟩ := hs
    exact h.round hh hr hs
  | spurious t =>
    obtain ⟨rfl, rfl⟩ := hs
    have ht : t ∉ s.woken := Finset.disjoint_left.mp h.disjoint he
    refine ⟨hh, ?_, h.values, ?_⟩
    · rw [Finset.disjoint_insert_right]
      exact ⟨Finset.notMem_erase _ _, h.disjoint.mono_left (Finset.erase_subset _ _)⟩
    · intro hne
      obtain ⟨hu, hcard⟩ := h.enough (hne.mono (Finset.erase_subset _ _))
      refine ⟨hu, ?_⟩
      rw [Finset.card_insert_of_notMem ht]
      omega
  | unlock t =>
    obtain ⟨rfl, -, hwaiting, -⟩ := hs
    refine ⟨hh, by rw [hwaiting]; exact Finset.disjoint_empty_left _, h.values, ?_⟩
    intro hne
    rw [hwaiting] at hne
    exact absurd hne Finset.not_nonempty_empty

/-- In every interleaving in which only values are pushed: while a consumer is blocked the
queue is not unlocked and holds at most as many values as there are woken consumers, so
not all consumers are blocked on a queue that has something for them. -/
theorem runs_noLostWakeup (schedule : List (Label T V))
    (h : Guarded System.step (fun s l ↦ s.Enabled l ∧ l.PushesValue) System.create schedule) :
    ∃ s vs, exec System.step System.create schedule = .ok s ∧ s.queue.list.Holds vs ∧
      (s.waiting.Nonempty → s.queue.unlocked = false ∧ vs.length ≤ s.woken.card) ∧
      (vs ≠ [] ∨ s.queue.unlocked = true → s.waiting.Nonempty → s.woken.Nonempty) := by
  have hinit : ∃ vs, Awake (System.create : System T V) vs :=
    ⟨[], ListT.holds_create, Finset.disjoint_empty_left _, List.not_mem_nil,
      fun hne ↦ absurd hne Finset.not_nonempty_empty⟩
  have hstep (s : System T V) (l : Label T V) (hi : ∃ vs, Awake s vs)
      (hg : s.Enabled l ∧ l.PushesValue) :
      ∃ s', System.step s l = .ok s' ∧ ∃ vs, Awake s' vs := by
    obtain ⟨vs, hi⟩ := hi
    obtain ⟨s', vs', he, hh, hs⟩ := System.step_spec hi.holds l
    exact ⟨s', he, vs', hi.step hh hg.1 hg.2 hs⟩
  obtain ⟨s, he, vs, hi⟩ := exec_of_guarded (P := fun s ↦ ∃ vs, Awake s vs) hinit hstep h
  refine ⟨s, vs, he, hi.holds, hi.enough, ?_⟩
  intro hsome hne
  obtain ⟨hu, hcard⟩ := hi.enough hne
  rcases hsome with hvs | hvs
  · have hpos := List.length_pos_of_ne_nil hvs
    exact Finset.card_pos.mp (by omega)
  · rw [hu] at hvs
    cases hvs

/-- A consumer is blocked while a woken one has not come back for the pushed value. -/
theorem runs_noLostWakeup_two :
    ∃ (s : System Nat Nat) (vs : List (Option Nat)), exec System.step System.create
      [.pop 1, .pop 2, .push 0 (some 7) {1}] = .ok s ∧ s.queue.list.Holds vs ∧
      (s.waiting.Nonempty → s.queue.unlocked = false ∧ vs.length ≤ s.woken.card) ∧
      (vs ≠ [] ∨ s.queue.unlocked = true → s.waiting.Nonempty → s.woken.Nonempty) := by
  apply runs_noLostWakeup
  refine guarded_cons.mpr ⟨⟨by decide, trivial⟩, ?_⟩
  rintro _ ⟨⟩
  refine guarded_cons.mpr ⟨⟨by decide, trivial⟩, ?_⟩
  rintro _ ⟨⟩
  exact guarded_cons.mpr ⟨⟨by decide, Option.some_ne_none 7⟩, fun _ _ ↦ guarded_nil⟩

end Wsic.MessageQueueT
