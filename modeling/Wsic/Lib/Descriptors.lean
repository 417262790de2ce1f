import Mathlib.Algebra.BigOperators.Group.Finset.Basic
import Mathlib.Data.List.Basic
import Mathlib.Data.Multiset.UnionInter

/-!
# File descriptors

General support: the table of a process from descriptor numbers to open files, in which a new
file gets the lowest number that is free, and programs that keep the numbers in variables. What
such a program holds is sound when every number in use still names the file that it was opened
for. Closing a number that is not one's own is the one call that can break this.
-/

namespace Descriptors

variable {F : Type}

/-- The table of a process: the open file behind each number, the free numbers being `none`. -/
structure Table (F : Type) where
  entries : List (Option F)
deriving DecidableEq

namespace Table

/-- The file behind a number. -/
def file (t : Table F) (n : ℕ) : Option F := (t.entries[n]?).join

/-- The number that the next file gets. -/
def lowest (t : Table F) : ℕ := t.entries.findIdx Option.isNone

/-- Let a number name a file, whatever it named before. -/
def install (t : Table F) (n : ℕ) (f : F) : Table F :=
  ⟨(t.entries ++ List.replicate (n + 1 - t.entries.length) none).set n (some f)⟩

/-- Open a file. -/
def alloc (t : Table F) (f : F) : Table F := t.install t.lowest f

/-- Free a number, used or not. -/
def close (t : Table F) (n : ℕ) : Table F := ⟨t.entries.set n none⟩

/-- Let `new` name the file of `old`; nothing happens when that is free. -/
def dup2 (t : Table F) (old new : ℕ) : Table F :=
  match t.file old with
  | some f => t.install new f
  | none => t

/-- All open descriptors. -/
def opened (t : Table F) : List (ℕ × F) :=
  (List.range t.entries.length).filterMap (fun n ↦ (t.file n).map (fun f ↦ (n, f)))

@[simp] theorem file_nil (n : ℕ) : (⟨[]⟩ : Table F).file n = none := rfl

theorem file_install (t : Table F) (n : ℕ) (f : F) (m : ℕ) :
    (t.install n f).file m = if m = n then some f else t.file m := by
  unfold file install
  rw [List.getElem?_set]
  by_cases hm : m = n
  · subst hm
    rw [if_pos rfl, if_pos rfl, if_pos (by simp; omega)]
    rfl
  · rw [if_neg (Ne.symm hm), if_neg hm, List.getElem?_append]
    split
    · rfl
    · next h =>
      rw [List.getElem?_eq_none (Nat.le_of_not_lt h), List.getElem?_replicate]
      split <;> rfl

@[simp] theorem file_install_self (t : Table F) (n : ℕ) (f : F) :
    (t.install n f).file n = some f := by
  rw [file_install, if_pos rfl]

theorem file_install_of_ne (t : Table F) {n m : ℕ} (f : F) (h : m ≠ n) :
    (t.install n f).file m = t.file m := by
  rw [file_install, if_neg h]

theorem file_close (t : Table F) (n m : ℕ) :
    (t.close n).file m = if m = n then none else t.file m := by
  unfold file close
  rw [List.getElem?_set]
  by_cases hm : m = n
  · subst hm
    rw [if_pos rfl, if_pos rfl]
    split <;> rfl
  · rw [if_neg (Ne.symm hm), if_neg hm]

@[simp] theorem file_close_self (t : Table F) (n : ℕ) : (t.close n).file n = none := by
  rw [file_close, if_pos rfl]

theorem file_close_of_ne (t : Table F) {n m : ℕ} (h : m ≠ n) :
    (t.close n).file m = t.file m := by
  rw [file_close, if_neg h]

/-- The number that a new file gets was free. -/
theorem file_lowest (t : Table F) : t.file t.lowest = none := by
  unfold file lowest
  by_cases h : t.entries.findIdx Option.isNone < t.entries.length
  · rw [List.getElem?_eq_getElem h]
    exact Option.isNone_iff_eq_none.mp (List.findIdx_getElem (w := h))
  · rw [List.getElem?_eq_none (Nat.le_of_not_lt h)]
    rfl

/-- No free number is lower. -/
theorem lowest_le {t : Table F} {n : ℕ} (h : t.file n = none) : t.lowest ≤ n := by
  unfold file at h
  by_contra hn
  have hlt : n < t.entries.findIdx Option.isNone := Nat.lt_of_not_le hn
  have hlen : n < t.entries.length := Nat.lt_of_lt_of_le hlt List.findIdx_le_length
  have hsome := List.not_of_lt_findIdx hlt
  rw [List.getElem?_eq_getElem hlen] at h
  simp_all

theorem file_dup2 {t : Table F} {old : ℕ} {f : F} (h : t.file old = some f) (new m : ℕ) :
    (t.dup2 old new).file m = if m = new then some f else t.file m := by
  unfold dup2
  rw [h]
  exact t.file_install new f m

theorem mem_opened {t : Table F} {n : ℕ} {f : F} : (n, f) ∈ t.opened ↔ t.file n = some f := by
  simp only [opened, List.mem_filterMap, List.mem_range, Option.map_eq_some_iff]
  constructor
  · rintro ⟨m, -, g, hg, he⟩
    cases he
    exact hg
  · intro h
    refine ⟨n, ?_, f, h, rfl⟩
    by_contra hn
    rw [file, List.getElem?_eq_none (Nat.le_of_not_lt hn)] at h
    cases h

private theorem map_fst_filterMap (t : Table F) (ns : List ℕ) :
    (ns.filterMap (fun n ↦ (t.file n).map (fun f ↦ (n, f)))).map Prod.fst =
      ns.filter (fun n ↦ (t.file n).isSome) := by
  induction ns with
  | nil => rfl
  | cons n ns ih => cases h : t.file n <;> simp [h, ih]

end Table

/-! ### Variables for descriptors -/

/-- A variable with a descriptor number, and the file that its owner has open under it. After
the owner has closed it, and before the variable is set, the number stands for nothing. -/
structure Slot (F : Type) where
  number : ℕ
  file : Option F
deriving DecidableEq

namespace Slot

/-- The number with its file, while it is open. -/
def held (slot : Slot F) : Multiset (ℕ × F) :=
  match slot.file with
  | some f => {(slot.number, f)}
  | none => 0

/-- Close the number of a variable. -/
def closed (slot : Slot F) : Slot F := { slot with file := none }

@[simp] theorem held_open (n : ℕ) (f : F) : (⟨n, some f⟩ : Slot F).held = {(n, f)} := rfl

@[simp] theorem held_stale (n : ℕ) : (⟨n, none⟩ : Slot F).held = 0 := rfl

@[simp] theorem held_closed (slot : Slot F) : slot.closed.held = 0 := rfl

theorem held_of_file_none {slot : Slot F} (h : slot.file = none) : slot.held = 0 := by
  unfold held
  rw [h]

end Slot

/-! ### What a program holds -/

/-- The numbers in use. -/
def numbers (held : Multiset (ℕ × F)) : Multiset ℕ := held.map Prod.fst

@[simp] theorem numbers_cons (p : ℕ × F) (held : Multiset (ℕ × F)) :
    numbers (p ::ₘ held) = p.1 ::ₘ numbers held := Multiset.map_cons _ _ _

@[simp] theorem numbers_add (held more : Multiset (ℕ × F)) :
    numbers (held + more) = numbers held + numbers more := Multiset.map_add _ _ _

/-- Every number in use names the file that it was opened for, and none is in use twice. -/
structure Sound (t : Table F) (held : Multiset (ℕ × F)) : Prop where
  nodup : (numbers held).Nodup
  file : ∀ p ∈ held, t.file p.1 = some p.2

namespace Sound

variable {t : Table F} {held : Multiset (ℕ × F)}

/-- A number in use is not free. -/
theorem file_ne_none (h : Sound t held) {n : ℕ} (hn : n ∈ numbers held) : t.file n ≠ none := by
  obtain ⟨p, hp, rfl⟩ := Multiset.mem_map.mp hn
  rw [h.file p hp]
  exact Option.some_ne_none _

theorem notMem_of_file_none (h : Sound t held) {n : ℕ} (hn : t.file n = none) :
    n ∉ numbers held := fun hm ↦ h.file_ne_none hm hn

/-- Opening a file keeps the rest. -/
theorem alloc (h : Sound t held) (f : F) : Sound (t.alloc f) ((t.lowest, f) ::ₘ held) := by
  have hfree : t.lowest ∉ numbers held := h.notMem_of_file_none t.file_lowest
  refine ⟨?_, fun p hp ↦ ?_⟩
  · rw [numbers_cons]
    exact Multiset.nodup_cons.mpr ⟨hfree, h.nodup⟩
  · rcases Multiset.mem_cons.mp hp with rfl | hp
    · exact t.file_install_self _ _
    · have hne : p.1 ≠ t.lowest := fun he ↦ hfree (he ▸ Multiset.mem_map_of_mem Prod.fst hp)
      exact (t.file_install_of_ne f hne).trans (h.file p hp)

/-- Closing a number breaks what is held exactly when the number is in use. -/
theorem close_iff (h : Sound t held) (n : ℕ) : Sound (t.close n) held ↔ n ∉ numbers held := by
  constructor
  · intro hs hn
    exact hs.file_ne_none hn (t.file_close_self n)
  · intro hn
    refine ⟨h.nodup, fun p hp ↦ ?_⟩
    have hne : p.1 ≠ n := fun he ↦ hn (he ▸ Multiset.mem_map_of_mem Prod.fst hp)
    exact (t.file_close_of_ne hne).trans (h.file p hp)

/-- What is no longer used does not matter. -/
theorem of_le {fewer : Multiset (ℕ × F)} (h : Sound t held) (hle : fewer ≤ held) :
    Sound t fewer :=
  ⟨Multiset.nodup_of_le (Multiset.map_le_map hle) h.nodup,
    fun p hp ↦ h.file p (Multiset.mem_of_le hle hp)⟩

/-- Closing one's own number keeps the rest. -/
theorem close_own {p : ℕ × F} (h : Sound t (p ::ₘ held)) : Sound (t.close p.1) held := by
  have hp : p.1 ∉ numbers held := by
    have hnodup := h.nodup
    rw [numbers_cons] at hnodup
    exact (Multiset.nodup_cons.mp hnodup).1
  exact ((h.of_le (Multiset.le_cons_self _ _)).close_iff p.1).mpr hp

end Sound

/-! ### What calls do -/

/-- What calls do to the table, to what is held and to what is open although no one holds it,
when every file that is closed is the caller's own. -/
inductive Change : Table F → Multiset (ℕ × F) → Multiset (ℕ × F) →
    Table F → Multiset (ℕ × F) → Multiset (ℕ × F) → Prop where
  | none (t : Table F) (held lost : Multiset (ℕ × F)) : Change t held lost t held lost
  | opens (t : Table F) (held lost : Multiset (ℕ × F)) (f : F) :
      Change t held lost (t.alloc f) ((t.lowest, f) ::ₘ held) lost
  | closes (t : Table F) (p : ℕ × F) (held lost : Multiset (ℕ × F)) :
      Change t (p ::ₘ held) lost (t.close p.1) held lost
  | loses (t : Table F) (p : ℕ × F) (held lost : Multiset (ℕ × F)) :
      Change t (p ::ₘ held) lost t held (p ::ₘ lost)
  | trans {t t' t'' : Table F} {held held' held'' lost lost' lost'' : Multiset (ℕ × F)} :
      Change t held lost t' held' lost' → Change t' held' lost' t'' held'' lost'' →
        Change t held lost t'' held'' lost''

/-- The table holds what is held and what is lost, and nothing else. -/
structure Balanced (t : Table F) (held lost : Multiset (ℕ × F)) : Prop where
  sound : Sound t (held + lost)
  complete : ∀ n f, t.file n = some f → (n, f) ∈ held + lost

/-- A table holds what is open in it. -/
theorem balanced_opened (t : Table F) : Balanced t ↑t.opened 0 := by
  refine ⟨?_, ?_⟩ <;> rw [add_zero]
  · refine ⟨?_, fun p hp ↦ Table.mem_opened.mp hp⟩
    rw [numbers, Multiset.map_coe, Multiset.coe_nodup, Table.opened, Table.map_fst_filterMap]
    exact List.nodup_range.filter _
  · exact fun n f h ↦ Table.mem_opened.mpr h

namespace Change

variable {t t' : Table F} {held held' lost lost' : Multiset (ℕ × F)}

theorem sound (h : Change t held lost t' held' lost') (hs : Sound t held) : Sound t' held' := by
  induction h with
  | none => exact hs
  | opens t held lost f => exact hs.alloc f
  | closes t p held lost => exact hs.close_own
  | loses t p held lost => exact hs.of_le (Multiset.le_cons_self _ _)
  | trans _ _ ih ih' => exact ih' (ih hs)

theorem balanced (h : Change t held lost t' held' lost') (hb : Balanced t held lost) :
    Balanced t' held' lost' := by
  induction h with
  | none => exact hb
  | opens t held lost f =>
    obtain ⟨hs, hc⟩ := hb
    refine ⟨by simpa only [Multiset.cons_add] using hs.alloc f, fun n g hn ↦ ?_⟩
    rw [Multiset.cons_add]
    rw [Table.alloc, Table.file_install] at hn
    split at hn
    · next he =>
      cases hn
      rw [he]
      exact Multiset.mem_cons_self _ _
    · exact Multiset.mem_cons_of_mem (hc n g hn)
  | closes t p held lost =>
    obtain ⟨hs, hc⟩ := hb
    rw [Multiset.cons_add] at hs
    refine ⟨hs.close_own, fun n g hn ↦ ?_⟩
    rw [Table.file_close] at hn
    split at hn
    · cases hn
    · next hne =>
      have hmem := hc n g hn
      rw [Multiset.cons_add] at hmem
      exact (Multiset.mem_cons.mp hmem).resolve_left (fun he ↦ hne (congrArg Prod.fst he))
  | loses t p held lost =>
    obtain ⟨hs, hc⟩ := hb
    rw [Multiset.cons_add, ← Multiset.add_cons] at hs hc
    exact ⟨hs, hc⟩
  | trans _ _ ih ih' => exact ih' (ih hb)

theorem of_eq (h : held = held') : Change t held lost t held' lost := h ▸ .none t held lost

/-- What others hold stays as it is. -/
theorem frame (h : Change t held lost t' held' lost') (others : Multiset (ℕ × F)) :
    Change t (held + others) lost t' (held' + others) lost' := by
  induction h with
  | none => exact .none _ _ _
  | opens t held lost f =>
    rw [Multiset.cons_add]
    exact .opens _ _ _ _
  | closes t p held lost =>
    rw [Multiset.cons_add]
    exact .closes _ _ _ _
  | loses t p held lost =>
    rw [Multiset.cons_add]
    exact .loses _ _ _ _
  | trans _ _ ih ih' => exact ih.trans ih'

end Change

/-- A family in which one member changes, as that member and the others. -/
theorem sum_eq_of_ne {ι β : Type} [Fintype ι] [DecidableEq ι] {f g : ι → Multiset β} {i : ι}
    (h : ∀ j, j ≠ i → g j = f j) : ∃ others, ∑ j, f j = f i + others ∧ ∑ j, g j = g i + others := by
  refine ⟨∑ j ∈ Finset.univ.erase i, f j, ?_, ?_⟩
  · exact (Finset.add_sum_erase _ _ (Finset.mem_univ i)).symm
  · rw [← Finset.add_sum_erase _ g (Finset.mem_univ i)]
    congr 1
    exact Finset.sum_congr rfl (fun j hj ↦ h j (Finset.ne_of_mem_erase hj))

/-- A number that is free can be closed. -/
theorem Balanced.close_free {t : Table F} {held lost : Multiset (ℕ × F)}
    (h : Balanced t held lost) {n : ℕ} (hn : t.file n = none) :
    Balanced (t.close n) held lost := by
  obtain ⟨hs, hc⟩ := h
  refine ⟨(hs.close_iff n).mpr (hs.notMem_of_file_none hn), fun m f hm ↦ ?_⟩
  rw [Table.file_close] at hm
  split at hm
  · cases hm
  · exact hc m f hm

end Descriptors
