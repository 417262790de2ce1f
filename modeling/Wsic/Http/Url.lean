import Wsic.Lib.Transition
import Wsic.Http.UrlT
import Wsic.DataStructures.HashTableMap
import Wsic.Path.Path

/-!
# Well-formed URLs

A URL is well formed when its path and all keys and values of its parameters are there.
Then nothing that is done with the URL of a request follows a null pointer: `src/url/url.c`
copies and prints it, its path is resolved below a root directory, and in the end it is freed.
-/

open CMemory Transition

namespace Wsic

/-- The string is there and has a buffer. -/
def NonNull (s : Option StringT) : Prop := ∃ t, s = some t ∧ t.buffer ≠ none

theorem nonNull_fromBufferWithLength (b : List UInt8) :
    NonNull (some (StringT.fromBufferWithLength b)) := ⟨_, rfl, Option.some_ne_none _⟩

theorem nonNull_fromInt [FreshBytes] (number : Int) : NonNull (some (StringT.fromInt number)) :=
  ⟨_, rfl, StringT.buffer_fromInt number⟩

namespace UrlT

/-- The path is there, and so are the key and the value of every parameter. -/
structure WellFormed (url : UrlT) : Prop where
  path : NonNull url.path
  parameters : ∃ visited table, url.parameters.iterate = .ok (visited, table) ∧
    ∀ parameter ∈ visited, NonNull parameter.1 ∧ NonNull parameter.2.join

/-- One use of the URL of a request. -/
inductive Use where
  | copy
  | toString
  | resolve (fs : FileSystem) (root : CanonicalPath)

/-- The URL after a use of it. -/
def use [FreshBytes] (url : UrlT) : Use → Checked UrlT
  | .copy => Prod.snd <$> url.copy
  | .toString => Prod.snd <$> url.toString
  | .resolve fs root => do
    let path ← deref url.path
    let _ ← Path.resolve fs path (StringT.fromBuffer root.1)
    return url

/-- Any uses of the URL, in any order, and then freeing it follow no null pointer. -/
def Usable [FreshBytes] (url : UrlT) : Prop :=
  ∀ uses, ∃ url', exec use url uses = .ok url' ∧ url'.free = .ok ()

/-- A parameter of the table with its value. -/
def HasValues (m : HashTableT.Map (Option StringT)) : Prop := ∀ e ∈ m.entries, NonNull e.value

theorem key_nonNull {table : HashTableT (Option StringT)} {m : HashTableT.Map (Option StringT)}
    (h : table.Represents m) {e : HashTableEntryT (Option StringT)} (he : e ∈ m.entries) :
    NonNull (some e.key) := by
  refine ⟨e.key, rfl, ?_⟩
  intro hb
  have hk := h.2 e he
  rw [HashTableT.keyHash, hb] at hk
  cases hk

/-- With a table that represents a map, well-formedness is about the map. -/
theorem wellFormed_iff {url : UrlT} {m : HashTableT.Map (Option StringT)}
    (h : url.parameters.Represents m) : url.WellFormed ↔ NonNull url.path ∧ HasValues m := by
  obtain ⟨table, hit, -⟩ := h.iterate
  constructor
  · rintro ⟨hp, visited, table', hit', hv⟩
    refine ⟨hp, ?_⟩
    intro e he
    rw [hit] at hit'
    cases hit'
    exact (hv _ (List.mem_map.mpr ⟨e, he, rfl⟩)).2
  · rintro ⟨hp, hv⟩
    refine ⟨hp, _, table, hit, ?_⟩
    intro parameter hm
    obtain ⟨e, he, rfl⟩ := List.mem_map.mp hm
    exact ⟨key_nonNull h he, hv e he⟩

/-- Setting a parameter sets the entry of its key. -/
theorem setParameter_spec {url : UrlT} {m : HashTableT.Map (Option StringT)}
    (h : url.parameters.Represents m) (key : HashTableT.Key) (value : Option StringT) :
    ∃ table, url.setParameter (some key.1) value = .ok { url with parameters := table } ∧
      table.Represents (m.set (HashTableT.entryOf key value)) := by
  obtain ⟨table, he, hr⟩ := h.setValue key value
  refine ⟨table, ?_, hr⟩
  rw [setParameter, deref_some, checked_ok_bind, he]
  rfl

/-! ### Uses of a well-formed URL -/

theorem copyParameters_ok {url : UrlT} {m : HashTableT.Map (Option StringT)}
    (h : url.parameters.Represents m)
    (visited : List (Option StringT × Option (Option StringT)))
    (hv : ∀ parameter ∈ visited, NonNull parameter.1 ∧ NonNull parameter.2.join) :
    ∃ result, visited.foldlM copyParameter url = .ok result := by
  induction visited generalizing url m with
  | nil => exact ⟨url, rfl⟩
  | cons parameter visited ih =>
    obtain ⟨⟨key, hkey, -⟩, ⟨value, hvalue, -⟩⟩ := hv parameter List.mem_cons_self
    obtain ⟨table, he, hr⟩ := setParameter_spec h ⟨key.copy, Option.some_ne_none _⟩
      (some value.copy)
    rw [List.foldlM_cons, copyParameter, hkey, deref_some, checked_ok_bind, hvalue, deref_some,
      checked_ok_bind, he, checked_ok_bind]
    exact ih hr (fun p hp ↦ hv p (List.mem_cons_of_mem _ hp))

theorem append_ok [FreshBytes] (s : StringT) {t : Option StringT} {u : StringT} (h : NonNull t)
    (hu : t = some u) : ∃ result, s.append u = .ok result := by
  obtain ⟨t', ht, hb⟩ := h
  rw [hu] at ht
  cases ht
  obtain ⟨b, hb⟩ := Option.ne_none_iff_exists'.mp hb
  exact ⟨_, by rw [StringT.append, hb, deref_some, checked_ok_bind]; rfl⟩

private theorem appendParameters_ok [FreshBytes] (result : StringT)
    (visited : List (Option StringT × Option (Option StringT)))
    (hv : ∀ parameter ∈ visited, NonNull parameter.1 ∧ NonNull parameter.2.join) :
    ∃ s, appendParameters result visited = .ok s := by
  induction visited generalizing result with
  | nil => exact ⟨result, rfl⟩
  | cons parameter visited ih =>
    obtain ⟨key, value⟩ := parameter
    obtain ⟨hkey, hvalue⟩ := hv (key, value) List.mem_cons_self
    obtain ⟨k, rfl, -⟩ := id hkey
    obtain ⟨v, hv', -⟩ := id hvalue
    obtain ⟨r₁, h₁⟩ := append_ok result hkey rfl
    obtain ⟨r₂, h₂⟩ := append_ok (r₁.appendChar 61) hvalue hv'
    rw [appendParameters, deref_some, checked_ok_bind, h₁, checked_ok_bind]
    dsimp only at hv' ⊢
    rw [hv', deref_some, checked_ok_bind, h₂, checked_ok_bind]
    exact ih _ (fun p hp ↦ hv p (List.mem_cons_of_mem _ hp))

theorem appendUnlessNull_ok [FreshBytes] (s : StringT) {t : Option StringT}
    (h : t = none ∨ NonNull t) : ∃ result, appendUnlessNull s t = .ok result := by
  cases t with
  | none => exact ⟨s, rfl⟩
  | some t =>
    rcases h with h | h
    · cases h
    · exact append_ok s h rfl

theorem freeValues_ok {visited : List (StringT × Option (Option StringT))}
    (h : ∀ entry ∈ visited, entry.2.join ≠ none) : freeValues visited = .ok () := by
  induction visited with
  | nil => rfl
  | cons entry visited ih =>
    obtain ⟨value, hvalue⟩ := Option.ne_none_iff_exists'.mp (h entry List.mem_cons_self)
    rw [freeValues, hvalue]
    exact ih (fun e he ↦ h e (List.mem_cons_of_mem _ he))

/-- A URL whose values are there is freed. -/
theorem free_of_hasValues {url : UrlT} {m : HashTableT.Map (Option StringT)}
    (h : url.parameters.Represents m) (hm : HasValues m) : url.free = .ok () := by
  obtain ⟨table, hdrain, -⟩ := h.drain
  rw [UrlT.free, hdrain, checked_ok_bind]
  apply freeValues_ok
  intro entry hentry
  obtain ⟨e, he, rfl⟩ := List.mem_map.mp hentry
  obtain ⟨value, hvalue, -⟩ := hm e he
  exact Option.ne_none_iff_exists'.mpr ⟨value, hvalue⟩

/-- What the uses of a URL rely on and keep. -/
structure Intact (url : UrlT) (m : HashTableT.Map (Option StringT)) : Prop where
  represents : url.parameters.Represents m
  values : HasValues m
  path : NonNull url.path
  protocol : url.protocol = none ∨ NonNull url.protocol
  domainName : url.domainName = none ∨ NonNull url.domainName

namespace Intact

variable {url : UrlT} {m : HashTableT.Map (Option StringT)}

/-- Iterating moves the cursor of the table and visits keys and values that are there. -/
private theorem iterate (h : Intact url m) :
    ∃ visited table, url.parameters.iterate = .ok (visited, table) ∧
      Intact { url with parameters := table } m ∧
      ∀ parameter ∈ visited, NonNull parameter.1 ∧ NonNull parameter.2.join := by
  obtain ⟨table, hit, hrep⟩ := h.represents.iterate
  refine ⟨_, table, hit, ⟨hrep, h.values, h.path, h.protocol, h.domainName⟩, ?_⟩
  intro parameter hm
  obtain ⟨e, he, rfl⟩ := List.mem_map.mp hm
  exact ⟨key_nonNull h.represents he, h.values e he⟩

theorem copy (h : Intact url m) : ∃ newUrl url', url.copy = .ok (newUrl, url') ∧ Intact url' m := by
  obtain ⟨visited, table, hit, hintact, hvisited⟩ := h.iterate
  let newUrl : UrlT := { create with
    protocol := url.protocol.map StringT.copy
    domainName := url.domainName.map StringT.copy
    port := url.port
    path := url.path.map StringT.copy }
  have hnew : newUrl.parameters.Represents KeyedList.empty := HashTableT.represents_create
  obtain ⟨copied, hcopy⟩ := copyParameters_ok hnew visited hvisited
  refine ⟨copied, { url with parameters := table }, ?_, hintact⟩
  rw [UrlT.copy, hit, checked_ok_bind]
  dsimp only
  rw [hcopy]
  rfl

theorem toString [FreshBytes] (h : Intact url m) :
    ∃ result url', url.toString = .ok (result, url') ∧ Intact url' m := by
  obtain ⟨visited, table, hit, hintact, hvisited⟩ := h.iterate
  obtain ⟨r₁, h₁⟩ := appendUnlessNull_ok StringT.create h.protocol
  obtain ⟨r₂, h₂⟩ := appendUnlessNull_ok
    (if url.protocol.isNone then r₁ else r₁.appendBuffer (ascii "://")) h.domainName
  obtain ⟨r₃, h₃⟩ : ∃ r₃, appendPort r₂ url.port = .ok r₃ := by
    unfold appendPort
    split
    · exact append_ok _ (nonNull_fromInt _) rfl
    · exact ⟨r₂, rfl⟩
  obtain ⟨r₄, h₄⟩ := appendUnlessNull_ok r₃ (.inr h.path)
  obtain ⟨r₅, h₅⟩ := appendParameters_ok
    (if url.parameters.getLength > 0 then r₄.appendChar 63 else r₄) visited hvisited
  refine ⟨r₅, { url with parameters := table }, ?_, hintact⟩
  simp only [UrlT.toString, h₁, h₂, h₃, h₄, hit, h₅, checked_ok_bind]
  rfl

/-- A path that is there is resolved without a fault, below whatever root. -/
theorem resolve [FreshBytes] (h : Intact url m) (fs : FileSystem) (root : CanonicalPath) :
    url.use (.resolve fs root) = .ok url := by
  obtain ⟨path, hpath, hbuffer⟩ := h.path
  obtain ⟨b, hb⟩ := Option.ne_none_iff_exists'.mp hbuffer
  have hcstr : path.cstr = .ok (cString b) := by rw [StringT.cstr, hb]; rfl
  rw [use, hpath, deref_some, checked_ok_bind, Path.resolve_eq, hcstr, checked_ok_map]
  rfl

theorem free (h : Intact url m) : url.free = .ok () := free_of_hasValues h.represents h.values

theorem use [FreshBytes] (h : Intact url m) (u : Use) :
    ∃ url', url.use u = .ok url' ∧ Intact url' m := by
  cases u with
  | copy =>
    obtain ⟨newUrl, url', he, h'⟩ := h.copy
    exact ⟨url', by rw [UrlT.use, he]; rfl, h'⟩
  | toString =>
    obtain ⟨result, url', he, h'⟩ := h.toString
    exact ⟨url', by rw [UrlT.use, he]; rfl, h'⟩
  | resolve fs root => exact ⟨url, h.resolve fs root, h⟩

/-- Nothing that is done with an intact URL follows a null pointer. -/
theorem usable [FreshBytes] (h : Intact url m) : url.Usable := by
  intro uses
  obtain ⟨url', he, h'⟩ := exec_of_invariant (P := (Intact · m)) h (fun _ u h ↦ h.use u) uses
  exact ⟨url', he, h'.free⟩

end Intact

end UrlT
end Wsic
