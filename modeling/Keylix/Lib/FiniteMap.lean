import Mathlib

/-!
# Finite maps

A finite map from keys to values with at most one entry a key: lookup, insertion, removal and the
removal of every entry that fails a test. The entries are kept in a list, and the structure carries
the proof that no key occurs twice, so that the number of entries is the length of the list.

The lookup equations determine the map up to the order of its entries.
-/

set_option autoImplicit false

namespace Keylix.Lib

/-- A finite map: a list of entries with pairwise different keys. -/
structure FiniteMap (κ β : Type) where
  entries : List (κ × β)
  nodup : (entries.map Prod.fst).Nodup

namespace FiniteMap

variable {κ β : Type}

/-- The map without entries. -/
def empty : FiniteMap κ β := ⟨[], List.nodup_nil⟩

/-- The number of entries. -/
def size (m : FiniteMap κ β) : Nat := m.entries.length

/-- The keys, in the order of the entries. -/
def keys (m : FiniteMap κ β) : List κ := m.entries.map Prod.fst

/-- The map of the entries that pass the test. -/
def retain (m : FiniteMap κ β) (p : κ → β → Bool) : FiniteMap κ β :=
  ⟨m.entries.filter fun e => p e.1 e.2, m.nodup.sublist (List.filter_sublist.map Prod.fst)⟩

@[simp] theorem size_empty : (empty : FiniteMap κ β).size = 0 := rfl

theorem size_retain_le (m : FiniteMap κ β) (p : κ → β → Bool) : (m.retain p).size ≤ m.size :=
  List.length_filter_le _ _

section DecidableKeys

variable [DecidableEq κ]

/-- The value of a key. -/
def lookup (m : FiniteMap κ β) (k : κ) : Option β :=
  (m.entries.find? fun e => e.1 = k).map Prod.snd

/-- Membership of a key. -/
def contains (m : FiniteMap κ β) (k : κ) : Bool := (m.lookup k).isSome

/-- The map without the entry of `k`. -/
def erase (m : FiniteMap κ β) (k : κ) : FiniteMap κ β := m.retain fun k' _ => k' ≠ k

/-- The map with the value of `k` set to `v`. -/
def insert (m : FiniteMap κ β) (k : κ) (v : β) : FiniteMap κ β :=
  ⟨(k, v) :: (m.erase k).entries, by
    refine List.nodup_cons.2 ⟨?_, (m.erase k).nodup⟩
    simp [erase, retain]⟩

/-! ## Membership and lookup -/

theorem lookup_eq_some_iff {m : FiniteMap κ β} {k : κ} {v : β} :
    m.lookup k = some v ↔ (k, v) ∈ m.entries := by
  obtain ⟨l, hl⟩ := m
  simp only [lookup]
  induction l with
  | nil => simp
  | cons e l ih =>
    obtain ⟨k', v'⟩ := e
    simp only [List.map_cons, List.nodup_cons] at hl
    by_cases hk : k' = k
    · subst hk
      have hnot : (k', v) ∉ l := fun hmem => hl.1 (List.mem_map_of_mem hmem)
      simp [hnot, eq_comm]
    · simp [hk, Ne.symm hk, ih hl.2]

theorem lookup_eq_none_iff {m : FiniteMap κ β} {k : κ} :
    m.lookup k = none ↔ k ∉ m.keys := by
  rw [lookup, Option.map_eq_none_iff, List.find?_eq_none, keys, List.mem_map]
  constructor
  · rintro h ⟨e, he, rfl⟩
    simpa using h e he
  · rintro h e he
    simpa using fun hk => h ⟨e, he, hk⟩

theorem mem_keys_iff {m : FiniteMap κ β} {k : κ} : k ∈ m.keys ↔ ∃ v, m.lookup k = some v := by
  rw [← not_iff_not, ← lookup_eq_none_iff]
  cases m.lookup k <;> simp

@[simp] theorem lookup_empty (k : κ) : (empty : FiniteMap κ β).lookup k = none := rfl

@[simp] theorem lookup_retain (m : FiniteMap κ β) (p : κ → β → Bool) (k : κ) :
    (m.retain p).lookup k = (m.lookup k).filter (p k) := by
  apply Option.ext
  intro v
  rw [Option.filter_eq_some_iff, lookup_eq_some_iff, lookup_eq_some_iff, retain, List.mem_filter]

theorem lookup_erase (m : FiniteMap κ β) (k k' : κ) :
    (m.erase k).lookup k' = if k' = k then none else m.lookup k' := by
  rw [erase, lookup_retain]
  by_cases hk : k' = k
  · cases m.lookup k' <;> simp [hk]
  · cases m.lookup k' <;> simp [hk]

theorem lookup_insert (m : FiniteMap κ β) (k k' : κ) (v : β) :
    (m.insert k v).lookup k' = if k' = k then some v else m.lookup k' := by
  by_cases hk : k' = k
  · subst hk
    simp [insert, lookup]
  · have herase := lookup_erase m k k'
    rw [if_neg hk] at herase
    rw [if_neg hk, ← herase]
    simp [insert, lookup, Ne.symm hk]

/-- A partial function with finitely many keys is the lookup of a map. -/
theorem exists_lookup_eq (keys : List κ) (f : κ → Option β) (h : ∀ k, f k ≠ none → k ∈ keys) :
    ∃ m : FiniteMap κ β, ∀ k, m.lookup k = f k := by
  induction keys generalizing f with
  | nil =>
    refine ⟨empty, ?_⟩
    intro k
    by_contra hne
    exact absurd (h k (Ne.symm hne)) List.not_mem_nil
  | cons key keys ih =>
    -- the rest of the function without the first key
    obtain ⟨m, hm⟩ := ih (fun k => if k = key then none else f k) (by
      intro k hk
      by_cases hkey : k = key
      · simp [hkey] at hk
      · simp only [if_neg hkey] at hk
        exact (List.mem_cons.1 (h k hk)).resolve_left hkey)
    cases hv : f key with
    | none =>
      refine ⟨m, ?_⟩
      intro k
      rw [hm]
      split
      · next hkey => rw [hkey, hv]
      · rfl
    | some v =>
      refine ⟨m.insert key v, ?_⟩
      intro k
      rw [lookup_insert, hm]
      split
      · next hkey => rw [hkey, hv]
      · rfl

/-! ## Size -/

theorem erase_of_lookup_none {m : FiniteMap κ β} {k : κ} (h : m.lookup k = none) :
    m.erase k = m := by
  obtain ⟨l, hl⟩ := m
  rw [lookup_eq_none_iff] at h
  simp only [erase, retain, mk.injEq, List.filter_eq_self, decide_eq_true_eq]
  rintro e he rfl
  exact h (List.mem_map_of_mem he)

/-- A new key adds one entry. -/
theorem size_insert_of_lookup_none {m : FiniteMap κ β} {k : κ} (v : β) (h : m.lookup k = none) :
    (m.insert k v).size = m.size + 1 := by
  simp [insert, size, erase_of_lookup_none h]

/-- A known key keeps the number of entries. -/
theorem size_insert_of_lookup_some {m : FiniteMap κ β} {k : κ} {old : β} (v : β)
    (h : m.lookup k = some old) : (m.insert k v).size = m.size := by
  obtain ⟨l, hl⟩ := m
  rw [lookup_eq_some_iff] at h
  simp only [insert, erase, retain, size, List.length_cons]
  induction l with
  | nil => cases h
  | cons e l ih =>
    obtain ⟨k', v'⟩ := e
    simp only [List.map_cons, List.nodup_cons] at hl
    by_cases hk : k' = k
    · -- the other entries have other keys
      subst hk
      have hall : ∀ e ∈ l, decide (e.1 ≠ k') = true := by
        intro e he
        refine decide_eq_true fun hke => hl.1 ?_
        rw [← hke]
        exact List.mem_map_of_mem he
      rw [List.filter_cons_of_neg (by simp), List.filter_eq_self.2 hall]
      rfl
    · have hmem : (k, old) ∈ l := by
        rcases List.mem_cons.1 h with he | he
        · exact absurd (congrArg Prod.fst he).symm hk
        · exact he
      rw [List.filter_cons_of_pos (by simpa using hk), List.length_cons, ih hl.2 hmem]
      rfl

end DecidableKeys

end FiniteMap

end Keylix.Lib
