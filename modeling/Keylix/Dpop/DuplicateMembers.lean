import Keylix.Dpop.ProofText

/-!
# Repeated member names

`rejectDuplicateJsonMembers` lets the JSON parser drive a visitor over the document. Here the
visitor is written as it is driven: it visits the elements of an array one by one and the members of
an object one by one, with the set of the names it has seen in that object.

`Json.Within` says where a value stands in a document. `rejectDuplicateJsonMembers_iff` says that a
document is accepted if and only if no object that stands anywhere in it repeats a name.
-/

set_option autoImplicit false

namespace Keylix.Lib.Json

/-- A value stands in a document: it is the document, or it stands in an element of an array or in
the value of a member. -/
inductive Within : Json → Json → Prop where
  | refl (j : Json) : Within j j
  | item {j x : Json} {xs : List Json} (hx : x ∈ xs) (h : Within j x) : Within j (.arr xs)
  | member {j v : Json} {k : Bytes} {ms : List (Bytes × Json)} (hm : (k, v) ∈ ms)
      (h : Within j v) : Within j (.obj ms)

/-- No object of a document repeats a name. -/
def NoRepeatedNames (j : Json) : Prop :=
  ∀ ms, Within (.obj ms) j → (ms.map Prod.fst).Nodup

mutual

/-- Induction over a document: the values without parts, the arrays and the objects. -/
theorem parts_induction {P : Json → Prop}
    (leaf : ∀ j, (∀ xs, j ≠ .arr xs) → (∀ ms, j ≠ .obj ms) → P j)
    (arr : ∀ xs, (∀ x ∈ xs, P x) → P (.arr xs))
    (obj : ∀ ms, (∀ m ∈ ms, P m.2) → P (.obj ms)) : (j : Json) → P j
  | .null => leaf _ (by simp) (by simp)
  | .bool _ => leaf _ (by simp) (by simp)
  | .int _ => leaf _ (by simp) (by simp)
  | .float _ => leaf _ (by simp) (by simp)
  | .str _ => leaf _ (by simp) (by simp)
  | .arr xs => arr xs (items_induction leaf arr obj xs)
  | .obj ms => obj ms (members_induction leaf arr obj ms)
termination_by structural j => j

theorem items_induction {P : Json → Prop}
    (leaf : ∀ j, (∀ xs, j ≠ .arr xs) → (∀ ms, j ≠ .obj ms) → P j)
    (arr : ∀ xs, (∀ x ∈ xs, P x) → P (.arr xs))
    (obj : ∀ ms, (∀ m ∈ ms, P m.2) → P (.obj ms)) : (xs : List Json) → ∀ x ∈ xs, P x
  | [] => by simp
  | x :: xs => List.forall_mem_cons.2
      ⟨parts_induction leaf arr obj x, items_induction leaf arr obj xs⟩
termination_by structural xs => xs

theorem member_induction {P : Json → Prop}
    (leaf : ∀ j, (∀ xs, j ≠ .arr xs) → (∀ ms, j ≠ .obj ms) → P j)
    (arr : ∀ xs, (∀ x ∈ xs, P x) → P (.arr xs))
    (obj : ∀ ms, (∀ m ∈ ms, P m.2) → P (.obj ms)) : (m : Bytes × Json) → P m.2
  | (_, v) => parts_induction leaf arr obj v
termination_by structural m => m

theorem members_induction {P : Json → Prop}
    (leaf : ∀ j, (∀ xs, j ≠ .arr xs) → (∀ ms, j ≠ .obj ms) → P j)
    (arr : ∀ xs, (∀ x ∈ xs, P x) → P (.arr xs))
    (obj : ∀ ms, (∀ m ∈ ms, P m.2) → P (.obj ms)) :
    (ms : List (Bytes × Json)) → ∀ m ∈ ms, P m.2
  | [] => by simp
  | m :: ms => List.forall_mem_cons.2
      ⟨member_induction leaf arr obj m, members_induction leaf arr obj ms⟩
termination_by structural ms => ms

end

theorem noRepeatedNames_arr {xs : List Json} :
    NoRepeatedNames (.arr xs) ↔ ∀ x ∈ xs, NoRepeatedNames x := by
  constructor
  · intro h x hx ms hms
    exact h ms (.item hx hms)
  · intro h ms hms
    cases hms with
    | item hx hms => exact h _ hx ms hms

theorem noRepeatedNames_obj {ms : List (Bytes × Json)} :
    NoRepeatedNames (.obj ms) ↔
      (ms.map Prod.fst).Nodup ∧ ∀ m ∈ ms, NoRepeatedNames m.2 := by
  constructor
  · intro h
    exact ⟨h ms (.refl _), fun m hm ms' hms' => h ms' (.member hm hms')⟩
  · rintro ⟨hnodup, h⟩ ms' hms'
    cases hms' with
    | refl => exact hnodup
    | member hm hms' => exact h _ hm ms' hms'

/-- Values that are no arrays and no objects have no object in them. -/
theorem noRepeatedNames_of_leaf {j : Json} (harr : ∀ xs, j ≠ .arr xs) (hobj : ∀ ms, j ≠ .obj ms) :
    NoRepeatedNames j := by
  intro ms hms
  cases hms with
  | refl => exact absurd rfl (hobj ms)
  | item hx hms => exact absurd rfl (harr _)
  | member hm hms => exact absurd rfl (hobj _)

end Keylix.Lib.Json

namespace Keylix.Dpop

open Keylix.Lib

/-! ## The visitor -/

namespace UniqueJson

mutual

/-- The visitor on a value. Of the values without parts it accepts every one. -/
def deserialize : Json → Except Bytes Unit
  | .null => .ok ()
  | .bool _ => .ok ()
  | .int _ => .ok ()
  | .float _ => .ok ()
  | .str _ => .ok ()
  | .arr xs => visitSeq xs
  | .obj ms => visitMap ms []
termination_by structural j => j

/-- Every element is visited. -/
def visitSeq : List Json → Except Bytes Unit
  | [] => .ok ()
  | x :: xs => do
      deserialize x
      visitSeq xs
termination_by structural xs => xs

def nextValue : Bytes × Json → Except Bytes Unit
  | (_, v) => deserialize v
termination_by structural m => m

/-- Every member is visited, with the names seen before it. -/
def visitMap : List (Bytes × Json) → List Bytes → Except Bytes Unit
  | [], _ => .ok ()
  | m :: ms, seen =>
      if seen.contains m.1 then .error (ascii "duplicate JSON member")
      else do
        nextValue m
        visitMap ms (m.1 :: seen)
termination_by structural ms => ms

end

/-! ## What it accepts -/

theorem andThen_eq_ok_iff {ε : Type} {x y : Except ε Unit} :
    (do x; y) = .ok () ↔ x = .ok () ∧ y = .ok () := by
  rw [bind_eq_ok_iff]
  constructor
  · rintro ⟨u, hx, hy⟩
    exact ⟨hx, hy⟩
  · rintro ⟨hx, hy⟩
    exact ⟨(), hx, hy⟩

/-- The members of an object: none has a name that was seen before, and every value is accepted. -/
theorem visitMap_eq_ok_iff (ms : List (Bytes × Json)) (seen : List Bytes) :
    visitMap ms seen = .ok () ↔
      (ms.map Prod.fst).Nodup ∧ (∀ m ∈ ms, m.1 ∉ seen) ∧ ∀ m ∈ ms, deserialize m.2 = .ok () := by
  induction ms generalizing seen with
  | nil => simp [visitMap]
  | cons m ms ih =>
    obtain ⟨k, v⟩ := m
    rw [visitMap, List.map_cons, List.nodup_cons, List.forall_mem_cons, List.forall_mem_cons]
    by_cases hseen : k ∈ seen
    · simp [hseen]
    · rw [if_neg (by simpa using hseen), andThen_eq_ok_iff, ih, nextValue]
      constructor
      · rintro ⟨hv, hnodup, hnew, hvalues⟩
        refine ⟨⟨?_, hnodup⟩, ⟨hseen, fun m hm hms => hnew m hm (List.mem_cons_of_mem _ hms)⟩, hv,
          hvalues⟩
        intro hk
        obtain ⟨m, hm, hmk⟩ := List.mem_map.1 hk
        exact hnew m hm (hmk ▸ List.mem_cons_self)
      · rintro ⟨⟨hk, hnodup⟩, ⟨-, hnew⟩, hv, hvalues⟩
        refine ⟨hv, hnodup, fun m hm hms => ?_, hvalues⟩
        rcases List.mem_cons.1 hms with hmk | hms
        · exact hk (hmk ▸ List.mem_map_of_mem hm)
        · exact hnew m hm hms

theorem visitSeq_eq_ok_iff (xs : List Json) :
    visitSeq xs = .ok () ↔ ∀ x ∈ xs, deserialize x = .ok () := by
  induction xs with
  | nil => simp [visitSeq]
  | cons x xs ih => rw [visitSeq, andThen_eq_ok_iff, ih, List.forall_mem_cons]

/-- The visitor accepts the documents without repeated names. -/
theorem deserialize_eq_ok_iff (j : Json) : deserialize j = .ok () ↔ j.NoRepeatedNames := by
  induction j using Json.parts_induction with
  | leaf j harr hobj =>
    refine iff_of_true ?_ (Json.noRepeatedNames_of_leaf harr hobj)
    cases j with
    | arr xs => exact absurd rfl (harr xs)
    | obj ms => exact absurd rfl (hobj ms)
    | _ => rfl
  | arr xs ih =>
    rw [deserialize, visitSeq_eq_ok_iff, Json.noRepeatedNames_arr]
    exact forall₂_congr ih
  | obj ms ih =>
    rw [deserialize, visitMap_eq_ok_iff, Json.noRepeatedNames_obj]
    have hvalues : (∀ m ∈ ms, deserialize m.2 = .ok ()) ↔ ∀ m ∈ ms, m.2.NoRepeatedNames :=
      forall₂_congr ih
    rw [hvalues]
    exact and_congr_right fun _ => and_iff_right fun _ _ => List.not_mem_nil

end UniqueJson

/-- The visitor and the test for repeated names agree. -/
theorem uniqueJson_iff_deserialize (j : Json) :
    uniqueJson j = true ↔ UniqueJson.deserialize j = .ok () := by
  have hitems : ∀ xs : List Json, uniqueItems xs = true ↔ ∀ x ∈ xs, uniqueJson x = true := by
    intro xs
    induction xs with
    | nil => simp [uniqueItems]
    | cons x xs ih => simp [uniqueItems, ih]
  rw [UniqueJson.deserialize_eq_ok_iff]
  induction j using Json.parts_induction with
  | leaf j harr hobj =>
    refine iff_of_true ?_ (Json.noRepeatedNames_of_leaf harr hobj)
    cases j with
    | arr xs => exact absurd rfl (harr xs)
    | obj ms => exact absurd rfl (hobj ms)
    | _ => rfl
  | arr xs ih =>
    rw [uniqueJson, hitems, Json.noRepeatedNames_arr]
    exact forall₂_congr ih
  | obj ms ih =>
    rw [uniqueJson, Bool.and_eq_true, decide_eq_true_eq, uniqueMembers_iff,
      Json.noRepeatedNames_obj]
    exact and_congr_right fun _ => forall₂_congr ih

/-- **A document is accepted if and only if no object in it, at any depth, repeats a name.** -/
theorem rejectDuplicateJsonMembers_iff (json : JsonText) {input : Bytes} {j : Json}
    (hparse : json.parse input = some j) :
    (rejectDuplicateJsonMembers json input = .ok () ↔ UniqueJson.deserialize j = .ok ()) ∧
      (rejectDuplicateJsonMembers json input = .ok () ↔
        ∀ ms, Json.Within (.obj ms) j → (ms.map Prod.fst).Nodup) := by
  have hvisitor : rejectDuplicateJsonMembers json input = .ok () ↔
      UniqueJson.deserialize j = .ok () := by
    rw [← uniqueJson_iff_deserialize, rejectDuplicateJsonMembers_eq_ok_iff, hparse]
    simp
  exact ⟨hvisitor, hvisitor.trans (UniqueJson.deserialize_eq_ok_iff j)⟩

/-- A document in which a name is repeated deep inside, in another spelling. -/
def repeatedText : Bytes := ascii "\x7b\"a\":[0,[\x7b\"b\":1,\"\\u0062\":2\x7d]]\x7d"

/-- Equal elements, and equal names in different objects. -/
def distinctText : Bytes := ascii "\x7b\"a\":[\x7b\"a\":1\x7d,\x7b\"a\":1\x7d,1,1]\x7d"

theorem rejectDuplicateJsonMembers_iff_sample :
    (rejectDuplicateJsonMembers compactText repeatedText ≠ .ok () ∧
        ∃ j ms, compactText.parse repeatedText = some j ∧ Json.Within (.obj ms) j ∧
          ¬ (ms.map Prod.fst).Nodup) ∧
      rejectDuplicateJsonMembers compactText distinctText = .ok () := by
  have hrepeated : (compactText.parse repeatedText).map UniqueJson.deserialize =
      some (.error (ascii "duplicate JSON member")) := by decide +kernel
  have hdistinct : (compactText.parse distinctText).map UniqueJson.deserialize =
      some (.ok ()) := by decide +kernel
  obtain ⟨j, hj, hvisit⟩ := Option.map_eq_some_iff.1 hrepeated
  obtain ⟨k, hk, hvisit'⟩ := Option.map_eq_some_iff.1 hdistinct
  obtain ⟨hvisitor, hnames⟩ := rejectDuplicateJsonMembers_iff compactText hj
  have hrejected : rejectDuplicateJsonMembers compactText repeatedText ≠ .ok () := by
    rw [ne_eq, hvisitor, hvisit]
    simp
  refine ⟨⟨hrejected, ?_⟩, (rejectDuplicateJsonMembers_iff compactText hk).1.2 hvisit'⟩
  by_contra hnone
  push Not at hnone
  exact hrejected (hnames.2 fun ms hms => hnone j ms hj hms)

end Keylix.Dpop
