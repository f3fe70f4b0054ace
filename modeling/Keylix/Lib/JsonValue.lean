import Keylix.Lib.JsonParser

/-!
# Stored values and records

What the stored form of a value keeps, and what a record type reads from a value.

* A stored object has the members of the object that was read, ordered by name (`mem_toOrdered`).
* A value that was read is written and read again up to its floating-point numbers, which may lose
  precision (`JsonText.Rereads`).
* The field of a record is a member of the object, when no two members share a name
  (`fieldOfMembers_eq_some_iff`).
-/

set_option autoImplicit false

namespace Keylix.Lib

namespace Json

/-! ## Members -/

/-- The members are in strict order of their names. -/
def Ordered (ms : List (Bytes × Json)) : Prop := (ms.map Prod.fst).Pairwise (· < ·)

theorem ordered_nil : Ordered [] := List.Pairwise.nil

theorem Ordered.nodup {ms : List (Bytes × Json)} (h : Ordered ms) : (ms.map Prod.fst).Nodup := by
  refine List.Pairwise.imp ?_ h
  rintro a b hab rfl
  exact List.lt_irrefl a hab

/-- Setting a member sets it and keeps the others. -/
theorem mem_insertMember {k : Bytes} {v : Json} {ms : List (Bytes × Json)} (h : Ordered ms)
    {m : Bytes × Json} :
    m ∈ insertMember k v ms ↔ m = (k, v) ∨ m.1 ≠ k ∧ m ∈ ms := by
  induction ms with
  | nil => simp [insertMember]
  | cons m' ms ih =>
    obtain ⟨k', v'⟩ := m'
    obtain ⟨hfirst, hrest⟩ := List.pairwise_cons.1 h
    have hlater : ∀ x ∈ ms, k' < x.1 := fun x hx => hfirst x.1 (List.mem_map_of_mem hx)
    unfold insertMember
    split
    · next hk =>
      subst hk
      have hne : ∀ x ∈ ms, x.1 ≠ k := fun x hx he => List.lt_irrefl k (he ▸ hlater x hx)
      constructor
      · intro hm
        rcases List.mem_cons.1 hm with rfl | hm
        · exact Or.inl rfl
        · exact Or.inr ⟨hne m hm, List.mem_cons_of_mem _ hm⟩
      · rintro (rfl | ⟨hmk, hm⟩)
        · exact List.mem_cons_self
        · rcases List.mem_cons.1 hm with rfl | hm
          · exact absurd rfl hmk
          · exact List.mem_cons_of_mem _ hm
    · next hk =>
      split
      · next hlt =>
        -- the name is below every name of the list
        have hne : ∀ x ∈ (k', v') :: ms, x.1 ≠ k := by
          intro x hx he
          rcases List.mem_cons.1 hx with rfl | hx
          · exact hk he.symm
          · exact List.lt_irrefl k (List.lt_trans hlt (he ▸ hlater x hx))
        constructor
        · intro hm
          rcases List.mem_cons.1 hm with rfl | hm
          · exact Or.inl rfl
          · exact Or.inr ⟨hne m hm, hm⟩
        · rintro (rfl | ⟨-, hm⟩)
          · exact List.mem_cons_self
          · exact List.mem_cons_of_mem _ hm
      · rw [List.mem_cons, ih hrest, List.mem_cons]
        constructor
        · rintro (rfl | rfl | ⟨hmk, hm⟩)
          · exact Or.inr ⟨Ne.symm hk, Or.inl rfl⟩
          · exact Or.inl rfl
          · exact Or.inr ⟨hmk, Or.inr hm⟩
        · rintro (rfl | ⟨hmk, rfl | hm⟩)
          · exact Or.inr (Or.inl rfl)
          · exact Or.inl rfl
          · exact Or.inr (Or.inr ⟨hmk, hm⟩)

theorem ordered_insertMember {k : Bytes} {v : Json} {ms : List (Bytes × Json)} (h : Ordered ms) :
    Ordered (insertMember k v ms) := by
  induction ms with
  | nil => simp [insertMember, Ordered]
  | cons m' ms ih =>
    obtain ⟨k', v'⟩ := m'
    obtain ⟨hfirst, hrest⟩ := List.pairwise_cons.1 h
    unfold insertMember
    split
    · next hk =>
      subst hk
      exact h
    · next hk =>
      split
      · next hlt =>
        refine List.pairwise_cons.2 ⟨?_, h⟩
        intro name hname
        rcases List.mem_cons.1 hname with rfl | hname
        · exact hlt
        · exact List.lt_trans hlt (hfirst name hname)
      · next hnot =>
        refine List.pairwise_cons.2 ⟨?_, ih hrest⟩
        intro name hname
        obtain ⟨m, hm, rfl⟩ := List.mem_map.1 hname
        rcases (mem_insertMember hrest).1 hm with rfl | ⟨-, hm⟩
        · exact Std.lt_of_le_of_ne hnot (Ne.symm hk)
        · exact hfirst m.1 (List.mem_map_of_mem hm)

theorem ordered_toOrdered {ms acc : List (Bytes × Json)} (h : Ordered acc) :
    Ordered (toOrdered ms acc) := by
  induction ms generalizing acc with
  | nil => exact h
  | cons m ms ih => exact ih (ordered_insertMember h)

/-- The stored members of an object without repeated names. -/
theorem mem_toOrdered {ms acc : List (Bytes × Json)} (h : (ms.map Prod.fst).Nodup)
    (hacc : Ordered acc) {k : Bytes} {v : Json} :
    (k, v) ∈ toOrdered ms acc ↔
      (∃ read, (k, read) ∈ ms ∧ v = read.toValue) ∨ k ∉ ms.map Prod.fst ∧ (k, v) ∈ acc := by
  induction ms generalizing acc with
  | nil => simp [toOrdered]
  | cons m ms ih =>
    obtain ⟨k', read'⟩ := m
    obtain ⟨hnot, hnodup⟩ := List.nodup_cons.1 h
    rw [toOrdered, ih hnodup (ordered_insertMember hacc), mem_insertMember hacc]
    simp only [toValueMember, Prod.mk.injEq, List.mem_cons, List.map_cons, not_or]
    constructor
    · rintro (⟨read, hread, rfl⟩ | ⟨hk, ⟨rfl, rfl⟩ | ⟨hne, hm⟩⟩)
      · exact Or.inl ⟨read, Or.inr hread, rfl⟩
      · exact Or.inl ⟨read', Or.inl ⟨rfl, rfl⟩, rfl⟩
      · exact Or.inr ⟨⟨hne, hk⟩, hm⟩
    · rintro (⟨read, ⟨rfl, rfl⟩ | hread, rfl⟩ | ⟨⟨hne, hk⟩, hm⟩)
      · exact Or.inr ⟨hnot, Or.inl ⟨rfl, rfl⟩⟩
      · exact Or.inl ⟨read, hread, rfl⟩
      · exact Or.inr ⟨hk, Or.inr ⟨hne, hm⟩⟩

theorem toValues_eq_map (xs : List Json) : toValues xs = xs.map toValue := by
  induction xs with
  | nil => rfl
  | cons x xs ih => rw [toValues, ih, List.map_cons]

/-! ## Values up to floating-point numbers -/

mutual

/-- The value without the texts of its floating-point numbers. -/
def withoutFloats : Json → Json
  | .float _ => .float []
  | .arr xs => .arr (withoutFloatsItems xs)
  | .obj ms => .obj (withoutFloatsMembers ms)
  | j => j
termination_by structural j => j

def withoutFloatsItems : List Json → List Json
  | [] => []
  | x :: xs => withoutFloats x :: withoutFloatsItems xs
termination_by structural xs => xs

def withoutFloatsMember : Bytes × Json → Bytes × Json
  | (k, v) => (k, withoutFloats v)
termination_by structural m => m

def withoutFloatsMembers : List (Bytes × Json) → List (Bytes × Json)
  | [] => []
  | m :: ms => withoutFloatsMember m :: withoutFloatsMembers ms
termination_by structural ms => ms

end

theorem withoutFloatsItems_eq_map (xs : List Json) :
    withoutFloatsItems xs = xs.map withoutFloats := by
  induction xs with
  | nil => rfl
  | cons x xs ih => rw [withoutFloatsItems, ih, List.map_cons]

theorem withoutFloatsMembers_eq_map (ms : List (Bytes × Json)) :
    withoutFloatsMembers ms = ms.map fun m => (m.1, withoutFloats m.2) := by
  induction ms with
  | nil => rfl
  | cons m ms ih => rw [withoutFloatsMembers, ih, List.map_cons, withoutFloatsMember]

theorem names_of_withoutFloats {ms ms' : List (Bytes × Json)}
    (h : withoutFloatsMembers ms = withoutFloatsMembers ms') :
    ms.map Prod.fst = ms'.map Prod.fst := by
  rw [withoutFloatsMembers_eq_map, withoutFloatsMembers_eq_map] at h
  have hfst := congrArg (List.map Prod.fst) h
  simpa [Function.comp_def] using hfst

theorem withoutFloats_eq_str_iff {j : Json} {s : Bytes} :
    j.withoutFloats = .str s ↔ j = .str s := by
  cases j <;> simp [withoutFloats]

/-! ## Records -/

/-- The value of a field among the members of an object. -/
def FieldIs (ms : List (Bytes × Json)) (f : Field) : Option Json → Prop
  | some v => (f.name, v) ∈ ms
  | none => f.kind ≠ .required ∧ f.name ∉ ms.map Prod.fst

theorem memberValues_of_mem {ms : List (Bytes × Json)} (h : (ms.map Prod.fst).Nodup) {name : Bytes}
    {v : Json} (hv : (name, v) ∈ ms) : memberValues ms name = [v] := by
  induction ms with
  | nil => cases hv
  | cons m ms ih =>
    obtain ⟨hnot, hnodup⟩ := List.nodup_cons.1 h
    rcases List.mem_cons.1 hv with rfl | hv
    · have hnone : ms.filter (fun m => m.1 = name) = [] := by
        rw [List.filter_eq_nil_iff]
        intro m hm
        simp only [decide_eq_true_eq]
        intro he
        exact hnot (List.mem_map.2 ⟨m, hm, he⟩)
      simp [memberValues, hnone]
    · have hne : m.1 ≠ name := fun he => hnot (List.mem_map.2 ⟨_, hv, he.symm⟩)
      have hrest := ih hnodup hv
      simpa [memberValues, hne] using hrest

theorem memberValues_of_not_mem {ms : List (Bytes × Json)} {name : Bytes}
    (h : name ∉ ms.map Prod.fst) : memberValues ms name = [] := by
  rw [memberValues, List.map_eq_nil_iff, List.filter_eq_nil_iff]
  intro m hm
  simp only [decide_eq_true_eq]
  rintro rfl
  exact h (List.mem_map_of_mem hm)

theorem mem_of_memberValues {ms : List (Bytes × Json)} {name : Bytes} {v : Json}
    (h : memberValues ms name = [v]) : (name, v) ∈ ms := by
  have hv : v ∈ memberValues ms name := h ▸ List.mem_singleton_self v
  obtain ⟨⟨name', v'⟩, hm, rfl⟩ := List.mem_map.1 hv
  obtain ⟨hm, hname⟩ := List.mem_filter.1 hm
  have hsame : name' = name := of_decide_eq_true hname
  exact hsame ▸ hm

theorem not_mem_of_memberValues {ms : List (Bytes × Json)} {name : Bytes}
    (h : memberValues ms name = []) : name ∉ ms.map Prod.fst := by
  intro hmem
  obtain ⟨m, hm, hname⟩ := List.mem_map.1 hmem
  rw [memberValues, List.map_eq_nil_iff, List.filter_eq_nil_iff] at h
  exact h m hm (decide_eq_true hname)

theorem memberValues_append (ms ms' : List (Bytes × Json)) (name : Bytes) :
    memberValues (ms ++ ms') name = memberValues ms name ++ memberValues ms' name := by
  simp [memberValues]

/-- The field of a record is a member of the object, when no two members share a name. -/
theorem fieldOfMembers_eq_some_iff {ms : List (Bytes × Json)} (h : (ms.map Prod.fst).Nodup)
    {f : Field} {v : Option Json} : fieldOfMembers ms f = some v ↔ FieldIs ms f v := by
  by_cases hmem : f.name ∈ ms.map Prod.fst
  · obtain ⟨⟨name, w⟩, hw, hname⟩ := List.mem_map.1 hmem
    cases hname
    have hvalues : memberValues ms f.name = [w] := memberValues_of_mem h hw
    rw [fieldOfMembers, hvalues]
    cases v with
    | none => simpa [FieldIs] using fun _ => ⟨w, hw⟩
    | some v =>
      simp only [Option.some.injEq, FieldIs]
      constructor
      · rintro rfl
        exact hw
      · intro hv
        have hsame := memberValues_of_mem h hv
        rw [hvalues] at hsame
        exact List.head_eq_of_cons_eq hsame
  · rw [fieldOfMembers, memberValues_of_not_mem hmem]
    cases v with
    | none => simp [FieldIs, hmem]
    | some v =>
      have hv : (f.name, v) ∉ ms := fun hv => hmem (List.mem_map_of_mem hv)
      simp [FieldIs, hv]

/-- The fields of a record, read from an object. -/
theorem recordFields_obj_iff {ms : List (Bytes × Json)} {fs : List Field}
    {vs : List (Option Json)} :
    recordFields false fs (.obj ms) = some vs ↔
      List.Forall₂ (fun f v => fieldOfMembers ms f = some v) fs vs := by
  rw [recordFields, if_neg (by simp)]
  induction fs generalizing vs with
  | nil => simp [eq_comm]
  | cons f fs ih =>
    rw [List.mapM_cons]
    constructor
    · intro hvs
      obtain ⟨v, hv, hvs⟩ := Option.bind_eq_some_iff.1 hvs
      obtain ⟨rest, hrest, hvs⟩ := Option.bind_eq_some_iff.1 hvs
      cases hvs
      exact .cons hv (ih.1 hrest)
    · rintro (_ | ⟨hv, hrest⟩)
      refine Option.bind_eq_some_iff.2 ⟨_, hv, ?_⟩
      exact Option.bind_eq_some_iff.2 ⟨_, ih.2 hrest, rfl⟩

/-- The fields of a record, read from an object without repeated names. -/
theorem recordFields_obj_eq_some_iff {ms : List (Bytes × Json)} (h : (ms.map Prod.fst).Nodup)
    {fs : List Field} {vs : List (Option Json)} :
    recordFields false fs (.obj ms) = some vs ↔ List.Forall₂ (FieldIs ms) fs vs := by
  simp only [recordFields_obj_iff, fieldOfMembers_eq_some_iff h]

/-- A field that is read is the only one of its name. -/
theorem fieldOfMembers_eq_present_iff {ms : List (Bytes × Json)} {f : Field} {v : Json} :
    fieldOfMembers ms f = some (some v) ↔ memberValues ms f.name = [v] := by
  unfold fieldOfMembers
  rcases memberValues ms f.name with _ | ⟨w, _ | ⟨w', ws⟩⟩ <;> simp

/-- A field that may be left out is left out. -/
theorem fieldOfMembers_eq_absent_iff {ms : List (Bytes × Json)} {f : Field} :
    fieldOfMembers ms f = some none ↔ f.kind ≠ .required ∧ memberValues ms f.name = [] := by
  unfold fieldOfMembers
  rcases memberValues ms f.name with _ | ⟨w, _ | ⟨w', ws⟩⟩ <;> simp

/-- A boolean field. -/
def asBool : Json → Option Bool
  | .bool b => some b
  | _ => none

/-- The variant of an enumeration without data: its name, or an object that gives the name
nothing. -/
def asUnitVariant : Json → Option Bytes
  | .str variant => some variant
  | .obj [(variant, .null)] => some variant
  | .obj [(variant, .obj [])] => some variant
  | _ => none

/-- The variant of an internally tagged enumeration and the value that its fields are read from: the
member of the tag is taken out of an object, and the first element off an array. -/
def taggedContent (tag : Bytes) : Json → Option (Bytes × Json)
  | .obj ms =>
      match memberValues ms tag with
      | [.str variant] => some (variant, .obj (ms.filter fun m => m.1 ≠ tag))
      | _ => none
  | .arr (.str variant :: items) => some (variant, .arr items)
  | _ => none

/-- The tag is the first member, and no other one has its name. -/
theorem taggedContent_obj {tag variant : Bytes} {ms : List (Bytes × Json)}
    (h : tag ∉ ms.map Prod.fst) :
    taggedContent tag (.obj ((tag, .str variant) :: ms)) = some (variant, .obj ms) := by
  have hvalues : memberValues ((tag, .str variant) :: ms) tag = [.str variant] := by
    have hrest := memberValues_of_not_mem h
    simp only [memberValues] at hrest
    simp [memberValues, hrest]
  have hothers : ∀ m ∈ ms, m.1 ≠ tag := fun m hm he => h (he ▸ List.mem_map_of_mem hm)
  have hcontent : ((tag, Json.str variant) :: ms).filter (fun m => m.1 ≠ tag) = ms := by
    rw [List.filter_cons_of_neg (by simp)]
    exact List.filter_eq_self.2 fun m hm => decide_eq_true (hothers m hm)
  simp only [taggedContent, hvalues, hcontent]

theorem asString_eq_some_iff {j : Json} {s : Bytes} : j.asString = some s ↔ j = .str s := by
  cases j <;> simp [asString]

theorem asI64_eq_some_iff {j : Json} {z : I64} : j.asI64 = some z ↔ j = .int z.toInt := by
  cases j with
  | int i => simp [asI64, I64.ofInt?_eq_some_iff, eq_comm (a := i)]
  | _ => simp [asI64]

theorem asOptionalString_eq_none_iff {v : Option Json} :
    asOptionalString v = some none ↔ v = none ∨ v = some .null := by
  cases v with
  | none => simp [asOptionalString]
  | some j => cases j <;> simp [asOptionalString]

theorem asOptionalString_eq_some_iff {v : Option Json} {s : Bytes} :
    asOptionalString v = some (some s) ↔ v = some (.str s) := by
  cases v with
  | none => simp [asOptionalString]
  | some j => cases j <;> simp [asOptionalString]

/-- The values directly inside a value. -/
def children : Json → List Json
  | .arr xs => xs
  | .obj ms => ms.map Prod.snd
  | _ => []

end Json

namespace Json

/-! ## Plain values -/

theorem plainMembers_insertMember {k : Bytes} {v : Json} {ms : List (Bytes × Json)}
    (hk : IsUtf8 k) (hv : v.Plain) (h : PlainMembers ms) : PlainMembers (insertMember k v ms) := by
  induction ms with
  | nil => exact ⟨⟨hk, hv⟩, trivial⟩
  | cons m ms ih =>
    obtain ⟨k', v'⟩ := m
    obtain ⟨hm, hms⟩ := h
    unfold insertMember
    split
    · exact ⟨⟨hk, hv⟩, hms⟩
    split
    · exact ⟨⟨hk, hv⟩, hm, hms⟩
    · exact ⟨hm, ih hms⟩

theorem depthMembers_insertMember_le {k : Bytes} {v : Json} {ms : List (Bytes × Json)} {d : Nat}
    (hv : v.depth ≤ d) (h : depthMembers ms ≤ d) : depthMembers (insertMember k v ms) ≤ d := by
  induction ms with
  | nil => simpa [insertMember, depthMembers, depthMember] using hv
  | cons m ms ih =>
    obtain ⟨k', v'⟩ := m
    simp only [depthMembers, depthMember, max_le_iff] at h
    unfold insertMember
    split
    · simpa [depthMembers, depthMember] using ⟨hv, h.2⟩
    split
    · simpa [depthMembers, depthMember] using ⟨hv, h⟩
    · simpa [depthMembers, depthMember] using ⟨h.1, ih h.2⟩

mutual

/-- The stored form of a plain value is plain. -/
theorem plain_toValue (j : Json) (h : j.Plain) : j.toValue.Plain ∧ j.toValue.depth ≤ j.depth := by
  match j with
  | .null => exact ⟨h, Nat.le_refl _⟩
  | .bool b => exact ⟨h, Nat.le_refl _⟩
  | .int z => exact ⟨h, Nat.le_refl _⟩
  | .float t => exact ⟨h, Nat.le_refl _⟩
  | .str s => exact ⟨h, Nat.le_refl _⟩
  | .arr xs =>
    obtain ⟨hplain, hdepth⟩ := plain_toValues xs h
    exact ⟨hplain, Nat.succ_le_succ hdepth⟩
  | .obj ms =>
    obtain ⟨hplain, hdepth⟩ := plain_toOrdered ms h (depthMembers ms) (Nat.le_refl _) [] trivial
      (Nat.zero_le _)
    exact ⟨hplain, Nat.succ_le_succ hdepth⟩
termination_by structural j

theorem plain_toValues (xs : List Json) (h : PlainItems xs) :
    PlainItems (toValues xs) ∧ depthItems (toValues xs) ≤ depthItems xs := by
  match xs with
  | [] => exact ⟨trivial, Nat.le_refl _⟩
  | x :: xs =>
    obtain ⟨hx, hdepth⟩ := plain_toValue x h.1
    obtain ⟨hxs, hdepth'⟩ := plain_toValues xs h.2
    exact ⟨⟨hx, hxs⟩, max_le_max hdepth hdepth'⟩
termination_by structural xs

theorem plain_toValueMember (m : Bytes × Json) (h : PlainMember m) :
    IsUtf8 (toValueMember m).1 ∧ (toValueMember m).2.Plain ∧
      (toValueMember m).2.depth ≤ depthMember m := by
  match m with
  | (k, v) =>
    obtain ⟨hv, hdepth⟩ := plain_toValue v h.2
    exact ⟨h.1, hv, hdepth⟩
termination_by structural m

theorem plain_toOrdered (ms : List (Bytes × Json)) (h : PlainMembers ms) (d : Nat)
    (hd : depthMembers ms ≤ d) (acc : List (Bytes × Json)) (hacc : PlainMembers acc)
    (hdepth : depthMembers acc ≤ d) :
    PlainMembers (toOrdered ms acc) ∧ depthMembers (toOrdered ms acc) ≤ d := by
  match ms with
  | [] => exact ⟨hacc, hdepth⟩
  | m :: ms =>
    obtain ⟨hk, hv, hm⟩ := plain_toValueMember m h.1
    simp only [depthMembers, max_le_iff] at hd
    exact plain_toOrdered ms h.2 d hd.2 _ (plainMembers_insertMember hk hv hacc)
      (depthMembers_insertMember_le (hm.trans hd.1) hdepth)
termination_by structural ms

end

theorem plain_child {j v : Json} (h : j.Plain) (hv : v ∈ j.children) :
    v.Plain ∧ v.depth < j.depth := by
  cases j with
  | arr xs =>
    have hitems : ∀ xs : List Json, PlainItems xs → v ∈ xs → v.Plain ∧ v.depth ≤ depthItems xs := by
      intro xs
      induction xs with
      | nil => intro _ hv; cases hv
      | cons x xs ih =>
        rintro ⟨hx, hxs⟩ hv
        rcases List.mem_cons.1 hv with rfl | hv
        · exact ⟨hx, le_max_left _ _⟩
        · exact ⟨(ih hxs hv).1, (ih hxs hv).2.trans (le_max_right _ _)⟩
    exact ⟨(hitems xs h hv).1, Nat.lt_succ_of_le (hitems xs h hv).2⟩
  | obj ms =>
    obtain ⟨⟨k, v⟩, hm, rfl⟩ := List.mem_map.1 hv
    have hdepth : ∀ ms : List (Bytes × Json), (k, v) ∈ ms → v.depth ≤ depthMembers ms := by
      intro ms
      induction ms with
      | nil => intro hm; cases hm
      | cons m' ms ih =>
        intro hm
        rcases List.mem_cons.1 hm with rfl | hm
        · exact Nat.le_max_left _ _
        · exact (ih hm).trans (Nat.le_max_right _ _)
    exact ⟨(plainMembers_iff.1 h _ hm).2, Nat.lt_succ_of_le (hdepth ms hm)⟩
  | _ => cases hv

end Json

/-- A value inside a value that was read is stored, written and read again, up to the precision of
its floating-point numbers. -/
def JsonText.Rereads (json : JsonText) : Prop :=
  ∀ input j v, json.parse input = some j → v ∈ j.children →
    ∃ v', json.parse v.toValue.render = some v' ∧ v'.withoutFloats = v.toValue.withoutFloats

open Classical in
/-- A parser of compact texts of plain values within the nesting limit. -/
noncomputable def plainText : JsonText where
  parse := fun input => (Json.parseText input).filter fun j => decide (j.Plain ∧ j.depth ≤ 127)
  parse_render := by
    intro j hplain hdepth
    rw [Json.parseText_render j hplain, Option.filter_some,
      if_pos (decide_eq_true ⟨hplain, hdepth⟩)]

theorem rereads_plainText : plainText.Rereads := by
  intro input j v hparse hv
  have hj : j.Plain ∧ j.depth ≤ 127 := by simpa using (Option.filter_eq_some_iff.1 hparse).2
  obtain ⟨hplain, hdepth⟩ := Json.plain_child hj.1 hv
  obtain ⟨hvalue, hdepth'⟩ := Json.plain_toValue v hplain
  refine ⟨v.toValue, plainText.parse_render _ hvalue ?_, rfl⟩
  omega

end Keylix.Lib
