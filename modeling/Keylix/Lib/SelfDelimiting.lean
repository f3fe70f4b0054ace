import Mathlib.Data.List.Basic
import Mathlib.Data.Set.Function

/-!
# Self-delimiting encodings

An encoding is self-delimiting on a set of values when the end of an encoded value shows, whatever
follows it: two texts that start with encoded values are equal only if the values are and the rests
are. These are the codes in which no word is the start of another one
(`selfDelimitingOn_iff_starts`), and their words can be written one after another
(`SelfDelimitingOn.flatMap_injOn`).

Words of one length, terminated words and length-prefixed words are self-delimiting, and so are two
self-delimiting fields in a row (`SelfDelimitingOn.prod`).
-/

set_option autoImplicit false

namespace Keylix.Lib

variable {α β γ : Type*} {encode : α → List β} {s t : Set α}

/-- The values of `s` and what follows them can be told from the text. -/
def SelfDelimitingOn (encode : α → List β) (s : Set α) : Prop :=
  ∀ ⦃a⦄, a ∈ s → ∀ ⦃b⦄, b ∈ s → ∀ ⦃rest rest' : List β⦄,
    encode a ++ rest = encode b ++ rest' → a = b ∧ rest = rest'

theorem SelfDelimitingOn.mono (h : SelfDelimitingOn encode t) (hst : s ⊆ t) :
    SelfDelimitingOn encode s :=
  fun _ ha _ hb => h (hst ha) (hst hb)

/-- A self-delimiting word is the start of no other one. -/
theorem selfDelimitingOn_iff_starts :
    SelfDelimitingOn encode s ↔ ∀ a ∈ s, ∀ b ∈ s, encode a <+: encode b → a = b := by
  constructor
  · intro h a ha b hb hprefix
    obtain ⟨rest, hrest⟩ := hprefix
    have htext : encode a ++ rest = encode b ++ [] := by rw [hrest, List.append_nil]
    exact (h ha hb htext).1
  · intro h a ha b hb rest rest' he
    have hab : encode a <+: encode b ++ rest' := ⟨rest, he⟩
    have hbb : encode b <+: encode b ++ rest' := List.prefix_append _ _
    have heq : a = b := by
      rcases List.prefix_or_prefix_of_prefix hab hbb with hprefix | hprefix
      · exact h a ha b hb hprefix
      · exact (h b hb a ha hprefix).symm
    subst heq
    exact ⟨rfl, List.append_cancel_left he⟩

/-! ## Fields -/

/-- Words of one length. -/
theorem selfDelimitingOn_of_length {n : ℕ} (hlen : ∀ a ∈ s, (encode a).length = n)
    (hinj : Set.InjOn encode s) : SelfDelimitingOn encode s := by
  intro a ha b hb rest rest' he
  obtain ⟨hword, hrest⟩ := List.append_inj he (by rw [hlen a ha, hlen b hb])
  exact ⟨hinj ha hb hword, hrest⟩

/-- Words without a certain letter, with that letter at their end. -/
theorem selfDelimitingOn_terminated (c : β) :
    SelfDelimitingOn (fun word => word ++ [c]) {word | c ∉ word} := by
  rw [selfDelimitingOn_iff_starts]
  intro word hword word' hword' hprefix
  rcases List.prefix_concat_iff.1 hprefix with he | hinside
  · exact List.append_cancel_right he
  · -- the terminator would stand inside the other word
    have hmem : c ∈ word' := hinside.subset (List.mem_append_right word List.mem_cons_self)
    exact absurd hmem hword'

/-- Words after their length. -/
theorem SelfDelimitingOn.lengthPrefixed {size : ℕ → List β} {lengths : Set ℕ}
    (h : SelfDelimitingOn size lengths) :
    SelfDelimitingOn (fun word => size word.length ++ word) {word | word.length ∈ lengths} := by
  intro word hword word' hword' rest rest' he
  simp only [List.append_assoc] at he
  obtain ⟨hlen, htail⟩ := h hword hword' he
  exact List.append_inj htail hlen

/-- Two fields, the second after the first. -/
theorem SelfDelimitingOn.prod {encode' : γ → List β} {u : Set γ} (h : SelfDelimitingOn encode s)
    (h' : SelfDelimitingOn encode' u) :
    SelfDelimitingOn (fun p : α × γ => encode p.1 ++ encode' p.2) (s ×ˢ u) := by
  rintro ⟨a, a'⟩ ⟨ha, ha'⟩ ⟨b, b'⟩ ⟨hb, hb'⟩ rest rest' he
  simp only [List.append_assoc] at he
  obtain ⟨hfirst, hsecond⟩ := h ha hb he
  obtain ⟨hsecond, hrest⟩ := h' ha' hb' hsecond
  exact ⟨Prod.ext hfirst hsecond, hrest⟩

/-! ## Sequences -/

/-- Words that are not empty can be written one after another. -/
theorem SelfDelimitingOn.flatMap_injOn (h : SelfDelimitingOn encode s)
    (hne : ∀ a ∈ s, encode a ≠ []) :
    Set.InjOn (fun values => values.flatMap encode) {values : List α | ∀ a ∈ values, a ∈ s} := by
  intro values hvalues values' hvalues' he
  induction values generalizing values' with
  | nil =>
    cases values' with
    | nil => rfl
    | cons b values' =>
      have hnil := (List.append_eq_nil_iff.1 he.symm).1
      exact absurd hnil (hne b (hvalues' b List.mem_cons_self))
  | cons a values ih =>
    cases values' with
    | nil =>
      have hnil := (List.append_eq_nil_iff.1 he).1
      exact absurd hnil (hne a (hvalues a List.mem_cons_self))
    | cons b values' =>
      obtain ⟨rfl, hrest⟩ := h (hvalues a List.mem_cons_self) (hvalues' b List.mem_cons_self) he
      rw [ih (fun c hc => hvalues c (List.mem_cons_of_mem _ hc))
        (fun c hc => hvalues' c (List.mem_cons_of_mem _ hc)) hrest]

end Keylix.Lib
