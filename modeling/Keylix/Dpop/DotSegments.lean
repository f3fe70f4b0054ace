import Keylix.Dpop.Normalization

/-!
# Dot segments: the loop and the stack

`removeDotSegments` rewrites its input in place, round by round, while it is not empty.
`removeDotSegmentsRound` is one round, and `removeDotSegments_rounds` says that the rounds end: each
takes bytes from the input, and when none is left the output is the result. `segmentStack` is what
the rounds are for, a stack of segments, and `removeDotSegments_segmentStack` compares the two.
-/

set_option autoImplicit false

namespace Keylix.Dpop

open Keylix.Lib

/-! ## Rounds -/

/-- One round of the loop on a non-empty input: the input and the output after it. -/
def removeDotSegmentsRound (state : Bytes × Bytes) : Bytes × Bytes :=
  let input := state.1
  let output := state.2
  if (ascii "../").isPrefixOf input then (input.drop 3, output)
  else if (ascii "./").isPrefixOf input then (input.drop 2, output)
  else if (ascii "/./").isPrefixOf input then (byte '/' :: input.drop 3, output)
  else if input = ascii "/." then ([byte '/'], output)
  else if (ascii "/../").isPrefixOf input then
    (byte '/' :: input.drop 4, removeLastSegment output)
  else if input = ascii "/.." then ([byte '/'], removeLastSegment output)
  else if input = ascii "." || input = ascii ".." then ([], output)
  else (input.drop (firstSegmentEnd input), output ++ input.take (firstSegmentEnd input))

theorem removeDotSegmentsLoop_succ (n : Nat) {input : Bytes} (hne : input ≠ []) (output : Bytes) :
    removeDotSegmentsLoop (n + 1) input output =
      removeDotSegmentsLoop n (removeDotSegmentsRound (input, output)).1
        (removeDotSegmentsRound (input, output)).2 := by
  have hempty : input.isEmpty = false := by simpa using hne
  simp only [removeDotSegmentsLoop, removeDotSegmentsRound, hempty, Bool.false_eq_true, if_false]
  -- the same tests on both sides, in the same order
  split_ifs
  all_goals simp only

theorem removeDotSegmentsLoop_nil (n : Nat) (output : Bytes) :
    removeDotSegmentsLoop n [] output = output := by
  cases n <;> rfl

theorem firstSegmentEnd_pos {input : Bytes} (hne : input ≠ []) : 0 < firstSegmentEnd input := by
  have hlen : 0 < input.length := List.length_pos_of_ne_nil hne
  unfold firstSegmentEnd
  split
  · split
    · exact Nat.succ_pos _
    · exact hlen
  · next hhead =>
    -- the slash is not the first byte
    cases hfind : input.findIdx? fun b => decide (b = byte '/') with
    | none => exact hlen
    | some i =>
      cases i with
      | succ i => exact Nat.succ_pos i
      | zero =>
        obtain ⟨hsplit, -⟩ := findIdx?_eq_some_split hfind
        rw [hsplit] at hhead
        exact absurd rfl hhead

/-- Every round takes bytes from the input. -/
theorem length_removeDotSegmentsRound_lt {input : Bytes} (hne : input ≠ []) (output : Bytes) :
    (removeDotSegmentsRound (input, output)).1.length < input.length := by
  have hlen : 0 < input.length := List.length_pos_of_ne_nil hne
  have hprefix : ∀ p : Bytes, p.isPrefixOf input = true → p.length ≤ input.length :=
    fun p hp => (List.isPrefixOf_iff_prefix.1 hp).length_le
  simp only [removeDotSegmentsRound]
  -- the branches in the order of the code; a slash that is put back is shorter than what it
  -- replaces
  split
  · simp only [List.length_drop]
    omega
  split
  · simp only [List.length_drop]
    omega
  split
  · next h =>
    have : (ascii "/./").length ≤ input.length := hprefix _ h
    have hthree : (ascii "/./").length = 3 := rfl
    simp only [List.length_cons, List.length_drop]
    omega
  split
  · next h =>
    rw [h]
    exact (by decide : [byte '/'].length < (ascii "/.").length)
  split
  · next h =>
    have : (ascii "/../").length ≤ input.length := hprefix _ h
    have hfour : (ascii "/../").length = 4 := rfl
    simp only [List.length_cons, List.length_drop]
    omega
  split
  · next h =>
    rw [h]
    exact (by decide : [byte '/'].length < (ascii "/..").length)
  split
  · exact hlen
  -- the first segment has at least its slash
  · have hpos := firstSegmentEnd_pos hne
    simp only [List.length_drop]
    omega

/-- The rounds from any configuration: after some of them, at most one for each byte of the input,
the input is empty. -/
theorem removeDotSegmentsLoop_rounds (n : Nat) (input output : Bytes) (hn : input.length ≤ n) :
    ∃ k ≤ input.length,
      removeDotSegmentsRound^[k] (input, output) = ([], removeDotSegmentsLoop n input output) ∧
        ∀ j < k, (removeDotSegmentsRound^[j] (input, output)).1 ≠ [] := by
  induction n generalizing input output with
  | zero =>
    obtain rfl := List.eq_nil_of_length_eq_zero (Nat.le_zero.1 hn)
    exact ⟨0, Nat.le_refl _, rfl, fun j hj => absurd hj (Nat.not_lt_zero j)⟩
  | succ n ih =>
    by_cases hne : input = []
    · subst hne
      refine ⟨0, Nat.le_refl _, ?_, fun j hj => absurd hj (Nat.not_lt_zero j)⟩
      rw [removeDotSegmentsLoop_nil]
      rfl
    -- one round, and then those of the rest
    · have hlt := length_removeDotSegmentsRound_lt hne output
      obtain ⟨k, hk, hend, hrun⟩ := ih (removeDotSegmentsRound (input, output)).1
        (removeDotSegmentsRound (input, output)).2 (by omega)
      refine ⟨k + 1, by omega, ?_, ?_⟩
      · rw [removeDotSegmentsLoop_succ n hne, Function.iterate_succ_apply]
        exact hend
      · intro j hj
        cases j with
        | zero => exact hne
        | succ j =>
          rw [Function.iterate_succ_apply]
          exact hrun j (by omega)

/-- The loop ends, and its last output is the result. -/
theorem removeDotSegments_rounds (path : Bytes) :
    ∃ k ≤ path.length,
      removeDotSegmentsRound^[k] (path, []) = ([], removeDotSegments path) ∧
        ∀ j < k, (removeDotSegmentsRound^[j] (path, [])).1 ≠ [] :=
  removeDotSegmentsLoop_rounds path.length path [] (Nat.le_refl _)

/-! ## The stack -/

/-- The stack of a list of segments: `.` is dropped, `..` pops the top, any other segment is pushed,
and an empty segment is pushed at the end after a last `.` or `..`. -/
def segmentStack (segs : List Bytes) : List Bytes :=
  segs.foldl pushSegment [] ++
    if segs.getLast? = some dot ∨ segs.getLast? = some dotDot then [[]] else []

theorem resolveSegments_eq_segmentStack {segs : List Bytes} (hne : segs ≠ []) :
    resolveSegments [] segs = segmentStack segs := by
  obtain ⟨init, s, rfl⟩ : ∃ init s, segs = init ++ [s] :=
    ⟨_, _, (List.dropLast_append_getLast hne).symm⟩
  rw [resolveSegments_concat, closeSegments, segmentStack, List.foldl_append]
  simp only [List.getLast?_append, List.getLast?_singleton, Option.some_or, Option.some.injEq,
    List.foldl_cons, List.foldl_nil]
  split
  · rfl
  · rw [List.append_nil]

/-- **Dot segments are removed as a stack of segments resolves them.** The loop ends on every path,
and leaves a path without dot segments. -/
theorem removeDotSegments_segmentStack (path : Bytes) (hslash : path.head? = some (byte '/')) :
    (∃ k ≤ path.length,
        removeDotSegmentsRound^[k] (path, []) = ([], removeDotSegments path) ∧
          ∀ j < k, (removeDotSegmentsRound^[j] (path, [])).1 ≠ []) ∧
      removeDotSegments path =
        byte '/' :: [byte '/'].intercalate (segmentStack (path.tail.splitOn (byte '/'))) ∧
      (removeDotSegments path).head? = some (byte '/') ∧
      dot ∉ (removeDotSegments path).tail.splitOn (byte '/') ∧
      dotDot ∉ (removeDotSegments path).tail.splitOn (byte '/') := by
  obtain ⟨rest, rfl⟩ : ∃ rest, path = byte '/' :: rest := by
    cases path with
    | nil => cases hslash
    | cons c rest => exact ⟨rest, by rw [Option.some.inj hslash]⟩
  have hsegs := pathSegments_ne_nil (byte '/' :: rest)
  have hstack := resolveSegments_eq_segmentStack hsegs
  have hne : segmentStack (pathSegments (byte '/' :: rest)) ≠ [] := by
    rw [← hstack]
    exact resolveSegments_ne_nil _ _ hsegs
  have heq : removeDotSegments (byte '/' :: rest) =
      joinSegments (segmentStack (pathSegments (byte '/' :: rest))) := by
    rw [removeDotSegments_eq, hstack]
  -- what every segment that stays on the stack satisfies
  have hspec : ∀ s ∈ segmentStack (pathSegments (byte '/' :: rest)),
      byte '/' ∉ s ∧ s ≠ dot ∧ s ≠ dotDot := by
    rw [← hstack]
    refine forall_mem_resolveSegments ⟨by simp, by decide, by decide⟩ (by simp) ?_
    exact fun s hs hdot hdotDot => ⟨not_mem_of_mem_pathSegments hs, hdot, hdotDot⟩
  have hread : pathSegments (joinSegments (segmentStack (pathSegments (byte '/' :: rest)))) =
      segmentStack (pathSegments (byte '/' :: rest)) :=
    pathSegments_joinSegments hne fun s hs => (hspec s hs).1
  have hjoin : joinSegments (segmentStack (pathSegments (byte '/' :: rest))) =
      byte '/' :: [byte '/'].intercalate (segmentStack (pathSegments (byte '/' :: rest))) := by
    cases hcons : segmentStack (pathSegments (byte '/' :: rest)) with
    | nil => exact absurd hcons hne
    | cons s segs => exact joinSegments_eq_intercalate s segs
  refine ⟨removeDotSegments_rounds _, heq.trans hjoin, ?_, ?_, ?_⟩
  · rw [heq, hjoin]
    rfl
  · rw [heq]
    change dot ∉ pathSegments _
    rw [hread]
    exact fun hs => (hspec _ hs).2.1 rfl
  · rw [heq]
    change dotDot ∉ pathSegments _
    rw [hread]
    exact fun hs => (hspec _ hs).2.2 rfl

/-- Empty segments, a step above the root and a dot segment at the end. -/
theorem removeDotSegments_segmentStack_sample :
    removeDotSegments (ascii "/a//../../../b/.") = ascii "/b/" ∧
      segmentStack ((ascii "/a//../../../b/.").tail.splitOn (byte '/')) = [ascii "b", []] := by
  obtain ⟨-, heq, -⟩ := removeDotSegments_segmentStack (ascii "/a//../../../b/.") rfl
  have hstack : segmentStack ((ascii "/a//../../../b/.").tail.splitOn (byte '/')) =
      [ascii "b", []] := by decide +kernel
  rw [heq, hstack]
  exact ⟨by decide +kernel, rfl⟩

end Keylix.Dpop
