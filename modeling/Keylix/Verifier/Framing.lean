import Keylix.Verifier.Connection

/-!
# Frames and segments

A connection delivers its bytes in reads of any sizes (`deliver`): each read returns some of the
bytes that are left, and none only at the end of the stream. `frameOf` is what a line gives when the
read that completes it ends with the newline.

A byte that follows the newline in the same read is an error, and one that follows in a later read
is not seen. `segmentation_independent_iff` says for which streams that makes no difference.
-/

set_option autoImplicit false

namespace Keylix.Verifier

open Keylix.Lib
open Keylix.Lib.Prog (Handler Outcome)

/-! ## Delivery -/

/-- A stream without a failure: a read returns some of the bytes, and none only at the end; a write
accepts some of its bytes. -/
def deliver : Handler streamOps StreamState
  | .read _, t, x, t' => ∃ chunk, x = .ok chunk ∧ t.incoming = chunk.1 ++ t'.incoming ∧
      t'.written = t.written ∧ (chunk.1 = [] → t.incoming = [])
  | .write bytes, t, x, t' => ∃ n, x = .ok n ∧ (n.1 = 0 → bytes = []) ∧
      t' = ⟨t.incoming, t.written ++ bytes.take n.1⟩
  | .flush, t, x, t' => x = .ok () ∧ t' = t

/-- A stream without a failure behaves as some stream. -/
theorem streamHandler_of_deliver (op : StreamOp) (t : StreamState) (x : streamOps.Res op)
    (t' : StreamState) (h : deliver op t x t') : streamHandler op t x t' := by
  cases op with
  | read limit =>
    obtain ⟨chunk, rfl, hincoming, hwritten, -⟩ := h
    exact Or.inr ⟨chunk, rfl, hincoming, hwritten⟩
  | write bytes =>
    obtain ⟨n, rfl, -, rfl⟩ := h
    exact Or.inr ⟨n, rfl, rfl⟩
  | flush => exact h.2

/-- The frame of a line: a carriage return at its end is dropped, and it must not be empty. -/
def frameOf (line : Bytes) : Except Unit Bytes :=
  let frame := if line.getLast? = some (byte '\r') then line.dropLast else line
  if frame.isEmpty then .error () else .ok frame

/-- The newline ends its chunk. -/
theorem completeFrame_concat {frame chunk : Bytes} (h : byte '\n' ∉ chunk) :
    completeFrame frame (chunk ++ [byte '\n']) = frameOf (frame ++ chunk) := by
  have hidx : (chunk ++ [byte '\n']).idxOf (byte '\n') = chunk.length := by
    rw [List.idxOf_append_of_notMem h, List.idxOf_cons_self, Nat.add_zero]
  simp only [completeFrame, hidx, List.length_append, List.length_singleton, ne_eq,
    not_true_eq_false, if_false, List.take_left', frameOf]

/-- A byte after the newline in the same chunk. -/
theorem completeFrame_of_rest {frame chunk rest : Bytes} (h : byte '\n' ∉ chunk)
    (hrest : rest ≠ []) :
    completeFrame frame (chunk ++ byte '\n' :: rest) = .error () := by
  have hidx : (chunk ++ byte '\n' :: rest).idxOf (byte '\n') = chunk.length := by
    rw [List.idxOf_append_of_notMem h, List.idxOf_cons_self, Nat.add_zero]
  have hlen : rest.length ≠ 0 := fun h => hrest (List.length_eq_zero_iff.1 h)
  simp only [completeFrame, hidx, List.length_append, List.length_cons]
  rw [if_pos (by omega)]

/-! ## What a read can give -/

section Reads

variable {frame line rest : Bytes} {t t' : StreamState} {r : Except Unit Bytes}

/-- One turn of the loop. -/
theorem outcome_readLoop_iff (hbudget : frame.length < maxFrameBytes) :
    Outcome deliver (readLoop frame) t r t' ↔
      ∃ chunk tail, t.incoming = chunk ++ tail ∧
        chunk.length ≤ min readChunkBytes (maxFrameBytes - frame.length) ∧
        (chunk = [] → t.incoming = []) ∧
        if chunk.length = 0 then r = .error () ∧ t' = ⟨tail, t.written⟩
        else if chunk.contains (byte '\n') then
          r = completeFrame frame chunk ∧ t' = ⟨tail, t.written⟩
        else Outcome deliver (readLoop (frame ++ chunk)) ⟨tail, t.written⟩ r t' := by
  rw [readLoop, dif_neg (Nat.not_le.2 hbudget)]
  -- the cases of the loop are those of the statement, in both directions
  constructor
  · rintro ⟨x, ⟨tail, written⟩, ⟨chunk, rfl, hincoming, rfl, hempty⟩, h⟩
    refine ⟨chunk.1, tail, hincoming, chunk.2, hempty, ?_⟩
    simp only at h
    split
    · next hread =>
      rw [dif_pos hread] at h
      exact h
    · next hread =>
      rw [dif_neg hread] at h
      split
      · next hnewline =>
        rw [if_pos hnewline] at h
        exact h
      · next hnewline =>
        rw [if_neg hnewline] at h
        exact h
  · rintro ⟨chunk, tail, hincoming, hlen, hempty, h⟩
    refine ⟨.ok ⟨chunk, hlen⟩, ⟨tail, t.written⟩, ⟨⟨chunk, hlen⟩, rfl, hincoming, rfl, hempty⟩, ?_⟩
    simp only
    split at h
    · next hread =>
      rw [dif_pos hread]
      exact h
    · next hread =>
      rw [dif_neg hread]
      split at h
      · next hnewline =>
        rw [if_pos hnewline]
        exact h
      · next hnewline =>
        rw [if_neg hnewline]
        exact h

theorem outcome_readLoop_full (hbudget : maxFrameBytes ≤ frame.length)
    (h : Outcome deliver (readLoop frame) t r t') : r = .error () := by
  rw [readLoop, dif_pos hbudget] at h
  exact h.1

/-- The parts of a chunk that starts a line. -/
theorem chunk_cases {chunk tail : Bytes} (h : chunk ++ tail = line ++ byte '\n' :: rest) :
    (∃ line', line = chunk ++ line' ∧ tail = line' ++ byte '\n' :: rest) ∨
      ∃ extra, chunk = line ++ byte '\n' :: extra ∧ rest = extra ++ tail := by
  rcases List.append_eq_append_iff.1 h with ⟨line', hline, htail⟩ | ⟨part, hchunk, hrest⟩
  · exact Or.inl ⟨line', hline, htail⟩
  · cases part with
    | nil =>
      rw [List.append_nil] at hchunk
      exact Or.inl ⟨[], by rw [List.append_nil, hchunk], hrest.symm⟩
    | cons b extra =>
      obtain ⟨rfl, hextra⟩ := List.cons.inj hrest
      exact Or.inr ⟨extra, hchunk, hextra⟩

/-- A line within the budget gives its frame; it gives an error instead when a byte after the
newline may arrive with it. -/
theorem outcome_of_line (hincoming : t.incoming = line ++ byte '\n' :: rest)
    (hline : byte '\n' ∉ line) (h : Outcome deliver (readLoop frame) t r t') :
    r = frameOf (frame ++ line) ∧ (frame ++ line).length < maxFrameBytes ∨
      r = .error () ∧ (maxFrameBytes ≤ (frame ++ line).length ∨
        rest ≠ [] ∧ (frame ++ line).length + 1 < maxFrameBytes) := by
  -- the induction follows the loop: the line is what is left of it after each chunk
  induction frame using readLoop.induct generalizing t line with
  | case1 frame hbudget =>
    refine Or.inr ⟨outcome_readLoop_full hbudget h, Or.inl ?_⟩
    rw [List.length_append]
    omega
  | case2 frame hbudget ih =>
    obtain ⟨chunk, tail, happend, hlen, hempty, h⟩ :=
      (outcome_readLoop_iff (Nat.not_le.1 hbudget)).1 h
    -- an empty chunk is delivered at the end of the stream alone
    have hne : chunk.length ≠ 0 := by
      intro hzero
      have hnil := hempty (List.length_eq_zero_iff.1 hzero)
      rw [hincoming] at hnil
      simp at hnil
    rw [if_neg hne] at h
    rw [hincoming] at happend
    rcases chunk_cases happend.symm with ⟨line', rfl, htail⟩ | ⟨extra, rfl, rfl⟩
    · -- the newline is in a later chunk
      have hchunk : ¬ chunk.contains (byte '\n') = true := by
        intro hmem
        exact hline (List.mem_append_left _ (List.contains_iff_mem.1 hmem))
      rw [if_neg hchunk] at h
      have hline' : byte '\n' ∉ line' := fun hmem => hline (List.mem_append_right _ hmem)
      rw [← List.append_assoc]
      exact ih ⟨chunk, hlen⟩ hne htail hline' h
    · have hmem : (line ++ byte '\n' :: extra).contains (byte '\n') = true := by simp
      rw [if_pos hmem] at h
      rw [List.length_append, List.length_cons] at hlen
      rw [List.length_append]
      by_cases hextra : extra = []
      · subst hextra
        rw [completeFrame_concat hline] at h
        exact Or.inl ⟨h.1, by omega⟩
      · rw [completeFrame_of_rest hline hextra] at h
        have hpos := List.length_pos_iff.2 hextra
        refine Or.inr ⟨h.1, Or.inr ⟨?_, by omega⟩⟩
        exact fun hnil => hextra (List.append_eq_nil_iff.1 hnil).1

/-- Without a newline there is no frame. -/
theorem outcome_of_no_line (hincoming : byte '\n' ∉ t.incoming)
    (h : Outcome deliver (readLoop frame) t r t') : r = .error () := by
  induction frame using readLoop.induct generalizing t with
  | case1 frame hbudget => exact outcome_readLoop_full hbudget h
  | case2 frame hbudget ih =>
    obtain ⟨chunk, tail, happend, hlen, -, h⟩ :=
      (outcome_readLoop_iff (Nat.not_le.1 hbudget)).1 h
    rw [happend] at hincoming
    split at h
    · exact h.1
    next hne =>
    have hchunk : ¬ chunk.contains (byte '\n') = true := by
      intro hmem
      exact hincoming (List.mem_append_left _ (List.contains_iff_mem.1 hmem))
    rw [if_neg hchunk] at h
    exact ih ⟨chunk, hlen⟩ hne (fun hmem => hincoming (List.mem_append_right _ hmem)) h

/-- The bytes of a line may arrive one at a time, and the newline alone or with one byte more. -/
theorem exists_outcome_of_line (frame : Bytes) (hline : byte '\n' ∉ line) (extra : Bytes)
    (hextra : extra.length ≤ 1)
    (hlen : (frame ++ line).length + 1 + extra.length ≤ maxFrameBytes) (tail written : Bytes) :
    Outcome deliver (readLoop frame) ⟨line ++ byte '\n' :: (extra ++ tail), written⟩
      (completeFrame (frame ++ line) (byte '\n' :: extra)) ⟨tail, written⟩ := by
  have hbudget : frame.length < maxFrameBytes := by
    rw [List.length_append] at hlen
    omega
  have hchunk : 2 ≤ readChunkBytes := by decide
  induction line generalizing frame with
  | nil =>
    rw [List.append_nil] at hlen ⊢
    refine (outcome_readLoop_iff hbudget).2
      ⟨byte '\n' :: extra, tail, rfl, ?_, by simp, ?_⟩
    · rw [List.length_cons]
      omega
    · have hmem : (byte '\n' :: extra).contains (byte '\n') = true := by simp
      rw [if_neg (by simp), if_pos hmem]
      exact ⟨rfl, rfl⟩
  | cons b line ih =>
    have hcons : frame ++ b :: line = (frame ++ [b]) ++ line := List.append_cons _ _ _
    rw [hcons] at hlen ⊢
    refine (outcome_readLoop_iff hbudget).2
      ⟨[b], line ++ byte '\n' :: (extra ++ tail), rfl, ?_, by simp, ?_⟩
    · rw [List.length_singleton]
      omega
    · have hb : ¬ [b].contains (byte '\n') = true := by
        intro hmem
        rw [List.contains_iff_mem, List.mem_singleton] at hmem
        exact hline (hmem ▸ List.mem_cons_self)
      rw [if_neg (by simp), if_neg hb]
      refine ih (frame ++ [b]) (fun hmem => hline (List.mem_cons_of_mem _ hmem)) hlen ?_
      rw [List.length_append] at hlen
      omega

/-- Every stream has a delivery. -/
theorem exists_delivery (frame : Bytes) (t : StreamState) :
    ∃ r t', Outcome deliver (readLoop frame) t r t' := by
  induction frame using readLoop.induct generalizing t with
  | case1 frame hbudget =>
    rw [readLoop, dif_pos hbudget]
    exact ⟨_, _, rfl, rfl⟩
  | case2 frame hbudget ih =>
    simp only [outcome_readLoop_iff (Nat.not_le.1 hbudget)]
    have hchunk : 1 ≤ readChunkBytes := by decide
    cases hincoming : t.incoming with
    | nil =>
      refine ⟨.error (), ⟨[], t.written⟩, [], [], rfl, Nat.zero_le _, fun _ => rfl, ?_⟩
      rw [if_pos List.length_nil]
      exact ⟨rfl, rfl⟩
    | cons b tail =>
      have hlen : [b].length ≤ min readChunkBytes (maxFrameBytes - frame.length) := by
        rw [List.length_singleton]
        omega
      by_cases hnewline : [b].contains (byte '\n') = true
      · refine ⟨completeFrame frame [b], ⟨tail, t.written⟩, [b], tail, rfl, hlen,
          by simp, ?_⟩
        rw [if_neg (by simp), if_pos hnewline]
        exact ⟨rfl, rfl⟩
      · obtain ⟨r, t', h⟩ := ih ⟨[b], hlen⟩ (by simp) ⟨tail, t.written⟩
        refine ⟨r, t', [b], tail, rfl, hlen, by simp, ?_⟩
        rw [if_neg (by simp), if_neg hnewline]
        exact h

end Reads

/-! ## Whole frames -/

section Frames

variable {t t' : StreamState}

theorem mayAccept_deliver : MayAccept deliver where
  write bytes t :=
    ⟨⟨bytes.length, le_rfl⟩, rfl, List.length_eq_zero_iff.1, by rw [List.take_length]⟩
  flush t := ⟨rfl, rfl⟩

/-- A text is accepted as a whole. -/
theorem outcome_writeBeforeDeadline {bytes : Bytes} {r : Except Unit Unit}
    (h : Outcome deliver (writeBeforeDeadline bytes) t r t') :
    r = .ok () ∧ t' = ⟨t.incoming, t.written ++ bytes⟩ := by
  induction bytes using writeBeforeDeadline.induct generalizing t with
  | case1 =>
    rw [writeBeforeDeadline, dif_pos rfl] at h
    rw [List.append_nil]
    exact h
  | case2 bytes hempty ih =>
    rw [writeBeforeDeadline, dif_neg hempty] at h
    obtain ⟨x, t₁, ⟨n, rfl, hzero, rfl⟩, h⟩ := h
    have hn : n.1 ≠ 0 := fun hn => hempty (hzero hn)
    simp only [dif_neg hn] at h
    obtain ⟨rfl, rfl⟩ := ih n hn h
    refine ⟨rfl, ?_⟩
    rw [List.append_assoc, List.take_append_drop]

/-- A frame within the limit is accepted, with a newline after it. -/
theorem outcome_writeFrame {frame : Bytes} (hne : frame ≠ []) (hlen : frame.length ≤ maxFrameBytes)
    {r : Except Unit Unit} (h : Outcome deliver (writeFrame frame) t r t') :
    r = .ok () ∧ t' = ⟨t.incoming, t.written ++ frame ++ [byte '\n']⟩ := by
  have hfits : ¬ (frame.isEmpty || decide (maxFrameBytes < frame.length)) = true := by
    simp [hne, hlen]
  rw [writeFrame, if_neg hfits] at h
  obtain ⟨r₁, t₁, h₁, h⟩ := Prog.outcome_bind.1 h
  obtain ⟨rfl, rfl⟩ := outcome_writeBeforeDeadline h₁
  obtain ⟨r₂, t₂, h₂, h⟩ := Prog.outcome_bind.1 h
  obtain ⟨rfl, rfl⟩ := outcome_writeBeforeDeadline h₂
  obtain ⟨x, t₃, ⟨rfl, rfl⟩, rfl, rfl⟩ := h
  exact ⟨rfl, rfl⟩

/-- A frame that was written is read back, however it arrives. -/
theorem outcome_readFrame_of_frame {frame written : Bytes} (hne : frame ≠ [])
    (hlen : frame.length < maxFrameBytes) (hnewline : byte '\n' ∉ frame)
    (hreturn : byte '\r' ∉ frame) {r : Except Unit Bytes}
    (h : Outcome deliver readFrame ⟨frame ++ [byte '\n'], written⟩ r t') : r = .ok frame := by
  have hlast : frame.getLast? ≠ some (byte '\r') := by
    intro hlast
    exact hreturn (List.mem_of_getLast? hlast)
  rcases outcome_of_line rfl hnewline h with ⟨hr, -⟩ | ⟨-, hfull | ⟨hrest, -⟩⟩
  · rw [hr, List.nil_append, frameOf, if_neg hlast]
    simp [hne]
  · rw [List.nil_append] at hfull
    omega
  · exact absurd rfl hrest

end Frames

/-! ## Independence -/

/-- Every delivery of the stream gives the same frame, or an error in every case. -/
def SegmentationIndependent (stream : Bytes) : Prop :=
  ∃ r, (∃ t', Outcome deliver readFrame ⟨stream, []⟩ r t') ∧
    ∀ r' t', Outcome deliver readFrame ⟨stream, []⟩ r' t' → r' = r

theorem frameOf_concat_eq_error_iff (line : Bytes) (b : UInt8) :
    frameOf (line ++ [b]) = .error () ↔ line = [] ∧ b = byte '\r' := by
  simp only [frameOf, List.getLast?_concat, Option.some.injEq, List.dropLast_concat]
  by_cases hb : b = byte '\r'
  · simp [hb]
  · simp [hb]

/-- The lines that give no frame. -/
theorem frameOf_eq_error_iff {line : Bytes} :
    frameOf line = .error () ↔ line = [] ∨ line = [byte '\r'] := by
  rcases List.eq_nil_or_concat line with rfl | ⟨front, b, hline⟩
  · simp [frameOf]
  · rw [hline, List.concat_eq_append, frameOf_concat_eq_error_iff]
    cases front with
    | nil => simp
    | cons c front => simp

/-- **Reading does not depend on the segments exactly when nothing follows the first newline of the
stream, or the newline is not among the bytes that may be read with another one, or its line is
empty.** -/
theorem segmentation_independent_iff (stream : Bytes) :
    SegmentationIndependent stream ↔
      ∀ line rest, stream = line ++ byte '\n' :: rest → byte '\n' ∉ line →
        line.length + 1 < maxFrameBytes → rest = [] ∨ line = [] ∨ line = [byte '\r'] := by
  constructor
  · rintro ⟨r, -, hall⟩ line rest rfl hline hlen
    cases rest with
    | nil => exact Or.inl rfl
    | cons b rest =>
      -- the newline alone, and the newline with the next byte
      have halone := hall _ _ (exists_outcome_of_line [] hline [] (by simp)
        (Nat.le_of_lt hlen) (b :: rest) [])
      have hwith := hall _ _ (exists_outcome_of_line [] hline [b] (by simp) hlen rest [])
      have hsame := hwith.trans halone.symm
      have hleft : completeFrame ([] ++ line) [byte '\n', b] = .error () :=
        completeFrame_of_rest List.not_mem_nil (List.cons_ne_nil b [])
      have hright : completeFrame ([] ++ line) [byte '\n'] = frameOf ([] ++ line ++ []) :=
        completeFrame_concat List.not_mem_nil
      rw [hleft, hright, List.append_nil, List.nil_append] at hsame
      exact Or.inr (frameOf_eq_error_iff.1 hsame.symm)
  · intro hcond
    obtain ⟨r, t', hr⟩ := exists_delivery [] ⟨stream, []⟩
    refine ⟨r, ⟨t', hr⟩, ?_⟩
    intro r' t₂ hr'
    by_cases hstream : byte '\n' ∈ stream
    · obtain ⟨line, rest, rfl, hline⟩ := List.eq_append_cons_of_mem hstream
      have hresult : ∀ r t', Outcome deliver readFrame ⟨line ++ byte '\n' :: rest, []⟩ r t' →
          r = if line.length < maxFrameBytes then frameOf line else .error () := by
        intro r t' h
        have hcases := outcome_of_line rfl hline h
        rw [List.nil_append] at hcases
        rcases hcases with ⟨hr, hlt⟩ | ⟨hr, hfull | ⟨hrest, hlt⟩⟩
        · rw [hr, if_pos hlt]
        · rw [hr, if_neg (Nat.not_lt.2 hfull)]
        · -- the bytes after the newline matter only for an empty line
          have hempty := (hcond line rest rfl hline hlt).resolve_left hrest
          rw [hr, if_pos (by omega), frameOf_eq_error_iff.2 hempty]
      rw [hresult r t' hr, hresult r' t₂ hr']
    · rw [outcome_of_no_line hstream hr, outcome_of_no_line hstream hr']

/-- A byte after the line is seen or not: the same stream gives a frame and an error. -/
theorem segmentation_matters :
    (∃ t', Outcome deliver readFrame ⟨ascii "x\ny", []⟩ (.ok (ascii "x")) t') ∧
      ∃ t', Outcome deliver readFrame ⟨ascii "x\ny", []⟩ (.error ()) t' := by
  have hline : byte '\n' ∉ ascii "x" := by decide
  exact ⟨⟨_, exists_outcome_of_line [] hline [] (by simp) (by decide) (ascii "y") []⟩,
    ⟨_, exists_outcome_of_line [] hline (ascii "y") (by decide) (by decide) [] []⟩⟩

end Keylix.Verifier
