import Keylix.Http.Target

/-!
# The parameters of a forwarding header

What the loop over the parameters of a `Forwarded` value accepts, without the loop: the trimmed
pieces between the semicolons are parameters, and one of them is named `proto` and one `host`.

`forwarded_exact`: the loop is exact, the order of the parameters and those of other names do not
matter, and a trusted proxy is understood alike in both header families and in a direct request.
-/

set_option autoImplicit false

namespace Keylix.Http

open Keylix.Lib Keylix.Dpop

/-! ## Trimming -/

section Trim

variable {s t : Bytes}

theorem dropWhile_isOws_eq_nil (h : ∀ b ∈ s, isOws b = true) : s.dropWhile isOws = [] :=
  List.dropWhile_eq_nil_iff.2 h

theorem trimOws_append_left (h : ∀ b ∈ s, isOws b = true) : trimOws (s ++ t) = trimOws t := by
  rw [trimOws, trimOws, List.dropWhile_append_of_pos h]

theorem trimOws_append_right (h : ∀ b ∈ t, isOws b = true) : trimOws (s ++ t) = trimOws s := by
  have hrev : ∀ b ∈ t.reverse, isOws b = true := fun b hb => h b (List.mem_reverse.1 hb)
  rw [trimOws, trimOws, List.dropWhile_append]
  split
  · next hempty =>
    rw [List.isEmpty_iff.1 hempty, dropWhile_isOws_eq_nil h]
  · rw [List.reverse_append, List.dropWhile_append_of_pos hrev]

/-- What trimming removes. -/
theorem exists_trimOws (s : Bytes) :
    ∃ front back, s = front ++ (trimOws s ++ back) ∧ (∀ b ∈ front, isOws b = true) ∧
      ∀ b ∈ back, isOws b = true := by
  refine ⟨s.takeWhile isOws, ((s.dropWhile isOws).reverse.takeWhile isOws).reverse, ?_, ?_, ?_⟩
  · rw [trimOws, ← List.reverse_append, List.takeWhile_append_dropWhile, List.reverse_reverse,
      List.takeWhile_append_dropWhile]
  · intro b hb
    exact List.mem_takeWhile_imp hb
  · intro b hb
    exact List.mem_takeWhile_imp (List.mem_reverse.1 hb)

theorem mem_of_mem_trimOws {b : UInt8} (h : b ∈ trimOws s) : b ∈ s := by
  obtain ⟨front, back, hs, -, -⟩ := exists_trimOws s
  rw [hs]
  exact List.mem_append_right _ (List.mem_append_left _ h)

/-- A byte that is no white space is not trimmed. -/
theorem mem_trimOws_iff {b : UInt8} (hb : isOws b = false) : b ∈ trimOws s ↔ b ∈ s := by
  refine ⟨mem_of_mem_trimOws, ?_⟩
  intro hmem
  obtain ⟨front, back, hs, hfront, hback⟩ := exists_trimOws s
  rw [hs] at hmem
  rcases List.mem_append.1 hmem with hmem | hmem
  · rw [hfront b hmem] at hb
    cases hb
  rcases List.mem_append.1 hmem with hmem | hmem
  · exact hmem
  · rw [hback b hmem] at hb
    cases hb

theorem length_trimOws_le (s : Bytes) : (trimOws s).length ≤ s.length := by
  obtain ⟨front, back, hs, -, -⟩ := exists_trimOws s
  have hlen := congrArg List.length hs
  simp only [List.length_append] at hlen
  omega

/-- A text without white space is trimmed already. -/
theorem trimOws_eq_self (h : ∀ b ∈ s, isOws b = false) : trimOws s = s := by
  obtain ⟨front, back, hs, hfront, hback⟩ := exists_trimOws s
  have hnil : ∀ part : Bytes, (∀ b ∈ part, b ∈ s) → (∀ b ∈ part, isOws b = true) → part = [] := by
    intro part hsub hows
    refine List.eq_nil_iff_forall_not_mem.2 fun b hb => ?_
    have hfalse := h b (hsub b hb)
    rw [hows b hb] at hfalse
    cases hfalse
  have hfrontNil := hnil front (fun b hb => hs ▸ List.mem_append_left _ hb) hfront
  have hbackNil := hnil back
    (fun b hb => hs ▸ List.mem_append_right _ (List.mem_append_right _ hb)) hback
  rw [hfrontNil, hbackNil, List.nil_append, List.append_nil] at hs
  exact hs.symm

/-- Trimming the whole text first does not change the trimmed pieces. -/
theorem map_trimOws_splitOn {c : UInt8} (hc : isOws c = false) (s : Bytes) :
    ((trimOws s).splitOn c).map trimOws = (s.splitOn c).map trimOws := by
  have hfront : ∀ front t : Bytes, (∀ b ∈ front, isOws b = true) →
      ((front ++ t).splitOn c).map trimOws = (t.splitOn c).map trimOws := by
    intro front t hows
    have hnot : c ∉ front := fun hmem => by rw [hows c hmem] at hc; cases hc
    -- the front joins the first piece
    induction t using splitOn_induction (c := c) with
    | hlast t ht =>
      rw [List.splitOn_eq_singleton ht, List.splitOn_eq_singleton (by simp [hnot, ht])]
      simp only [List.map_cons, List.map_nil, trimOws_append_left hows]
    | hpiece t rest ht _ =>
      rw [← List.append_assoc, List.splitOn_append_cons_self_of_not_mem ht,
        List.splitOn_append_cons_self_of_not_mem (by simp [hnot, ht]), List.map_cons, List.map_cons,
        trimOws_append_left hows]
  have hback : ∀ back t : Bytes, (∀ b ∈ back, isOws b = true) →
      ((t ++ back).splitOn c).map trimOws = (t.splitOn c).map trimOws := by
    intro back t hows
    have hnot : c ∉ back := fun hmem => by rw [hows c hmem] at hc; cases hc
    -- the back joins the last piece
    induction t using splitOn_induction (c := c) with
    | hlast t ht =>
      rw [List.splitOn_eq_singleton ht, List.splitOn_eq_singleton (by simp [hnot, ht])]
      simp only [List.map_cons, List.map_nil, trimOws_append_right hows]
    | hpiece t rest ht ih =>
      rw [List.append_assoc, List.cons_append, List.splitOn_append_cons_self_of_not_mem ht,
        List.splitOn_append_cons_self_of_not_mem ht, List.map_cons, List.map_cons, ih]
  obtain ⟨front, back, hs, hows, hows'⟩ := exists_trimOws s
  conv_rhs => rw [hs]
  rw [hfront _ _ hows, hback _ _ hows']

end Trim

/-! ## Parameters -/

/-- A piece is a parameter: a name that is a token, the sign `=`, and a value without a blank or a
control character, both trimmed. -/
structure IsParameter (piece : Bytes) (parameter : Bytes × Bytes) : Prop where
  split : ∃ name value, piece = name ++ byte '=' :: value ∧ parameter.1 = trimOws name ∧
    parameter.2 = trimOws value
  name_ne_nil : parameter.1 ≠ []
  value_ne_nil : parameter.2 ≠ []
  name_token : ∀ b ∈ parameter.1, isHeaderTokenByte b = true
  value_visible : ∀ b ∈ parameter.2, 0x20 < b ∧ b ≠ 0x7f

/-- The values of a parameter name, up to case. -/
def valuesOf (parameters : List (Bytes × Bytes)) (name : Bytes) : List Bytes :=
  (parameters.filter fun parameter => eqIgnoreAsciiCase parameter.1 name).map Prod.snd

/-- The pieces of a value are parameters, and one of them is named `proto` and one `host`. -/
structure ForwardedValue (raw proto host : Bytes) : Prop where
  single : byte ',' ∉ raw ∧ byte '"' ∉ raw ∧ byte '\\' ∉ raw
  parameters : ∃ parameters,
    List.Forall₂ IsParameter ((raw.splitOn (byte ';')).map trimOws) parameters ∧
      valuesOf parameters (ascii "proto") = [proto] ∧ valuesOf parameters (ascii "host") = [host]

/-- The first occurrence cuts the text. -/
theorem splitOnce_eq_some_iff {c : UInt8} {s before after : Bytes} :
    splitOnce c s = some (before, after) ↔ s = before ++ c :: after ∧ c ∉ before := by
  constructor
  · intro h
    obtain ⟨i, hi, he⟩ := Option.map_eq_some_iff.1 h
    obtain ⟨hlt, hc, hbefore⟩ := List.findIdx?_eq_some_iff_getElem.1 hi
    cases he
    have hget : s[i] = c := of_decide_eq_true hc
    refine ⟨?_, ?_⟩
    · rw [← hget, ← List.drop_eq_getElem_cons hlt, List.take_append_drop]
    · intro hmem
      obtain ⟨k, hk, hkc⟩ := List.getElem_of_mem hmem
      rw [List.length_take] at hk
      rw [List.getElem_take] at hkc
      exact hbefore k (by omega) (decide_eq_true hkc)
  · rintro ⟨rfl, hnot⟩
    have hidx : (before ++ c :: after).findIdx? (· = c) = some before.length := by
      rw [List.findIdx?_append, List.findIdx?_eq_none_iff.2 ?_, List.findIdx?_cons]
      · simp
      · intro b hb
        exact decide_eq_false fun he => hnot (he ▸ hb)
    rw [splitOnce, hidx]
    simp

/-- The parameter of a trimmed piece. -/
def parameterOf (piece : Bytes) : Option (Bytes × Bytes) :=
  match splitOnce (byte '=') piece with
  | none => none
  | some (rawName, rawValue) =>
      let name := trimOws rawName
      let value := trimOws rawValue
      if name.isEmpty || value.isEmpty || !name.all isHeaderTokenByte ||
          value.any isInvalidHeaderValueByte then none
      else some (name, value)

theorem parseParameters_cons (parameter : Bytes) (rest : List Bytes) (proto host : Option Bytes) :
    parseParameters (parameter :: rest) proto host =
      match parameterOf (trimOws parameter) with
      | none => .error .invalidForwardingMetadata
      | some (name, value) =>
          if eqIgnoreAsciiCase name (ascii "proto") then
            if proto.isSome then .error .ambiguousForwardingMetadata
            else parseParameters rest (some value) host
          else if eqIgnoreAsciiCase name (ascii "host") then
            if host.isSome then .error .ambiguousForwardingMetadata
            else parseParameters rest proto (some value)
          else parseParameters rest proto host := by
  rw [parseParameters, parameterOf]
  cases splitOnce (byte '=') (trimOws parameter) with
  | none => rfl
  | some parts =>
    simp only
    split
    · rfl
    · rfl

/-- The sign `=` is no part of a name. -/
theorem not_mem_of_trimOws_token {name : Bytes}
    (h : ∀ b ∈ trimOws name, isHeaderTokenByte b = true) : byte '=' ∉ name := by
  intro hmem
  have htoken := h _ ((mem_trimOws_iff (by decide)).2 hmem)
  revert htoken
  decide

theorem parameterOf_eq_some_iff {piece : Bytes} {parameter : Bytes × Bytes} :
    parameterOf piece = some parameter ↔ IsParameter piece parameter := by
  have hvisible : ∀ b : UInt8, isInvalidHeaderValueByte b = false ↔ 0x20 < b ∧ b ≠ 0x7f := by
    decide +kernel
  constructor
  · intro h
    unfold parameterOf at h
    split at h
    · cases h
    next rawName rawValue hsplit =>
    simp only at h
    split at h
    · cases h
    next hchecks =>
    cases h
    simp only [Bool.or_eq_true, not_or, Bool.not_eq_true, Bool.not_eq_false',
      List.isEmpty_eq_false_iff, List.all_eq_true, List.any_eq_false] at hchecks
    -- the four checks of the code, one for each clause of a parameter
    obtain ⟨⟨⟨hname, hvalue⟩, htoken⟩, hbytes⟩ := hchecks
    refine ⟨⟨rawName, rawValue, (splitOnce_eq_some_iff.1 hsplit).1, rfl, rfl⟩, hname, hvalue,
      htoken, ?_⟩
    intro b hb
    exact (hvisible b).1 (Bool.not_eq_true _ ▸ hbytes b hb)
  · rintro ⟨⟨name, value, rfl, hname, hvalue⟩, hnameNil, hvalueNil, htoken, hbytes⟩
    obtain ⟨parsedName, parsedValue⟩ := parameter
    simp only at hname hvalue hnameNil hvalueNil htoken hbytes
    subst hname hvalue
    -- the first sign of equality is the one after the name: a token has none
    have hsplit : splitOnce (byte '=') (name ++ byte '=' :: value) = some (name, value) :=
      splitOnce_eq_some_iff.2 ⟨rfl, not_mem_of_trimOws_token htoken⟩
    have hany : (trimOws value).any isInvalidHeaderValueByte = false := by
      rw [List.any_eq_false]
      intro b hb
      rw [(hvisible b).2 (hbytes b hb)]
      exact Bool.false_ne_true
    rw [parameterOf, hsplit]
    simp only [List.isEmpty_eq_false_iff.2 hnameNil, List.isEmpty_eq_false_iff.2 hvalueNil,
      List.all_eq_true.2 htoken, hany, Bool.not_true, Bool.or_self, Bool.false_eq_true, if_false]

/-! ## The loop -/

section Loop

variable {name value : Bytes} {parameters : List (Bytes × Bytes)}

theorem valuesOf_cons_of_eq (h : eqIgnoreAsciiCase name value = true) (text : Bytes) :
    valuesOf ((name, text) :: parameters) value = text :: valuesOf parameters value := by
  rw [valuesOf, List.filter_cons_of_pos (by exact h), List.map_cons, valuesOf]

theorem valuesOf_cons_of_ne (h : ¬ eqIgnoreAsciiCase name value = true) (text : Bytes) :
    valuesOf ((name, text) :: parameters) value = valuesOf parameters value := by
  rw [valuesOf, List.filter_cons_of_neg (by exact h), valuesOf]

/-- No name is both. -/
theorem ne_host_of_eq_proto (h : eqIgnoreAsciiCase name (ascii "proto") = true) :
    ¬ eqIgnoreAsciiCase name (ascii "host") = true := by
  rw [eqIgnoreAsciiCase_iff] at h ⊢
  rw [h]
  decide

theorem toList_inj {o o' : Option Bytes} : o.toList = o'.toList ↔ o = o' := by
  cases o <;> cases o' <;> simp

/-- A slot is filled at most once. -/
theorem toList_eq_append_cons {slot found : Option Bytes} {text : Bytes} {rest : List Bytes} :
    found.toList = slot.toList ++ text :: rest ↔
      slot = none ∧ found.toList = (some text).toList ++ rest := by
  cases slot with
  | none => simp
  | some first =>
    cases found with
    | none => simp
    | some last => simp

/-- The loop reads every piece and collects the values of the two names. -/
theorem parseParameters_eq_ok_iff {pieces : List Bytes} {proto host proto' host' : Option Bytes} :
    parseParameters pieces proto host = .ok (proto', host') ↔
      ∃ parameters, List.Forall₂ IsParameter (pieces.map trimOws) parameters ∧
        proto'.toList = proto.toList ++ valuesOf parameters (ascii "proto") ∧
        host'.toList = host.toList ++ valuesOf parameters (ascii "host") := by
  induction pieces generalizing proto host with
  | nil =>
    simp only [parseParameters, Except.ok.injEq, Prod.mk.injEq, List.map_nil,
      List.forall₂_nil_left_iff, exists_eq_left, valuesOf, List.filter_nil, List.append_nil,
      toList_inj, eq_comm]
  | cons piece pieces ih =>
    rw [parseParameters_cons, List.map_cons]
    cases hparameter : parameterOf (trimOws piece) with
    | none =>
      simp only [reduceCtorEq, false_iff]
      rintro ⟨parameters, hall, -, -⟩
      obtain ⟨parameter, -, hfirst, -⟩ := List.forall₂_cons_left_iff.1 hall
      rw [parameterOf_eq_some_iff.2 hfirst] at hparameter
      cases hparameter
    | some parameter =>
      obtain ⟨name, text⟩ := parameter
      have hfirst := parameterOf_eq_some_iff.1 hparameter
      -- the parameter of a piece is unique
      have hcons : ∀ Q : List (Bytes × Bytes) → Prop,
          (∃ parameters, List.Forall₂ IsParameter (trimOws piece :: pieces.map trimOws) parameters ∧
            Q parameters) ↔
          ∃ parameters, List.Forall₂ IsParameter (pieces.map trimOws) parameters ∧
            Q ((name, text) :: parameters) := by
        intro Q
        constructor
        · rintro ⟨_, hall, hQ⟩
          obtain ⟨parameter, rest, hparam, hrest, rfl⟩ := List.forall₂_cons_left_iff.1 hall
          rw [← parameterOf_eq_some_iff, hparameter, Option.some.injEq] at hparam
          subst hparam
          exact ⟨rest, hrest, hQ⟩
        · rintro ⟨rest, hrest, hQ⟩
          exact ⟨_, .cons hfirst hrest, hQ⟩
      rw [hcons]
      simp only
      split
      · next hproto =>
        simp only [valuesOf_cons_of_eq hproto, valuesOf_cons_of_ne (ne_host_of_eq_proto hproto),
          toList_eq_append_cons]
        cases proto with
        | none => simp [ih]
        | some first => simp
      next hproto =>
      split
      · next hhost =>
        simp only [valuesOf_cons_of_ne hproto, valuesOf_cons_of_eq hhost, toList_eq_append_cons]
        cases host with
        | none => simp [ih]
        | some first => simp
      next hhost =>
      simp only [valuesOf_cons_of_ne hproto, valuesOf_cons_of_ne hhost, ih]

end Loop

/-! ## Values of a header -/

/-- The texts a forwarding header can carry. -/
structure HeaderValue (raw : Bytes) : Prop where
  pos : 1 ≤ raw.length
  length_le : raw.length ≤ maxForwardingValueBytes
  isAscii : isAscii raw = true

section Values

variable {raw proto host : Bytes}

theorem checkedForwardingValue_of_headerValue (h : HeaderValue raw) :
    checkedForwardingValue raw =
      if (trimOws raw).isEmpty then .error .invalidForwardingMetadata else .ok (trimOws raw) := by
  have hfits : ¬ (raw.isEmpty || decide (maxForwardingValueBytes < raw.length) ||
      !isAscii raw) = true := by
    have hne : raw ≠ [] := List.length_pos_iff.1 h.pos
    simp [hne, h.length_le, h.isAscii]
  rw [checkedForwardingValue, if_neg hfits]

/-- **Parsing is exact.** -/
theorem parseSingleForwarded_eq_ok_iff (h : HeaderValue raw) :
    parseSingleForwarded raw = .ok (proto, host) ↔ ForwardedValue raw proto host := by
  have hpieces : ((trimOws raw).splitOn (byte ';')).map trimOws =
      (raw.splitOn (byte ';')).map trimOws := map_trimOws_splitOn (by decide) raw
  have hmem : ∀ b : UInt8, isOws b = false → ((trimOws raw).contains b = true ↔ b ∈ raw) := by
    intro b hb
    rw [List.contains_iff_mem, mem_trimOws_iff hb]
  have hloop : ∀ found : Option Bytes × Option Bytes,
      parseParameters ((trimOws raw).splitOn (byte ';')) none none = .ok found ↔
        ∃ parameters, List.Forall₂ IsParameter ((raw.splitOn (byte ';')).map trimOws) parameters ∧
          found.1.toList = valuesOf parameters (ascii "proto") ∧
          found.2.toList = valuesOf parameters (ascii "host") := by
    intro found
    rw [parseParameters_eq_ok_iff, hpieces]
    rfl
  rw [parseSingleForwarded, checkedForwardingValue_of_headerValue h]
  constructor
  · intro hok
    obtain ⟨trimmed, htrimmed, hok⟩ := bind_eq_ok_iff.1 hok
    split at htrimmed
    · cases htrimmed
    cases htrimmed
    split at hok
    · cases hok
    next hsingle =>
    simp only [Bool.or_eq_true, not_or, hmem (byte ',') (by decide), hmem (byte '"') (by decide),
      hmem (byte '\\') (by decide)] at hsingle
    obtain ⟨⟨foundProto, foundHost⟩, hfound, hok⟩ := bind_eq_ok_iff.1 hok
    obtain ⟨parameters, hall, hproto, hhost⟩ := (hloop _).1 hfound
    simp only at hok
    split at hok
    · cases hok
      exact ⟨⟨hsingle.1.1, hsingle.1.2, hsingle.2⟩, parameters, hall, hproto.symm, hhost.symm⟩
    · cases hok
  · rintro ⟨⟨hcomma, hquote, hbackslash⟩, parameters, hall, hproto, hhost⟩
    have hempty : ¬ (trimOws raw).isEmpty = true := by
      intro hnil
      -- an empty text has one empty piece, which is no parameter
      rw [← hpieces, List.isEmpty_iff.1 hnil] at hall
      obtain ⟨parameter, -, hfirst, -⟩ := List.forall₂_cons_left_iff.1 hall
      obtain ⟨name, value, hpiece, -, -⟩ := hfirst.split
      exact absurd hpiece (by simp [trimOws])
    have hsingle : ¬ ((trimOws raw).contains (byte ',') || (trimOws raw).contains (byte '"') ||
        (trimOws raw).contains (byte '\\')) = true := by
      simp only [Bool.or_eq_true, not_or, hmem (byte ',') (by decide),
        hmem (byte '"') (by decide), hmem (byte '\\') (by decide)]
      exact ⟨⟨hcomma, hquote⟩, hbackslash⟩
    have hfound := (hloop (some proto, some host)).2
      ⟨parameters, hall, hproto.symm, hhost.symm⟩
    rw [if_neg hempty]
    refine bind_eq_ok_iff.2 ⟨_, rfl, ?_⟩
    rw [if_neg hsingle]
    exact bind_eq_ok_iff.2 ⟨_, hfound, rfl⟩

end Values

/-! ## Other orders and other parameters -/

/-- A parameter of another name. -/
structure OtherParameter (piece : Bytes) : Prop where
  single : byte ',' ∉ piece ∧ byte '"' ∉ piece ∧ byte '\\' ∉ piece
  parameter : ∃ parameter, IsParameter (trimOws piece) parameter ∧
    ¬ eqIgnoreAsciiCase parameter.1 (ascii "proto") = true ∧
    ¬ eqIgnoreAsciiCase parameter.1 (ascii "host") = true

/-- The parameters of the pieces that are parameters. -/
def parametersOf (pieces : List Bytes) : List (Bytes × Bytes) :=
  pieces.filterMap fun piece => parameterOf (trimOws piece)

section Orders

variable {raw raw' proto host : Bytes} {pieces pieces' extra : List Bytes}

theorem parametersOf_cons {piece : Bytes} {parameter : Bytes × Bytes}
    (h : IsParameter (trimOws piece) parameter) :
    parametersOf (piece :: pieces) = parameter :: parametersOf pieces := by
  simp only [parametersOf, List.filterMap_cons, parameterOf_eq_some_iff.2 h]

theorem forall₂_isParameter_iff {parameters : List (Bytes × Bytes)} :
    List.Forall₂ IsParameter (pieces.map trimOws) parameters ↔
      (∀ piece ∈ pieces, ∃ parameter, IsParameter (trimOws piece) parameter) ∧
        parameters = parametersOf pieces := by
  induction pieces generalizing parameters with
  | nil => simp [parametersOf]
  | cons piece pieces ih =>
    rw [List.map_cons, List.forall₂_cons_left_iff]
    constructor
    · rintro ⟨parameter, rest, hfirst, hrest, rfl⟩
      obtain ⟨hall, rfl⟩ := ih.1 hrest
      exact ⟨List.forall_mem_cons.2 ⟨⟨parameter, hfirst⟩, hall⟩, (parametersOf_cons hfirst).symm⟩
    · rintro ⟨hall, rfl⟩
      obtain ⟨⟨parameter, hfirst⟩, hrest⟩ := List.forall_mem_cons.1 hall
      exact ⟨parameter, parametersOf pieces, hfirst, ih.2 ⟨hrest, rfl⟩, parametersOf_cons hfirst⟩

theorem forwardedValue_iff :
    ForwardedValue raw proto host ↔
      (byte ',' ∉ raw ∧ byte '"' ∉ raw ∧ byte '\\' ∉ raw) ∧
        (∀ piece ∈ raw.splitOn (byte ';'), ∃ parameter, IsParameter (trimOws piece) parameter) ∧
        valuesOf (parametersOf (raw.splitOn (byte ';'))) (ascii "proto") = [proto] ∧
        valuesOf (parametersOf (raw.splitOn (byte ';'))) (ascii "host") = [host] := by
  constructor
  · rintro ⟨hsingle, parameters, hall, hproto, hhost⟩
    obtain ⟨hpieces, rfl⟩ := forall₂_isParameter_iff.1 hall
    exact ⟨hsingle, hpieces, hproto, hhost⟩
  · rintro ⟨hsingle, hpieces, hproto, hhost⟩
    exact ⟨hsingle, _, forall₂_isParameter_iff.2 ⟨hpieces, rfl⟩, hproto, hhost⟩

/-- Parameters of other names have no value of the two names. -/
theorem valuesOf_other (hextra : ∀ piece ∈ extra, OtherParameter piece) {name : Bytes}
    (hname : name = ascii "proto" ∨ name = ascii "host") :
    valuesOf (parametersOf extra) name = [] := by
  rw [valuesOf, List.map_eq_nil_iff, List.filter_eq_nil_iff]
  intro parameter hmem
  obtain ⟨piece, hpiece, hparameter⟩ := List.mem_filterMap.1 hmem
  obtain ⟨other, hother, hproto, hhost⟩ := (hextra piece hpiece).parameter
  rw [parameterOf_eq_some_iff.2 hother] at hparameter
  cases hparameter
  rcases hname with rfl | rfl
  · exact hproto
  · exact hhost

theorem valuesOf_perm_iff (hperm : pieces'.Perm (pieces ++ extra))
    (hextra : ∀ piece ∈ extra, OtherParameter piece) {name text : Bytes}
    (hname : name = ascii "proto" ∨ name = ascii "host") :
    valuesOf (parametersOf pieces') name = [text] ↔
      valuesOf (parametersOf pieces) name = [text] := by
  have hparameters : (parametersOf pieces').Perm (parametersOf pieces ++ parametersOf extra) := by
    rw [parametersOf, parametersOf, parametersOf, ← List.filterMap_append]
    exact hperm.filterMap _
  have hvalues : (valuesOf (parametersOf pieces') name).Perm
      (valuesOf (parametersOf pieces) name) := by
    have happend := (hparameters.filter
      (fun parameter => eqIgnoreAsciiCase parameter.1 name)).map Prod.snd
    rw [List.filter_append, List.map_append, ← valuesOf, ← valuesOf, ← valuesOf,
      valuesOf_other hextra hname, List.append_nil] at happend
    exact happend
  constructor
  · intro h
    rw [h] at hvalues
    exact List.perm_singleton.1 hvalues.symm
  · intro h
    rw [h] at hvalues
    exact List.perm_singleton.1 hvalues

/-- The order of the parameters, and parameters of other names, do not matter. -/
theorem forwardedValue_perm_iff
    (hperm : (raw'.splitOn (byte ';')).Perm (raw.splitOn (byte ';') ++ extra))
    (hextra : ∀ piece ∈ extra, OtherParameter piece) :
    ForwardedValue raw' proto host ↔ ForwardedValue raw proto host := by
  -- a byte that no piece and no separator has is not in the value
  have hmem : ∀ b : UInt8, b ≠ byte ';' → (∀ piece ∈ extra, b ∉ piece) → (b ∉ raw' ↔ b ∉ raw) := by
    intro b hb hnot
    rw [mem_iff_mem_splitOn hb, mem_iff_mem_splitOn hb raw]
    simp only [hperm.mem_iff, List.mem_append, not_exists, not_and]
    constructor
    · intro h piece hpiece
      exact h piece (Or.inl hpiece)
    · rintro h piece (hpiece | hpiece)
      · exact h piece hpiece
      · exact hnot piece hpiece
  -- every further piece is a parameter of its own
  have hpieces : (∀ piece ∈ raw'.splitOn (byte ';'),
        ∃ parameter, IsParameter (trimOws piece) parameter) ↔
      ∀ piece ∈ raw.splitOn (byte ';'), ∃ parameter, IsParameter (trimOws piece) parameter := by
    simp only [hperm.mem_iff, List.mem_append]
    constructor
    · intro h piece hpiece
      exact h piece (Or.inl hpiece)
    · rintro h piece (hpiece | hpiece)
      · exact h piece hpiece
      · obtain ⟨parameter, hparameter, -⟩ := (hextra piece hpiece).parameter
        exact ⟨parameter, hparameter⟩
  rw [forwardedValue_iff, forwardedValue_iff, hpieces,
    hmem (byte ',') (by decide) fun piece hpiece => (hextra piece hpiece).single.1,
    hmem (byte '"') (by decide) fun piece hpiece => (hextra piece hpiece).single.2.1,
    hmem (byte '\\') (by decide) fun piece hpiece => (hextra piece hpiece).single.2.2,
    valuesOf_perm_iff hperm hextra (Or.inl rfl), valuesOf_perm_iff hperm hextra (Or.inr rfl)]

/-- Another order of the pieces is a value of the same length. -/
theorem HeaderValue.of_perm (h : HeaderValue raw)
    (hperm : (raw'.splitOn (byte ';')).Perm (raw.splitOn (byte ';'))) : HeaderValue raw' := by
  have hlen : raw'.length + 1 = raw.length + 1 := by
    rw [length_splitOn (c := byte ';') raw', length_splitOn (c := byte ';') raw]
    exact (hperm.map _).sum_eq
  have hpos := h.pos
  have hle := h.length_le
  refine ⟨by omega, by omega, ?_⟩
  have hascii := h.isAscii
  simp only [Keylix.Lib.isAscii, List.all_eq_true, decide_eq_true_eq] at hascii ⊢
  intro b hb
  by_cases hsemicolon : b = byte ';'
  · rw [hsemicolon]
    decide
  · apply hascii
    rw [mem_iff_mem_splitOn hsemicolon] at hb ⊢
    simpa only [hperm.mem_iff] using hb

end Orders

/-! ## The adapters -/

section Adapters

variable {raw proto host : Bytes}

/-- The values of a header value are within it, without white space and without a comma. -/
theorem singleForwardingValue_of_mem (h : HeaderValue raw) (hcomma : byte ',' ∉ raw)
    {text name : Bytes} (htext : text ∈ valuesOf (parametersOf (raw.splitOn (byte ';'))) name) :
    singleForwardingValue text = .ok text := by
  obtain ⟨parameter, hparameter, rfl⟩ := List.mem_map.1 htext
  obtain ⟨piece, hpiece, hread⟩ := List.mem_filterMap.1 (List.mem_filter.1 hparameter).1
  have hread := parameterOf_eq_some_iff.1 hread
  obtain ⟨rawName, rawValue, hsplit, -, hvalue⟩ := hread.split
  -- trimming and splitting only shorten
  have hlen : parameter.2.length ≤ raw.length := by
    have hvalueLen := length_trimOws_le rawValue
    have hpieceLen := length_trimOws_le piece
    have hrawLen : piece.length + 1 ≤ raw.length + 1 := by
      rw [length_splitOn (c := byte ';') raw]
      exact List.le_sum_of_mem (List.mem_map_of_mem hpiece)
    rw [hsplit, List.length_append, List.length_cons] at hpieceLen
    rw [hvalue]
    omega
  -- splitting loses the semicolons alone
  have hmem : ∀ b ∈ parameter.2, b ≠ byte ';' → b ∈ raw := by
    intro b hb hsemicolon
    rw [hvalue] at hb
    refine (mem_iff_mem_splitOn hsemicolon raw).2 ⟨piece, hpiece, mem_of_mem_trimOws ?_⟩
    rw [hsplit]
    exact List.mem_append_right _ (List.mem_cons_of_mem _ (mem_of_mem_trimOws hb))
  have hows : ∀ b : UInt8, 0x20 < b ∧ b ≠ 0x7f →
      isOws b = false ∧ isInvalidHeaderValueByte b = false := by decide +kernel
  have htrim : trimOws parameter.2 = parameter.2 :=
    trimOws_eq_self fun b hb => (hows b (hread.value_visible b hb)).1
  have hvisible : parameter.2.any isInvalidHeaderValueByte = false := by
    rw [List.any_eq_false]
    intro b hb
    rw [(hows b (hread.value_visible b hb)).2]
    exact Bool.false_ne_true
  have hsingle : ¬ parameter.2.contains (byte ',') = true := by
    rw [List.contains_iff_mem]
    exact fun hb => hcomma (hmem _ hb (by decide))
  have hheader : HeaderValue parameter.2 := by
    refine ⟨List.length_pos_iff.2 hread.value_ne_nil, hlen.trans h.length_le, ?_⟩
    have hascii := h.isAscii
    simp only [isAscii, List.all_eq_true, decide_eq_true_eq] at hascii ⊢
    intro b hb
    by_cases hsemicolon : b = byte ';'
    · rw [hsemicolon]
      decide
    · exact hascii b (hmem b hb hsemicolon)
  rw [singleForwardingValue, checkedForwardingValue_of_headerValue hheader, htrim,
    if_neg (by simpa using hread.value_ne_nil)]
  refine bind_eq_ok_iff.2 ⟨_, rfl, ?_⟩
  rw [if_neg hsingle, hvisible]
  rfl

/-- The values of the two headers are the values of the one header. -/
theorem resolveXForwarded_of_forwarded (h : HeaderValue raw)
    (hvalue : ForwardedValue raw proto host) :
    resolveXForwarded ⟨none, some proto, some host⟩ = .ok (proto, host) := by
  -- each of the two values occurs once, and passes the checks of the header of its own
  obtain ⟨⟨hcomma, -, -⟩, -, hproto, hhost⟩ := forwardedValue_iff.1 hvalue
  have hsingle : ∀ text name, valuesOf (parametersOf (raw.splitOn (byte ';'))) name = [text] →
      singleForwardingValue text = .ok text := by
    intro text name hvalues
    exact singleForwardingValue_of_mem h hcomma (hvalues ▸ List.mem_singleton_self text)
  have hprotoValue := hsingle proto _ hproto
  have hhostValue := hsingle host _ hhost
  simp only [resolveXForwarded, Option.isSome_none, Bool.false_eq_true, if_false, hprotoValue,
    hhostValue, bind, Except.bind]

/-- **A `Forwarded` value is read exactly, in any order, and as the other adapters read it.** -/
theorem forwarded_exact {P : Type} (isTrustedProxy : P → Bool) (h : HeaderValue raw) :
    (∀ proto host, parseSingleForwarded raw = .ok (proto, host) ↔
      ForwardedValue raw proto host) ∧
    (∀ raw', (raw'.splitOn (byte ';')).Perm (raw.splitOn (byte ';')) →
      ∀ proto host, parseSingleForwarded raw' = .ok (proto, host) ↔
        parseSingleForwarded raw = .ok (proto, host)) ∧
    (∀ raw' extra, HeaderValue raw' →
      (raw'.splitOn (byte ';')).Perm (raw.splitOn (byte ';') ++ extra) →
      (∀ piece ∈ extra, OtherParameter piece) →
      ∀ proto host, parseSingleForwarded raw' = .ok (proto, host) ↔
        parseSingleForwarded raw = .ok (proto, host)) ∧
    ∀ proto host, parseSingleForwarded raw = .ok (proto, host) →
      ∀ peer path, isTrustedProxy peer = true →
        TrustedProxyTargetResolver.resolve ⟨isTrustedProxy, .forwarded⟩ peer path
            ⟨some raw, none, none⟩ =
          TrustedProxyTargetResolver.resolve ⟨isTrustedProxy, .xForwarded⟩ peer path
            ⟨none, some proto, some host⟩ ∧
        TrustedProxyTargetResolver.resolve ⟨isTrustedProxy, .forwarded⟩ peer path
            ⟨some raw, none, none⟩ = resolveDirectTarget proto host path := by
  refine ⟨fun proto host => parseSingleForwarded_eq_ok_iff h, ?_, ?_, ?_⟩
  · intro raw' hperm proto host
    rw [parseSingleForwarded_eq_ok_iff (h.of_perm hperm), parseSingleForwarded_eq_ok_iff h]
    exact forwardedValue_perm_iff (List.append_nil _ ▸ hperm)
      fun piece hpiece => absurd hpiece List.not_mem_nil
  · intro raw' extra h' hperm hextra proto host
    rw [parseSingleForwarded_eq_ok_iff h', parseSingleForwarded_eq_ok_iff h]
    exact forwardedValue_perm_iff hperm hextra
  · intro proto host hparse peer path htrusted
    have hforwarded : resolveForwarded ⟨some raw, none, none⟩ = .ok (proto, host) := hparse
    have hxForwarded :=
      resolveXForwarded_of_forwarded h ((parseSingleForwarded_eq_ok_iff h).1 hparse)
    -- what follows is the same for both families: only the pair of values matters
    have hresolve : ∀ family headers,
        TrustedProxyTargetResolver.resolveHeaders (P := P) ⟨isTrustedProxy, family⟩ headers =
          .ok (proto, host) →
        TrustedProxyTargetResolver.resolve ⟨isTrustedProxy, family⟩ peer path headers =
          resolveDirectTarget proto host path := by
      intro family headers hheaders
      rw [TrustedProxyTargetResolver.resolve, if_neg (by simp [htrusted]), hheaders]
      rfl
    have hfirst := hresolve .forwarded ⟨some raw, none, none⟩ hforwarded
    have hsecond := hresolve .xForwarded ⟨none, some proto, some host⟩ hxForwarded
    exact ⟨hfirst.trans hsecond.symm, hfirst⟩

/-- A value with a parameter of another name, and white space that is trimmed. -/
theorem forwarded_exact_sample :
    HeaderValue (ascii "for=192.0.2.1; PROTO=https ;host=api.example.com") ∧
      ForwardedValue (ascii "for=192.0.2.1; PROTO=https ;host=api.example.com") (ascii "https")
        (ascii "api.example.com") ∧
      TrustedProxyTargetResolver.resolve (P := Unit) ⟨fun _ => true, .forwarded⟩ () (ascii "/rpc")
          ⟨some (ascii "for=192.0.2.1; PROTO=https ;host=api.example.com"), none, none⟩ =
        resolveDirectTarget (ascii "https") (ascii "api.example.com") (ascii "/rpc") := by
  have h : HeaderValue (ascii "for=192.0.2.1; PROTO=https ;host=api.example.com") :=
    ⟨by decide, by decide, by decide⟩
  have hparse : parseSingleForwarded (ascii "for=192.0.2.1; PROTO=https ;host=api.example.com") =
      .ok (ascii "https", ascii "api.example.com") := by decide +kernel
  obtain ⟨hexact, -, -, hadapters⟩ := forwarded_exact (P := Unit) (fun _ => true) h
  exact ⟨h, (hexact _ _).1 hparse, (hadapters _ _ hparse () (ascii "/rpc") rfl).2⟩

end Adapters

end Keylix.Http
