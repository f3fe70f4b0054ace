import Keylix.Dpop.Equivalence
import Keylix.Dpop.Proof

/-!
# The size of a target

The limit on the length of a target is checked on the text before it is normalised. What comes out
is at most 59 bytes longer (`EffectiveRequestTarget.length_asStr_le`), and exactly as long as the
text with what normalisation adds and without what it leaves out
(`EffectiveRequestTarget.length_asStr_add`): an empty path gains a slash and an IPv6 address may be
longer in its canonical form. `length_target_le_iff` says when the target is inside the limit.
-/

set_option autoImplicit false

namespace Keylix.Dpop

open Keylix.Lib Keylix.Lib.PctToken

theorem length_text_decodedTokens_le {s : Bytes} {ts : List PctToken}
    (h : decodedTokens s = some ts) : (text ts).length ≤ s.length := by
  obtain ⟨us, hus, rfl⟩ := Option.map_eq_some_iff.1 h
  calc (text (us.map (decode isUnreserved))).length
      ≤ (text us).length := length_text_map_le (length_decode_le isUnreserved) us
    _ = s.length := length_text_of_tokens hus

theorem length_hostOf_le {authority : Bytes} {host : Host} (h : hostOf authority = some host) :
    host.text.length ≤ authority.length + 44 := by
  unfold hostOf at h
  split at h
  · obtain ⟨addr, -, rfl⟩ := Option.map_eq_some_iff.1 h
    have := addr.length_display_le
    simp only [Host.text, List.length_cons, List.length_append, List.length_nil]
    omega
  · obtain ⟨name, hname, rfl⟩ := Option.map_eq_some_iff.1 h
    obtain ⟨ts, hts, rfl⟩ := Option.map_eq_some_iff.1 hname
    have hdecoded := length_text_decodedTokens_le hts
    have hfold := length_text_map_le length_foldCase_le ts
    have hcut : (authority.takeWhile fun b => !decide (b = byte ':')).length ≤ authority.length :=
      (List.takeWhile_sublist _).length_le
    simp only [Host.text]
    omega

theorem length_portText_le {scheme : Scheme} {port : Nat} (h : port < 65536) :
    (portText scheme port).length ≤ 6 := by
  unfold portText
  split
  · exact Nat.zero_le _
  · have : (decimal port).length ≤ 5 := length_numeral_le (by norm_num) (by norm_num) (by omega)
    rw [List.length_cons]
    omega

theorem length_resolvedPath_le {path : Bytes} {segs : List Bytes}
    (hpath : path = [] ∨ ∃ rest, path = byte '/' :: rest) (h : resolvedPath path = some segs) :
    (joinSegments segs).length ≤ path.length + 1 := by
  obtain ⟨ts, hts, rfl⟩ := Option.map_eq_some_iff.1 h
  have hdecoded := length_text_decodedTokens_le hts
  -- the decoded path still starts with its slash, so its segments join back to it
  obtain ⟨rest, hrest⟩ : ∃ rest,
    (if path.isEmpty then [byte '/'] else path) = byte '/' :: rest := by
    rcases hpath with rfl | ⟨rest, rfl⟩
    · exact ⟨[], rfl⟩
    · exact ⟨rest, rfl⟩
  have hlen : (byte '/' :: rest).length ≤ path.length + 1 := by
    rcases hpath with rfl | ⟨rest', rfl⟩
    · rw [← hrest]
      exact Nat.le_refl _
    · rw [← hrest]
      exact Nat.le_succ _
  rw [hrest] at hts hdecoded
  rw [decodedTokens_slash] at hts
  obtain ⟨us, -, rfl⟩ := Option.map_eq_some_iff.1 hts
  have htext : text (lit (byte '/') :: us) = byte '/' :: text us := rfl
  rw [htext] at hdecoded ⊢
  have hresolve := length_resolveSegments_le [] (pathSegments (byte '/' :: text us))
  rw [joinSegments_pathSegments] at hresolve
  have hnil : (joinSegments []).length = 0 := rfl
  omega

/-- The input of `normalizeHttpUri` is bounded. -/
theorem length_le_of_normalizeHttpUri {input t : Bytes} (h : normalizeHttpUri input = .ok t) :
    input.length ≤ maxTargetBytes := by
  obtain ⟨rawScheme, authority, suffix, hcut⟩ := exists_isCut h
  rw [normalizeHttpUri_of_isCut hcut] at h
  split at h
  · next htext =>
    simp only [isTargetText, Bool.not_eq_true', Bool.or_eq_false_iff, decide_eq_false_iff_not,
      not_lt] at htext
    exact htext.1.1.2
  · cases h

/-- A target is at most 59 bytes longer than the longest accepted text. -/
theorem EffectiveRequestTarget.length_asStr_le (t : EffectiveRequestTarget) :
    t.asStr.length ≤ maxTargetBytes + 59 := by
  obtain ⟨input, hinput⟩ := t.normalized
  obtain ⟨T, htarget, htext, hnormal⟩ := normalizeHttpUri_eq_text hinput
  obtain ⟨rawScheme, authority, suffix, hcut⟩ := exists_isCut hinput
  have hinputLen := length_le_of_normalizeHttpUri hinput
  have hparts : authority.length + suffix.length ≤ input.length := by
    rw [hcut.eq]
    simp only [List.length_append, List.length_cons]
    omega
  rw [ofText_of_isCut hcut] at htarget
  obtain ⟨-, hhost, -, hsegs⟩ := HttpUri.target_eq_some htarget
  have hhostLen : T.host.text.length ≤ authority.length + 44 := length_hostOf_le hhost
  have hpathLen := length_resolvedPath_le (pathPart_cases hcut.suffix) hsegs
  have hpathCut : (pathPart suffix).length ≤ suffix.length :=
    (List.takeWhile_sublist _).length_le
  have hport : (portText T.scheme T.port).length ≤ 6 := length_portText_le hnormal.port
  have hscheme : T.scheme.text.length ≤ 5 := by cases T.scheme <;> decide
  have hslashes : (ascii "://").length = 3 := by decide
  rw [EffectiveRequestTarget.asStr, htext]
  simp only [HttpTarget.text, List.length_append]
  omega

/-! ## Exact size

`addedBytes` and `removedBytes` count what normalisation writes and leaves out, from the components
of its input. -/

/-- The host of an authority as it is written: the text in the brackets, or the name. -/
def hostPart (authority : Bytes) : Bytes :=
  if authority.head? = some (byte '[') then authority.tail.takeWhile fun b => !decide (b = byte ']')
  else authority.takeWhile fun b => !decide (b = byte ':')

/-- The digits of the port of an authority. -/
def portPart (authority : Bytes) : Bytes :=
  (if authority.head? = some (byte '[') then
    (authority.dropWhile fun b => !decide (b = byte ']')).tail
  else authority.dropWhile fun b => !decide (b = byte ':')).tail

/-- The escapes of unreserved characters in a component. -/
def unreservedEscapes (s : Bytes) : Nat :=
  ((tokens s).getD []).countP (isDecodable isUnreserved)

/-- The length of the form in which an address is written again. -/
def displayLength (literal : Bytes) : Nat :=
  match Ipv6Addr.parse literal with
  | some addr => addr.display.length
  | none => literal.length

/-- The bytes that the host gains: an address may be longer in its canonical form. -/
def hostAdded (authority : Bytes) : Nat :=
  if authority.head? = some (byte '[') then
    displayLength (hostPart authority) - (hostPart authority).length
  else 0

/-- The bytes that the host loses. -/
def hostRemoved (authority : Bytes) : Nat :=
  if authority.head? = some (byte '[') then
    (hostPart authority).length - displayLength (hostPart authority)
  else 2 * unreservedEscapes (hostPart authority)

/-- The bytes that the port loses: all of it when it is the default, else its leading zeros. -/
def portRemoved (scheme : Scheme) (digits : Bytes) : Nat :=
  match parseNumeral 10 digits with
  | some port => if port = scheme.defaultPort then digits.length + 1 else redundantZeros digits
  | none => 0

/-- The bytes that a path loses. -/
def pathRemoved (path : Bytes) : Nat :=
  2 * unreservedEscapes path +
    match decodedTokens path with
    | some ts => dotBytes (pathSegments (text ts))
    | none => 0

/-- The bytes of the query and the fragment. -/
def queryBytes (input : Bytes) : Nat := (input.dropWhile fun b => !endsPath b).length

/-- The bytes that normalisation adds: the slash of an empty path and the growth of an address. -/
def addedBytes (input : Bytes) : Nat :=
  let u := HttpUri.ofText input
  (if u.path.isEmpty then 1 else 0) + hostAdded u.authority

/-- The bytes that normalisation takes away. -/
def removedBytes (input : Bytes) : Nat :=
  let u := HttpUri.ofText input
  hostRemoved u.authority +
    (u.schemeOf.elim 0 fun scheme => portRemoved scheme (portPart u.authority)) +
    pathRemoved u.path + queryBytes input

theorem length_decodedTokens {s : Bytes} {ts : List PctToken} (h : decodedTokens s = some ts) :
    (text ts).length + 2 * unreservedEscapes s = s.length := by
  obtain ⟨us, hus, rfl⟩ := Option.map_eq_some_iff.1 h
  rw [unreservedEscapes, hus, Option.getD_some, length_text_map_decode, length_text_of_tokens hus]

theorem length_hostTokens {s : Bytes} {ts : List PctToken} (h : hostTokens s = some ts) :
    (text ts).length + 2 * unreservedEscapes s = s.length := by
  obtain ⟨us, hus, rfl⟩ := Option.map_eq_some_iff.1 h
  rw [length_text_map_foldCase, length_decodedTokens hus]

theorem parsePort_digits {rawPort : Bytes} {port : Nat} (h : parsePort rawPort = .ok port) :
    ∀ b ∈ rawPort, isAsciiDigit b = true := by
  unfold parsePort at h
  split at h
  · cases h
  · next hchecks =>
    simp only [Bool.or_eq_true, not_or, Bool.not_eq_true', Bool.not_eq_false,
      List.all_eq_true] at hchecks
    exact hchecks.2

/-- The port and the colon before it. -/
theorem length_portText_add (scheme : Scheme) {tail : Bytes} {port : Option Nat}
    (h : parseTailPort tail = .ok port) :
    (portText scheme (port.getD scheme.defaultPort)).length + portRemoved scheme tail.tail =
      tail.length := by
  rw [portRemoved, (parseNumeral_tail h).1]
  rcases parseTailPort_eq_ok h with ⟨rfl, rfl⟩ | ⟨rawPort, p, rfl, hp, rfl⟩
  · simp [portText]
  · have hlen := length_decimal_add (parsePort_digits hp) (parsePort_eq_ok hp).1
    by_cases hdefault : p = scheme.defaultPort
    · simp [portText, hdefault]
    · simp only [portText, hdefault, Option.getD_some, if_false, List.length_cons, List.tail_cons]
      omega

theorem explicitPort_eq (authority : Bytes) :
    explicitPort authority = parseNumeral 10 (portPart authority) := rfl

/-- The host and the port of an accepted authority. -/
theorem length_authority {authority : Bytes} {r : Bytes × Option Nat} {host : Host}
    (h : normalizeHostPort authority = .ok r) (hhost : hostOf authority = some host)
    (scheme : Scheme) :
    host.text.length + (portText scheme ((explicitPort authority).getD scheme.defaultPort)).length +
        hostRemoved authority + portRemoved scheme (portPart authority) =
      authority.length + hostAdded authority := by
  rcases normalizeHostPort_cases h with ⟨literal, tail, addr, port, rfl, hnot, haddr, hport, -⟩ |
    ⟨name, tail, name', port, rfl, -, hopen, -, hcolon, -, hport, -⟩
  -- a literal is written in its canonical form, which may be shorter or longer
  · have hbracket : (byte '[' :: (literal ++ byte ']' :: tail)).head? = some (byte '[') := rfl
    have hstop : ∀ x, (byte ']' :: tail).head? = some x → x = byte ']' := by
      rintro x hx
      cases hx
      rfl
    have hfirst : byte '[' ≠ byte ']' := by decide
    have hpart : hostPart (byte '[' :: (literal ++ byte ']' :: tail)) = literal := by
      rw [hostPart, if_pos hbracket, List.tail_cons, takeWhile_ne hnot hstop]
    have hdigits : portPart (byte '[' :: (literal ++ byte ']' :: tail)) = tail.tail := by
      simp only [portPart, List.head?_cons, if_true, List.dropWhile_cons, hfirst, decide_false,
        Bool.not_false, dropWhile_ne hnot hstop, List.tail_cons]
    have hdisplay : displayLength literal = addr.display.length := by rw [displayLength, haddr]
    have htext : host.text.length = addr.display.length + 2 := by
      rw [hostOf, if_pos hbracket, List.tail_cons, takeWhile_ne hnot hstop, haddr] at hhost
      cases hhost
      simp [Host.text]
    have hlen := length_portText_add scheme hport
    rw [explicitPort_eq, hdigits, (parseNumeral_tail hport).1, hostRemoved, hostAdded,
      if_pos hbracket, if_pos hbracket, hpart, hdisplay, htext]
    simp only [List.length_cons, List.length_append] at hlen ⊢
    omega
  -- a name only loses the two digits of each unreserved escape
  · have hbracket : (name ++ tail).head? ≠ some (byte '[') :=
      fun hh => hopen (List.mem_of_mem_head? hh)
    have hstop := head?_tail_eq hport
    have hpart : hostPart (name ++ tail) = name := by
      rw [hostPart, if_neg hbracket, takeWhile_ne hcolon hstop]
    have hdigits : portPart (name ++ tail) = tail.tail := by
      rw [portPart, if_neg hbracket, dropWhile_ne hcolon hstop]
    have htext : host.text.length + 2 * unreservedEscapes name = name.length := by
      rw [hostOf, if_neg hbracket, takeWhile_ne hcolon hstop] at hhost
      obtain ⟨ts, hts, rfl⟩ := Option.map_eq_some_iff.1 hhost
      exact length_hostTokens hts
    have hlen := length_portText_add scheme hport
    rw [explicitPort_eq, hdigits, (parseNumeral_tail hport).1, hostRemoved, hostAdded,
      if_neg hbracket, if_neg hbracket, hpart]
    simp only [List.length_append] at hlen ⊢
    omega

/-- The path of an accepted URI. -/
theorem length_path {path : Bytes} {segs : List Bytes}
    (hpath : path = [] ∨ ∃ rest, path = byte '/' :: rest) (h : resolvedPath path = some segs) :
    (joinSegments segs).length + pathRemoved path =
      path.length + if path.isEmpty then 1 else 0 := by
  rcases hpath with rfl | ⟨rest, rfl⟩
  · have hslash : resolvedPath [] = some [[]] := by decide
    have hnone : pathRemoved [] = 0 := by decide
    rw [hslash] at h
    cases h
    rw [hnone]
    rfl
  · obtain ⟨ts, hts, rfl⟩ := Option.map_eq_some_iff.1 h
    change decodedTokens (byte '/' :: rest) = some ts at hts
    have hdecoded := length_decodedTokens hts
    have hremoved : pathRemoved (byte '/' :: rest) =
        2 * unreservedEscapes (byte '/' :: rest) + dotBytes (pathSegments (text ts)) := by
      rw [pathRemoved, hts]
    rw [hremoved]
    -- the decoded path still starts with its slash, so its segments join back to it
    rw [decodedTokens_slash] at hts
    obtain ⟨us, -, rfl⟩ := Option.map_eq_some_iff.1 hts
    have htext : text (lit (byte '/') :: us) = byte '/' :: text us := rfl
    have hresolve := length_resolveSegments_add (pathSegments_ne_nil (byte '/' :: text us))
    rw [joinSegments_pathSegments] at hresolve
    rw [htext] at hdecoded ⊢
    simp only [List.isEmpty_cons, Bool.false_eq_true, if_false]
    omega

theorem normalizeParts_hostPort {rawScheme authority rawPath t : Bytes}
    (h : normalizeParts rawScheme authority rawPath = .ok t) :
    ∃ r, normalizeHostPort authority = .ok r := by
  unfold normalizeParts at h
  cases hscheme : parseScheme rawScheme with
  | error e =>
    rw [hscheme] at h
    cases h
  | ok scheme =>
    rw [hscheme] at h
    simp only [bind, Except.bind] at h
    split at h
    · cases h
    cases hhost : normalizeHostPort authority with
    | error e =>
      rw [normalizeAuthority, hhost] at h
      cases h
    | ok r => exact ⟨r, rfl⟩

/-- The query and the fragment are what follows the path. -/
theorem queryBytes_of_isCut {input rawScheme authority suffix : Bytes}
    (h : IsCut input rawScheme authority suffix) (hscheme : ∀ b ∈ rawScheme, endsPath b = false) :
    (pathPart suffix).length + queryBytes input = suffix.length := by
  have hauthority : ∀ b ∈ authority, endsPath b = false := by
    have hends : ∀ b : UInt8, endsAuthority b = false → endsPath b = false := by decide +kernel
    exact fun b hb => hends b (h.authority b hb)
  have hprefix : ∀ b ∈ rawScheme ++ ascii "://" ++ authority, (!endsPath b) = true := by
    have hsep : ∀ b ∈ ascii "://", endsPath b = false := by decide +kernel
    intro b hb
    simp only [List.mem_append] at hb
    rcases hb with (hb | hb) | hb
    · rw [hscheme b hb]
      rfl
    · rw [hsep b hb]
      rfl
    · rw [hauthority b hb]
      rfl
  have hinput : input = (rawScheme ++ ascii "://" ++ authority) ++ suffix := by
    rw [h.eq]
    simp [ascii]
  rw [queryBytes, hinput, List.dropWhile_append_of_pos hprefix, pathPart, ← List.length_append,
    List.takeWhile_append_dropWhile]

/-- A target is longer than its text by what is added, and shorter by what is removed. -/
theorem EffectiveRequestTarget.length_asStr_add {input : Bytes} {t : EffectiveRequestTarget}
    (h : EffectiveRequestTarget.parse input = .ok t) :
    t.asStr.length + removedBytes input = input.length + addedBytes input := by
  rw [EffectiveRequestTarget.parse_eq_ok_iff] at h
  obtain ⟨T, htarget, htext, -⟩ := normalizeHttpUri_eq_text h
  obtain ⟨rawScheme, authority, suffix, hcut⟩ := exists_isCut h
  -- the authority was read on the way
  obtain ⟨r, hr⟩ : ∃ r, normalizeHostPort authority = .ok r := by
    rw [normalizeHttpUri_of_isCut hcut] at h
    split at h
    · exact normalizeParts_hostPort h
    · cases h
  have hofText := ofText_of_isCut hcut
  rw [hofText] at htarget
  obtain ⟨hscheme, hhost, hport, hsegs⟩ := HttpUri.target_eq_some htarget
  have hlower := parseScheme_eq_ok hscheme
  have hschemeOf : HttpUri.schemeOf ⟨rawScheme, authority, pathPart suffix⟩ = some T.scheme := by
    simp only [HttpUri.schemeOf, hscheme, Except.toOption]
  have hport' : T.port = (explicitPort authority).getD T.scheme.defaultPort := by
    rw [HttpUri.port, hschemeOf] at hport
    exact (Option.some.inj hport).symm
  have hschemeLen : T.scheme.text.length = rawScheme.length := by
    rw [← hlower, length_toAsciiLowercase]
  -- a scheme has no byte that starts a query, so that the query is found behind it
  have hschemeBytes : ∀ b ∈ rawScheme, endsPath b = false := by
    have hfold : ∀ b : UInt8, endsPath (toAsciiLower b) = false → endsPath b = false := by
      decide +kernel
    have htextBytes : ∀ s : Scheme, ∀ b ∈ s.text, endsPath b = false := by
      rintro (_ | _) <;> decide +kernel
    intro b hb
    refine hfold b (htextBytes T.scheme _ ?_)
    rw [← hlower]
    exact List.mem_map_of_mem hb
  -- the three parts that change, each with its own balance
  have hauthority := length_authority hr hhost T.scheme
  have hpath := length_path (pathPart_cases hcut.suffix) hsegs
  have hquery := queryBytes_of_isCut hcut hschemeBytes
  have hinput : input.length = rawScheme.length + 3 + authority.length + suffix.length := by
    have hslashes : (ascii "//").length = 2 := by decide
    rw [hcut.eq]
    simp only [List.length_append, List.length_cons, hslashes]
    omega
  have hsep : (ascii "://").length = 3 := by decide
  rw [EffectiveRequestTarget.asStr, htext, removedBytes, addedBytes]
  simp only [hofText, hschemeOf, Option.elim_some, HttpTarget.text, List.length_append,
    hport', hsep]
  omega

/-- The bytes that are added fit into the room that the input leaves and into what is removed. -/
def FitsLimit (input : Bytes) : Prop :=
  addedBytes input ≤ maxTargetBytes - input.length + removedBytes input

instance (input : Bytes) : Decidable (FitsLimit input) :=
  inferInstanceAs (Decidable (_ ≤ _))

/-- **When a normalised target is inside the limit** of targets and the limit of `htu` claims. -/
theorem length_target_le_iff {input : Bytes} {t : EffectiveRequestTarget}
    (h : EffectiveRequestTarget.parse input = .ok t) :
    (t.asStr.length ≤ maxTargetBytes ∧ t.asStr.length ≤ maxHtuBytes) ↔ FitsLimit input := by
  have hlen := EffectiveRequestTarget.length_asStr_add h
  have hinput := length_le_of_normalizeHttpUri (EffectiveRequestTarget.parse_eq_ok_iff.1 h)
  have hlimits : maxHtuBytes = maxTargetBytes := rfl
  rw [FitsLimit, hlimits, and_self]
  omega

/-- An address that is longer in its canonical form, at the end of a short URI. -/
theorem length_target_le_iff_sample :
    ∃ t, EffectiveRequestTarget.parse (ascii "http://[::ffff:ffff:ffff]:0080") = .ok t ∧
      t.asStr = ascii "http://[::ffff:255.255.255.255]/" ∧
      (t.asStr.length ≤ maxTargetBytes ∧ t.asStr.length ≤ maxHtuBytes) ∧
      FitsLimit (ascii "http://[::ffff:ffff:ffff]:0080") := by
  have hnormal : normalizeHttpUri (ascii "http://[::ffff:ffff:ffff]:0080") =
      .ok (ascii "http://[::ffff:255.255.255.255]/") := by decide +kernel
  have hparse := (EffectiveRequestTarget.parse_eq_ok_iff (t := ⟨_, _, hnormal⟩)).2 hnormal
  have hfits : FitsLimit (ascii "http://[::ffff:ffff:ffff]:0080") := by decide +kernel
  exact ⟨_, hparse, rfl, (length_target_le_iff hparse).2 hfits, hfits⟩

/-- A URI of 2048 bytes without a path: with the slash its target is one byte too long. -/
theorem length_target_emptyPath :
    ∃ t, EffectiveRequestTarget.parse (ascii "http://" ++ List.replicate 2041 (byte 'a')) = .ok t ∧
      t.asStr.length = 2049 ∧
        ¬ (t.asStr.length ≤ maxTargetBytes ∧ t.asStr.length ≤ maxHtuBytes) := by
  have hnormal : normalizeHttpUri (ascii "http://" ++ List.replicate 2041 (byte 'a')) =
      .ok (ascii "http://" ++ List.replicate 2041 (byte 'a') ++ [byte '/']) := by decide +kernel
  have hlen : (ascii "http://" ++ List.replicate 2041 (byte 'a') ++ [byte '/']).length = 2049 := by
    decide +kernel
  refine ⟨⟨_, _, hnormal⟩, EffectiveRequestTarget.parse_eq_ok_iff.2 hnormal, hlen, ?_⟩
  rintro ⟨h, -⟩
  rw [EffectiveRequestTarget.asStr, hlen] at h
  exact absurd h (by decide)

end Keylix.Dpop
