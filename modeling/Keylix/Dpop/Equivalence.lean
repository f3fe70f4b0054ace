import Keylix.Dpop.Target

/-!
# Equality of targets is equivalence of URIs

`normalizeHttpUri` on the components of its input, and from it: the text of an accepted URI is the
text of its abstract target (`normalizeHttpUri_eq_text`), abstract targets in normal form are read
back from their text (`target_ofText_text`) and are normalised to themselves
(`normalizeHttpUri_text`). `target_eq_iff_equivalent` compares the targets of two accepted URIs.
-/

set_option autoImplicit false

namespace Keylix.Dpop

open Keylix.Lib Keylix.Lib.PctToken

/-! ## Cutting a URI -/

/-- The texts that `normalizeHttpUri` looks into. -/
def isTargetText (input : Bytes) : Bool :=
  !(input.isEmpty || maxTargetBytes < input.length || !isAscii input || input.any isControlOrSpace)

/-- `normalizeHttpUri` after its cuts. -/
def normalizeParts (rawScheme authority rawPath : Bytes) : Except DpopError Bytes := do
  let scheme ← parseScheme rawScheme
  if authority.isEmpty || authority.contains (byte '@') then .error .invalidRequestTarget
  else do
    let (host, port) ← normalizeAuthority authority scheme
    let percentNormalized ←
      normalizePercentEncoding (if rawPath.isEmpty then [byte '/'] else rawPath)
    .ok (assembleTarget scheme host port (removeDotSegments percentNormalized))

/-- A URI cut at its delimiters. -/
structure IsCut (input rawScheme authority suffix : Bytes) : Prop where
  eq : input = rawScheme ++ byte ':' :: (ascii "//" ++ (authority ++ suffix))
  scheme : byte ':' ∉ rawScheme
  authority : ∀ b ∈ authority, endsAuthority b = false
  suffix : ∀ b, suffix.head? = some b → endsAuthority b = true

/-- The path of a URI: up to the query or the fragment. -/
def pathPart (suffix : Bytes) : Bytes := suffix.takeWhile fun b => !endsPath b

theorem endsAuthority_cases {b : UInt8} (h : endsAuthority b = true) :
    b = byte '/' ∨ endsPath b = true := by
  revert b
  decide +kernel

/-- The path of a suffix is empty or starts with a slash. -/
theorem pathPart_cases {suffix : Bytes}
    (h : ∀ b, suffix.head? = some b → endsAuthority b = true) :
    pathPart suffix = [] ∨ ∃ rest, pathPart suffix = byte '/' :: rest := by
  unfold pathPart
  cases suffix with
  | nil => exact Or.inl rfl
  | cons c rest =>
    rcases endsAuthority_cases (h c rfl) with rfl | hc
    · have hslash : endsPath (byte '/') = false := by decide
      exact Or.inr ⟨rest.takeWhile fun b => !endsPath b, by simp [hslash]⟩
    · exact Or.inl (by simp [hc])

/-- `normalizeHttpUri` on a URI whose cuts are known. -/
theorem normalizeHttpUri_of_isCut {input rawScheme authority suffix : Bytes}
    (h : IsCut input rawScheme authority suffix) :
    normalizeHttpUri input =
      if isTargetText input then normalizeParts rawScheme authority (pathPart suffix)
      else .error .invalidRequestTarget := by
  -- what each search of the code finds: the colon, the two slashes, the end of the authority and of
  -- the path
  have hfind : input.findIdx? (· = byte ':') = some rawScheme.length := by
    rw [h.eq]
    exact findIdx?_append_cons h.scheme _
  have htake : input.take rawScheme.length = rawScheme := by
    rw [h.eq]
    simp
  have hdrop : input.drop (rawScheme.length + 1) = ascii "//" ++ (authority ++ suffix) := by
    rw [h.eq]
    simp
  have hstrip : stripPrefix (ascii "//") (ascii "//" ++ (authority ++ suffix)) =
      .ok (authority ++ suffix) := by
    simp [stripPrefix]
  have hauth : (authority ++ suffix).take
      ((findFirst (authority ++ suffix) (ascii "/?#")).getD (authority ++ suffix).length) =
        authority := by
    rw [findFirst, take_findIdx?_getD]
    exact takeWhile_not_append h.authority h.suffix
  have hsuffix : (authority ++ suffix).drop
      ((findFirst (authority ++ suffix) (ascii "/?#")).getD (authority ++ suffix).length) =
        suffix := by
    rw [findFirst, drop_findIdx?_getD]
    exact dropWhile_not_append h.authority h.suffix
  have hpath : suffix.take ((findFirst suffix (ascii "?#")).getD suffix.length) =
      pathPart suffix := by
    rw [findFirst, take_findIdx?_getD]
    rfl
  -- the authority ends at a slash or before the path does, so that this check never fails
  have hslash : (!(pathPart suffix).isEmpty &&
      decide ((pathPart suffix).head? ≠ some (byte '/'))) = false := by
    rcases pathPart_cases h.suffix with he | ⟨rest, he⟩
    · rw [he]
      rfl
    · rw [he]
      simp
  unfold normalizeHttpUri
  rw [hfind]
  -- both sides make the same check of the text first
  by_cases htext : isTargetText input = true
  · have hchecks : (input.isEmpty || decide (maxTargetBytes < input.length) || !isAscii input ||
        input.any isControlOrSpace) = false := by simpa [isTargetText] using htext
    rw [hchecks, if_neg Bool.false_ne_true, htext, if_pos rfl]
    simp only [htake, hdrop, hstrip]
    unfold normalizeParts
    cases parseScheme rawScheme with
    | error e => rfl
    | ok scheme =>
      simp only [bind, Except.bind]
      rw [hauth, hsuffix, hpath, hslash]
      rfl
  · have hchecks : (input.isEmpty || decide (maxTargetBytes < input.length) || !isAscii input ||
        input.any isControlOrSpace) = true := by
      rw [isTargetText, Bool.not_eq_true', Bool.not_eq_false] at htext
      exact htext
    rw [hchecks, if_pos rfl, if_neg htext]

/-- Every accepted URI has its cuts. -/
theorem exists_isCut {input t : Bytes} (h : normalizeHttpUri input = .ok t) :
    ∃ rawScheme authority suffix, IsCut input rawScheme authority suffix := by
  unfold normalizeHttpUri at h
  split at h
  · cases h
  split at h
  · cases h
  next schemeEnd hfind =>
  obtain ⟨hsplit, hnot⟩ := findIdx?_eq_some_split hfind
  cases hscheme : parseScheme (input.take schemeEnd) with
  | error e =>
    rw [hscheme] at h
    cases h
  | ok scheme =>
    rw [hscheme] at h
    cases hstrip : stripPrefix (ascii "//") (input.drop (schemeEnd + 1)) with
    | error e =>
      simp only [hstrip] at h
      cases h
    | ok afterSlashes =>
      have hslashes : input.drop (schemeEnd + 1) = ascii "//" ++ afterSlashes := by
        unfold stripPrefix at hstrip
        split at hstrip
        · next hpre =>
          cases hstrip
          exact (List.prefix_iff_eq_append.1 (List.isPrefixOf_iff_prefix.1 hpre)).symm
        · cases hstrip
      refine ⟨input.take schemeEnd, afterSlashes.takeWhile fun b => !endsAuthority b,
        afterSlashes.dropWhile fun b => !endsAuthority b, ?_, hnot, ?_, ?_⟩
      · rw [List.takeWhile_append_dropWhile, ← hslashes]
        exact hsplit
      · exact fun b hb => of_mem_takeWhile_not hb
      · exact fun b hb => head?_dropWhile_not hb

theorem ofText_of_isCut {input rawScheme authority suffix : Bytes}
    (h : IsCut input rawScheme authority suffix) :
    HttpUri.ofText input = ⟨rawScheme, authority, pathPart suffix⟩ := by
  have hstop : ∀ x, (byte ':' :: (ascii "//" ++ (authority ++ suffix))).head? = some x →
      x = byte ':' := by
    intro x hx
    cases hx
    rfl
  have hdrop : (input.dropWhile fun b => !decide (b = byte ':')).drop 3 = authority ++ suffix := by
    rw [h.eq, dropWhile_ne h.scheme hstop]
    rfl
  have htake : (input.takeWhile fun b => !decide (b = byte ':')) = rawScheme := by
    rw [h.eq, takeWhile_ne h.scheme hstop]
  simp only [HttpUri.ofText, hdrop, htake, takeWhile_not_append h.authority h.suffix,
    dropWhile_not_append h.authority h.suffix, pathPart]

theorem isTargetByte_of_mem {input : Bytes} (h : isTargetText input = true) {b : UInt8}
    (hb : b ∈ input) : isTargetByte b = true := by
  simp only [isTargetText, Bool.not_eq_true', Bool.or_eq_false_iff, Bool.not_eq_false',
    List.any_eq_false, isAscii, List.all_eq_true] at h
  have h₁ := h.1.2 b hb
  have h₂ := h.2 b hb
  simp only [isTargetByte, h₁, h₂, Bool.not_false, Bool.and_self]

/-! ## Paths -/

theorem decodedTokens_slash (rest : Bytes) :
    decodedTokens (byte '/' :: rest) = (decodedTokens rest).map (lit (byte '/') :: ·) := by
  rw [decodedTokens, tokens_lit (by decide), decodedTokens]
  cases tokens rest <;> rfl

theorem segmentNormal_nil : SegmentNormal [] where
  not_slash := by simp
  ne_dot := by decide
  ne_dotDot := by decide
  pctNormal := pctNormal_nil
  bytes := by simp

theorem mem_joinSegments {segs : List Bytes} {s : Bytes} (hs : s ∈ segs) {b : UInt8} (hb : b ∈ s) :
    b ∈ joinSegments segs := by
  rw [joinSegments, List.mem_flatMap]
  exact ⟨s, hs, List.mem_cons_of_mem _ hb⟩

/-- What a path is normalised to. -/
theorem removeDotSegments_eq_joinSegments {rawPath p : Bytes}
    (hpath : rawPath = [] ∨ ∃ rest, rawPath = byte '/' :: rest)
    (hbytes : ∀ b ∈ rawPath, isTargetByte b = true ∧ endsPath b = false)
    (h : normalizePercentEncoding (if rawPath.isEmpty then [byte '/'] else rawPath) = .ok p) :
    ∃ segs, resolvedPath rawPath = some segs ∧ removeDotSegments p = joinSegments segs ∧
      segs ≠ [] ∧ ∀ s ∈ segs, SegmentNormal s := by
  obtain ⟨ts, hts, rfl⟩ := normalizePercentEncoding_ok_iff.1 h
  -- an empty path is read as the path of one slash
  obtain ⟨rest, hrest, hrestbytes⟩ : ∃ rest, (if rawPath.isEmpty then [byte '/'] else rawPath) =
      byte '/' :: rest ∧ ∀ b ∈ rest, isTargetByte b = true ∧ endsPath b = false := by
    rcases hpath with rfl | ⟨rest, rfl⟩
    · exact ⟨[], rfl, by simp⟩
    · exact ⟨rest, rfl, fun b hb => hbytes b (List.mem_cons_of_mem _ hb)⟩
  have hts' := hts
  rw [hrest, decodedTokens_slash] at hts'
  obtain ⟨us, hus, rfl⟩ := Option.map_eq_some_iff.1 hts'
  have htext : text (lit (byte '/') :: us) = byte '/' :: text us := rfl
  have hnormal : ∀ s ∈ pathSegments (byte '/' :: text us), PctNormal s := by
    rw [← pctNormal_joinSegments, joinSegments_pathSegments, ← htext]
    exact pctNormal_text (decodedTokens_spec hts)
  -- a decoded byte is one of the path or an unreserved one; an escape is written with a percent
  -- sign and upper-case digits
  have hmembytes : ∀ b ∈ byte '/' :: text us, isTargetByte b = true ∧ endsPath b = false := by
    intro b hb
    rcases List.mem_cons.1 hb with rfl | hb
    · decide
    rcases mem_text hb with hb | rfl | ⟨d, hd, rfl⟩
    · rcases mem_or_unreserved_of_decodedTokens hus hb with hb | hb
      · exact hrestbytes b hb
      · exact ⟨(hostByte_bytes (unreserved_bytes hb).1).1, (unreserved_bytes hb).2⟩
    · decide
    · exact ⟨(hostByte_bytes (upperDigit_bytes hd).1).1, (upperDigit_bytes hd).2⟩
  refine ⟨resolveSegments [] (pathSegments (byte '/' :: text us)), ?_, ?_, ?_, ?_⟩
  · rw [resolvedPath, hts]
    rfl
  · rw [htext, removeDotSegments_eq]
  · exact resolveSegments_ne_nil _ _ (pathSegments_ne_nil _)
  -- a segment that is kept is one of the path that is not a dot segment
  · refine forall_mem_resolveSegments segmentNormal_nil (by simp) ?_
    intro s hs hdot hdotDot
    refine ⟨not_mem_of_mem_pathSegments hs, hdot, hdotDot, hnormal s hs, ?_⟩
    intro b hb
    have := mem_joinSegments hs hb
    rw [joinSegments_pathSegments] at this
    exact hmembytes b this

/-- Segments in normal form are left as they are. -/
theorem resolvedPath_joinSegments {segs : List Bytes} (hne : segs ≠ [])
    (h : ∀ s ∈ segs, SegmentNormal s) :
    normalizePercentEncoding (joinSegments segs) = .ok (joinSegments segs) ∧
      removeDotSegments (joinSegments segs) = joinSegments segs ∧
        resolvedPath (joinSegments segs) = some segs := by
  have hpct : PctNormal (joinSegments segs) :=
    pctNormal_joinSegments.2 fun s hs => (h s hs).pctNormal
  have hsegs : pathSegments (joinSegments segs) = segs :=
    pathSegments_joinSegments hne fun s hs => (h s hs).not_slash
  -- no segment is a dot segment, so that none is dropped
  have hresolve : resolveSegments [] segs = segs := by
    rw [resolveSegments_of_not_dot fun s hs => ⟨(h s hs).ne_dot, (h s hs).ne_dotDot⟩]
    rfl
  obtain ⟨rest, hrest⟩ : ∃ rest, joinSegments segs = byte '/' :: rest := by
    cases segs with
    | nil => exact absurd rfl hne
    | cons s segs => exact ⟨_, joinSegments_cons s segs⟩
  refine ⟨hpct.normalizePercentEncoding, ?_, ?_⟩
  · rw [hrest, removeDotSegments_eq, ← hrest, hsegs, hresolve]
  · obtain ⟨ts, hts, htext⟩ := hpct.decodedTokens
    have hempty : (joinSegments segs).isEmpty = false := by rw [hrest]; rfl
    rw [resolvedPath, hempty, if_neg Bool.false_ne_true, hts, Option.map_some, htext, hsegs,
      hresolve]

/-! ## Whole targets -/

/-- The port that is written: none for the default one. -/
theorem portText_getD (scheme : Scheme) (port : Option Nat) :
    portText scheme (port.getD scheme.defaultPort) =
      tailText (if port = some scheme.defaultPort then none else port) := by
  cases port with
  | none => simp [portText, tailText]
  | some p =>
    by_cases hp : p = scheme.defaultPort
    · simp [portText, tailText, hp]
    · simp [portText, tailText, hp]

theorem assembleTarget_eq (scheme : Scheme) (host : Host) (port : Option Nat) {segs : List Bytes}
    (hne : segs ≠ []) :
    assembleTarget scheme host.text (if port = some scheme.defaultPort then none else port)
        (joinSegments segs) =
      (HttpTarget.mk scheme host (port.getD scheme.defaultPort) segs).text := by
  have hempty : (joinSegments segs).isEmpty = false := by
    cases segs with
    | nil => exact absurd rfl hne
    | cons s segs => rfl
  unfold assembleTarget HttpTarget.text
  rw [portText_getD, hempty]
  rfl

theorem defaultPort_lt (scheme : Scheme) : scheme.defaultPort < 65536 := by
  cases scheme <;> decide

/-- What the components of a URI are normalised to. -/
theorem normalizeParts_eq_ok {rawScheme authority rawPath t : Bytes}
    (hauth : ∀ b ∈ authority, isTargetByte b = true ∧ endsAuthority b = false)
    (hpath : rawPath = [] ∨ ∃ rest, rawPath = byte '/' :: rest)
    (hbytes : ∀ b ∈ rawPath, isTargetByte b = true ∧ endsPath b = false)
    (h : normalizeParts rawScheme authority rawPath = .ok t) :
    ∃ T, HttpUri.target ⟨rawScheme, authority, rawPath⟩ = some T ∧ t = T.text ∧ T.Normal := by
  unfold normalizeParts at h
  cases hscheme : parseScheme rawScheme with
  | error e =>
    rw [hscheme] at h
    cases h
  | ok scheme =>
    rw [hscheme] at h
    simp only [bind, Except.bind] at h
    split at h
    · cases h
    next hat =>
    simp only [Bool.or_eq_true, List.contains_iff_mem, not_or] at hat
    -- the authority was checked for the sign of a user before its host is read
    have hauthority : IsAuthority authority := fun b hb =>
      ⟨(hauth b hb).1, (hauth b hb).2, fun he => hat.2 (he ▸ hb)⟩
    unfold normalizeAuthority at h
    cases hhost : normalizeHostPort authority with
    | error e =>
      rw [hhost] at h
      cases h
    | ok r =>
      obtain ⟨hosttext, port⟩ := r
      rw [hhost] at h
      simp only [bind, Except.bind] at h
      obtain ⟨host, hhostOf, rfl, hnormal, hport, hlt⟩ := normalizeHostPort_eq_ok hauthority hhost
      split at h
      · cases h
      next p hp =>
      obtain ⟨segs, hsegs, hdots, hne, hsegsNormal⟩ :=
        removeDotSegments_eq_joinSegments hpath hbytes hp
      cases h
      -- each component of the target is the one that its own lemma names
      refine ⟨⟨scheme, host, port.getD scheme.defaultPort, segs⟩, ?_, ?_, ?_⟩
      · simp only [HttpUri.target, HttpUri.schemeOf, hscheme, Except.toOption, hhostOf, hsegs,
          HttpUri.effectivePort, hport, bind, Option.bind]
      · rw [hdots, assembleTarget_eq scheme host port hne]
      · refine ⟨hnormal, ?_, hne, hsegsNormal⟩
        cases port with
        | none => exact defaultPort_lt scheme
        | some p => exact hlt p rfl

/-- **Normalisation writes the target of the URI.** -/
theorem normalizeHttpUri_eq_text {input t : Bytes} (h : normalizeHttpUri input = .ok t) :
    ∃ T, (HttpUri.ofText input).target = some T ∧ t = T.text ∧ T.Normal := by
  obtain ⟨rawScheme, authority, suffix, hcut⟩ := exists_isCut h
  rw [normalizeHttpUri_of_isCut hcut] at h
  split at h
  · next htext =>
    have hbyte : ∀ b ∈ authority ++ suffix, isTargetByte b = true := by
      intro b hb
      refine isTargetByte_of_mem htext ?_
      rw [hcut.eq]
      simp [List.mem_append.1 hb]
    rw [ofText_of_isCut hcut]
    refine normalizeParts_eq_ok ?_ (pathPart_cases hcut.suffix) ?_ h
    · exact fun b hb => ⟨hbyte b (List.mem_append_left _ hb), hcut.authority b hb⟩
    · intro b hb
      have hmem := List.takeWhile_subset _ hb
      exact ⟨hbyte b (List.mem_append_right _ hmem), of_mem_takeWhile_not hb⟩
  · cases h

/-! ## Reading a target back -/

theorem Host.text_injective {host host' : Host} (h : host.Normal) (h' : host'.Normal)
    (he : host.text = host'.text) : host = host' := by
  have hname : ∀ {name : List PctToken}, (Host.regName name).Normal →
      (PctToken.text name).head? ≠ some (byte '[') := by
    intro name hn hh
    exact (hostByte_bytes (isHostByte_of_mem_text hn.2.2 (List.mem_of_mem_head? hh))).2.2.2.1 rfl
  cases host with
  | ipv6 addr =>
    cases host' with
    | ipv6 addr' =>
      have hdisplay : addr.display = addr'.display := by simpa [Host.text] using he
      rw [Ipv6Addr.display_injective hdisplay]
    | regName name =>
      refine absurd ?_ (hname h')
      change _ = PctToken.text name at he
      rw [← he]
      rfl
  | regName name =>
    cases host' with
    | ipv6 addr' =>
      refine absurd ?_ (hname h)
      change PctToken.text name = _ at he
      rw [he]
      rfl
    | regName name' =>
      have := PctToken.text_injective (fun t ht => (h.2.1 t ht).1) (fun t ht => (h'.2.1 t ht).1) he
      rw [this]

/-- The port of a target as an explicit one. -/
def HttpTarget.writtenPort (t : HttpTarget) : Option Nat :=
  if t.port = t.scheme.defaultPort then none else some t.port

/-- The authority of the text of a target. -/
def HttpTarget.authorityText (t : HttpTarget) : Bytes := t.host.text ++ tailText t.writtenPort

theorem HttpTarget.text_eq (t : HttpTarget) :
    t.text = t.scheme.text ++ byte ':' :: (ascii "//" ++ (t.authorityText ++
      joinSegments t.segments)) := by
  have hport : portText t.scheme t.port = tailText t.writtenPort := by
    unfold portText HttpTarget.writtenPort
    split <;> rfl
  have hsep : ascii "://" = byte ':' :: ascii "//" := rfl
  rw [HttpTarget.text, hport, hsep, HttpTarget.authorityText]
  simp

theorem HttpTarget.writtenPort_lt {t : HttpTarget} (h : t.Normal) :
    ∀ p, t.writtenPort = some p → p < 65536 := by
  intro p hp
  unfold HttpTarget.writtenPort at hp
  split at hp
  · cases hp
  · cases hp
    exact h.port

theorem HttpTarget.isAuthority {t : HttpTarget} (h : t.Normal) : IsAuthority t.authorityText := by
  have hport : portText t.scheme t.port = tailText t.writtenPort := by
    unfold portText HttpTarget.writtenPort
    split <;> rfl
  intro b hb
  rcases List.mem_append.1 hb with hb | hb
  · exact host_text_bytes h.host hb
  · rw [← hport] at hb
    exact portText_bytes hb

/-- The cuts of the text of a target. -/
theorem HttpTarget.isCut {t : HttpTarget} (h : t.Normal) :
    IsCut t.text t.scheme.text t.authorityText (joinSegments t.segments) where
  eq := t.text_eq
  scheme := fun hm => text_scheme_ne t.scheme _ hm rfl
  authority := fun b hb => (HttpTarget.isAuthority h b hb).2.1
  suffix := by
    intro b hb
    cases hsegs : t.segments with
    | nil => exact absurd hsegs h.segments_ne
    | cons s segs =>
      rw [hsegs, joinSegments_cons] at hb
      cases hb
      decide

/-- The bytes of the path of a target. -/
theorem HttpTarget.path_bytes {t : HttpTarget} (h : t.Normal) :
    ∀ b ∈ joinSegments t.segments, isTargetByte b = true ∧ endsPath b = false := by
  intro b hb
  obtain ⟨s, hs, hb⟩ := List.mem_flatMap.1 hb
  rcases List.mem_cons.1 hb with rfl | hb
  · decide
  · exact (h.segments s hs).bytes b hb

theorem HttpTarget.pathPart_eq {t : HttpTarget} (h : t.Normal) :
    pathPart (joinSegments t.segments) = joinSegments t.segments := by
  refine List.takeWhile_eq_self_iff.2 fun b hb => ?_
  simp [(HttpTarget.path_bytes h b hb).2]

theorem parseScheme_text (scheme : Scheme) : parseScheme scheme.text = .ok scheme := by
  cases scheme with
  | http => decide
  | https => decide

theorem HttpTarget.getD_writtenPort (t : HttpTarget) :
    t.writtenPort.getD t.scheme.defaultPort = t.port := by
  unfold HttpTarget.writtenPort
  split
  · next h => simp [h]
  · rfl

/-- **The target is read back from its text.** -/
theorem target_ofText_text {T : HttpTarget} (h : T.Normal) :
    (HttpUri.ofText T.text).target = some T := by
  have hread := normalizeHostPort_text h.host (HttpTarget.writtenPort_lt h)
  obtain ⟨host, hhost, htext, hnormal, hport, -⟩ :=
    normalizeHostPort_eq_ok (HttpTarget.isAuthority h) hread
  obtain rfl := Host.text_injective h.host hnormal htext
  obtain ⟨-, -, hpath⟩ := resolvedPath_joinSegments h.segments_ne h.segments
  rw [ofText_of_isCut (HttpTarget.isCut h), HttpTarget.pathPart_eq h]
  change hostOf T.authorityText = _ at hhost
  change explicitPort T.authorityText = _ at hport
  simp only [HttpUri.target, HttpUri.schemeOf, parseScheme_text, Except.toOption, hhost, hpath,
    HttpUri.effectivePort, hport, T.getD_writtenPort, bind, Option.bind]

/-- No two targets in normal form share a text. -/
theorem HttpTarget.text_injective {T U : HttpTarget} (hT : T.Normal) (hU : U.Normal)
    (h : T.text = U.text) : T = U := by
  have hread := target_ofText_text hT
  rw [h, target_ofText_text hU] at hread
  exact (Option.some.inj hread).symm

/-- The bytes of the text of a target. -/
theorem HttpTarget.text_bytes (T : HttpTarget) (h : T.Normal) :
    ∀ b ∈ T.text, isTargetByte b = true := by
  have hscheme : ∀ s : Scheme, ∀ b ∈ s.text, isTargetByte b = true := by
    intro s
    cases s with
    | http => decide +kernel
    | https => decide +kernel
  have hsep : ∀ b ∈ ascii "//", isTargetByte b = true := by decide +kernel
  intro b hb
  rw [T.text_eq] at hb
  simp only [List.mem_append, List.mem_cons] at hb
  rcases hb with hb | rfl | hb | hb | hb
  · exact hscheme _ b hb
  · decide
  · exact hsep b hb
  · exact (HttpTarget.isAuthority h b hb).1
  · exact (HttpTarget.path_bytes h b hb).1

/-- The text of a target is a text that `normalizeHttpUri` looks into, when it is short enough. -/
theorem HttpTarget.isTargetText {T : HttpTarget} (h : T.Normal)
    (hlen : T.text.length ≤ maxTargetBytes) : isTargetText T.text = true := by
  have hbytes : ∀ b ∈ T.text, b < 0x80 ∧ isControlOrSpace b = false := by
    intro b hb
    simpa [isTargetByte] using T.text_bytes h b hb
  have hne : T.text ≠ [] := by
    rw [T.text_eq]
    simp
  have hascii : isAscii T.text = true :=
    List.all_eq_true.2 fun b hb => by simpa using (hbytes b hb).1
  have hcontrol : T.text.any isControlOrSpace = false :=
    List.any_eq_false.2 fun b hb => by simpa using (hbytes b hb).2
  have hlen' : ¬ maxTargetBytes < T.text.length := by omega
  simp [Dpop.isTargetText, hne, hascii, hcontrol, hlen']

/-- **A normalised target is its own normalisation**, when it is short enough to be read. -/
theorem normalizeHttpUri_text {T : HttpTarget} (h : T.Normal)
    (hlen : T.text.length ≤ maxTargetBytes) : normalizeHttpUri T.text = .ok T.text := by
  have hread := normalizeHostPort_text h.host (HttpTarget.writtenPort_lt h)
  change normalizeHostPort T.authorityText = _ at hread
  obtain ⟨hpct, hdots, -⟩ := resolvedPath_joinSegments h.segments_ne h.segments
  have hauth := HttpTarget.isAuthority h
  have hat : byte '@' ∉ T.authorityText := fun hm => (hauth _ hm).2.2 rfl
  -- the text of a host is not empty
  have hhostne : T.authorityText ≠ [] := by
    intro hnil
    rw [HttpTarget.authorityText] at hnil
    have hnil := (List.append_eq_nil_iff.1 hnil).1
    cases hhost : T.host with
    | ipv6 addr =>
      rw [hhost] at hnil
      cases hnil
    | regName name =>
      have hname := h.host
      rw [hhost] at hnil hname
      cases name with
      | nil => exact hname.1 rfl
      | cons t ts => cases t <;> cases hnil
  have hchecks : (T.authorityText.isEmpty || T.authorityText.contains (byte '@')) = false := by
    rw [List.contains_eq_mem, decide_eq_false hat]
    simpa using hhostne
  have hempty : (joinSegments T.segments).isEmpty = false := by
    cases hsegs : T.segments with
    | nil => exact absurd hsegs h.segments_ne
    | cons s segs => rfl
  -- the default port is not written, so that there is none to drop
  have hport : (if T.writtenPort = some T.scheme.defaultPort then none else T.writtenPort) =
      T.writtenPort := by
    unfold HttpTarget.writtenPort
    split <;> simp_all
  rw [normalizeHttpUri_of_isCut (HttpTarget.isCut h), HttpTarget.isTargetText h hlen, if_pos rfl,
    HttpTarget.pathPart_eq h, normalizeParts, parseScheme_text]
  simp only [bind, Except.bind, hchecks, Bool.false_eq_true, if_false, normalizeAuthority, hread,
    hempty, hpct, hdots]
  rw [assembleTarget_eq T.scheme T.host T.writtenPort h.segments_ne, T.getD_writtenPort]

/-- A target that is short enough is parsed to itself. -/
theorem EffectiveRequestTarget.parse_asStr {t : EffectiveRequestTarget}
    (hlen : t.asStr.length ≤ maxTargetBytes) : EffectiveRequestTarget.parse t.asStr = .ok t := by
  obtain ⟨input, hinput⟩ := t.normalized
  obtain ⟨T, -, htext, hnormal⟩ := normalizeHttpUri_eq_text hinput
  rw [EffectiveRequestTarget.parse_eq_ok_iff]
  unfold EffectiveRequestTarget.asStr at hlen ⊢
  rw [htext] at hlen ⊢
  exact normalizeHttpUri_text hnormal hlen

/-! ## Equivalence of URIs -/

/-- The effective port of a URI with a supported scheme. -/
def HttpUri.port (u : HttpUri) : Option Nat := u.schemeOf.map u.effectivePort

/-- Equivalent URIs: the scheme up to case, the host, the effective port and the resolved path
agree. -/
structure HttpUri.Equivalent (u v : HttpUri) : Prop where
  scheme : eqIgnoreAsciiCase u.scheme v.scheme = true
  host : hostOf u.authority = hostOf v.authority
  port : u.port = v.port
  path : resolvedPath u.path = resolvedPath v.path

theorem parseScheme_eq_ok {rawScheme : Bytes} {scheme : Scheme}
    (h : parseScheme rawScheme = .ok scheme) :
    toAsciiLowercase rawScheme = scheme.text := by
  have hhttps : toAsciiLowercase (ascii "https") = ascii "https" := by decide
  have hhttp : toAsciiLowercase (ascii "http") = ascii "http" := by decide
  unfold parseScheme at h
  split at h
  · next he =>
    cases h
    rw [eqIgnoreAsciiCase_iff, hhttps] at he
    exact he
  · split at h
    · next he =>
      cases h
      rw [eqIgnoreAsciiCase_iff, hhttp] at he
      exact he
    · cases h

theorem Scheme.text_injective : Function.Injective Scheme.text := by
  intro s s' h
  cases s <;> cases s' <;> first | rfl | exact absurd h (by decide)

/-- The target of a URI, component by component. -/
theorem HttpUri.target_eq_some {u : HttpUri} {T : HttpTarget} (h : u.target = some T) :
    parseScheme u.scheme = .ok T.scheme ∧ hostOf u.authority = some T.host ∧
      u.port = some T.port ∧ resolvedPath u.path = some T.segments := by
  simp only [HttpUri.target, bind, Option.bind_eq_some_iff] at h
  obtain ⟨scheme, hscheme, host, hhost, segments, hsegments, he⟩ := h
  cases he
  refine ⟨?_, hhost, ?_, hsegments⟩
  · unfold HttpUri.schemeOf at hscheme
    cases hp : parseScheme u.scheme with
    | error e =>
      rw [hp] at hscheme
      cases hscheme
    | ok s =>
      rw [hp] at hscheme
      cases hscheme
      rfl
  · rw [HttpUri.port, hscheme]
    rfl

/-- **Two accepted URIs have the same target if and only if they are equivalent.** -/
theorem target_eq_iff_equivalent {a b : Bytes} {t u : EffectiveRequestTarget}
    (ha : EffectiveRequestTarget.parse a = .ok t) (hb : EffectiveRequestTarget.parse b = .ok u) :
    t = u ↔ HttpUri.Equivalent (HttpUri.ofText a) (HttpUri.ofText b) := by
  rw [EffectiveRequestTarget.parse_eq_ok_iff] at ha hb
  obtain ⟨T, hT, htT, hTn⟩ := normalizeHttpUri_eq_text ha
  obtain ⟨U, hU, huU, hUn⟩ := normalizeHttpUri_eq_text hb
  obtain ⟨hT₁, hT₂, hT₃, hT₄⟩ := HttpUri.target_eq_some hT
  obtain ⟨hU₁, hU₂, hU₃, hU₄⟩ := HttpUri.target_eq_some hU
  constructor
  · rintro rfl
    have hTU : T = U := HttpTarget.text_injective hTn hUn (by rw [← htT, ← huU])
    subst hTU
    refine ⟨?_, by rw [hT₂, hU₂], by rw [hT₃, hU₃], by rw [hT₄, hU₄]⟩
    rw [eqIgnoreAsciiCase_iff, parseScheme_eq_ok hT₁, parseScheme_eq_ok hU₁]
  · rintro ⟨hscheme, hhost, hport, hpath⟩
    rw [eqIgnoreAsciiCase_iff, parseScheme_eq_ok hT₁, parseScheme_eq_ok hU₁] at hscheme
    rw [hT₂, hU₂] at hhost
    rw [hT₃, hU₃] at hport
    rw [hT₄, hU₄] at hpath
    have hTU : T = U := by
      cases T
      cases U
      cases Scheme.text_injective hscheme
      cases Option.some.inj hhost
      cases Option.some.inj hport
      cases Option.some.inj hpath
      rfl
    apply EffectiveRequestTarget.ext_value
    rw [htT, huU, hTU]

/-- Two spellings of one target. -/
theorem target_eq_iff_equivalent_spellings :
    ∃ t, EffectiveRequestTarget.parse (ascii "HTTP://EXAMPLE.com:080/a/./b/../%7ec?x=1") = .ok t ∧
      EffectiveRequestTarget.parse (ascii "http://e%78ample.com/a/~c#f") = .ok t ∧
      HttpUri.Equivalent (HttpUri.ofText (ascii "HTTP://EXAMPLE.com:080/a/./b/../%7ec?x=1"))
        (HttpUri.ofText (ascii "http://e%78ample.com/a/~c#f")) := by
  have ha : normalizeHttpUri (ascii "HTTP://EXAMPLE.com:080/a/./b/../%7ec?x=1") =
      .ok (ascii "http://example.com/a/~c") := by decide +kernel
  have hb : normalizeHttpUri (ascii "http://e%78ample.com/a/~c#f") =
      .ok (ascii "http://example.com/a/~c") := by decide +kernel
  have hpa := (EffectiveRequestTarget.parse_eq_ok_iff (t := ⟨_, _, ha⟩)).2 ha
  have hpb := (EffectiveRequestTarget.parse_eq_ok_iff (t := ⟨_, _, ha⟩)).2 hb
  exact ⟨⟨_, _, ha⟩, hpa, hpb, (target_eq_iff_equivalent hpa hpb).1 rfl⟩

end Keylix.Dpop
