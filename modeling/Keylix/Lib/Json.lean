import Keylix.Lib.Bytes

/-!
# JSON documents

JSON values with the members of an object in document order, so that a repeated name is a value
like any other; the compact text of a value; and the deserialisation of a record type from a value.

`render` is the compact writer: no white space, two-character escapes for the quotation mark, the
backslash and the five control characters that have one, `\u00xx` for the other control
characters, and every other byte as it is. A parser is a parameter of what follows (`JsonText`);
what is relied on is that it reads back the compact text of a value without floating-point numbers.

`recordFields` is the deserialisation of a record type with named fields: from an object by member
name, or from an array by position.
-/

set_option autoImplicit false

namespace Keylix.Lib

/-- A JSON value. A floating-point number is kept as its text. -/
inductive Json where
  | null
  | bool (b : Bool)
  | int (z : Int)
  | float (text : Bytes)
  | str (s : Bytes)
  | arr (xs : List Json)
  | obj (ms : List (Bytes × Json))

namespace Json

/-! ## Compact text -/

/-- The text of one byte of a string. -/
def escapeByte (b : UInt8) : Bytes :=
  if b = byte '"' then ascii "\\\""
  else if b = byte '\\' then ascii "\\\\"
  else if b = 8 then ascii "\\b"
  else if b = 9 then ascii "\\t"
  else if b = 10 then ascii "\\n"
  else if b = 12 then ascii "\\f"
  else if b = 13 then ascii "\\r"
  else if b < 0x20 then
    ascii "\\u00" ++ [digitByte (b.toNat / 16), digitByte (b.toNat % 16)]
  else [b]

/-- The text of the bytes of a string, without the quotation marks. -/
def escape (s : Bytes) : Bytes := s.flatMap escapeByte

/-- The text of a string. -/
def renderStr (s : Bytes) : Bytes := byte '"' :: escape s ++ [byte '"']

mutual

/-- The compact text of a value. -/
def render : Json → Bytes
  | .null => ascii "null"
  | .bool b => if b then ascii "true" else ascii "false"
  | .int z => decimalInt z
  | .float t => t
  | .str s => renderStr s
  | .arr [] => ascii "[]"
  | .arr (x :: xs) => byte '[' :: (render x ++ renderItems xs)
  | .obj [] => ascii "\x7b\x7d"
  | .obj (m :: ms) => byte '{' :: (renderMember m ++ renderMembers ms)
termination_by structural j => j

/-- The items after the first, with the closing bracket. -/
def renderItems : List Json → Bytes
  | [] => [byte ']']
  | x :: xs => byte ',' :: (render x ++ renderItems xs)
termination_by structural xs => xs

/-- One member of an object. -/
def renderMember : Bytes × Json → Bytes
  | (k, v) => renderStr k ++ byte ':' :: render v
termination_by structural m => m

/-- The members after the first, with the closing brace. -/
def renderMembers : List (Bytes × Json) → Bytes
  | [] => [byte '}']
  | m :: ms => byte ',' :: (renderMember m ++ renderMembers ms)
termination_by structural ms => ms

end

/-! ## Values a parser reads back -/

mutual

/-- Strings are UTF-8, integers fit a 64-bit type of either sign, and no number is floating
point. -/
def Plain : Json → Prop
  | .null => True
  | .bool _ => True
  | .int z => -2 ^ 63 ≤ z ∧ z < 2 ^ 64
  | .float _ => False
  | .str s => IsUtf8 s
  | .arr xs => PlainItems xs
  | .obj ms => PlainMembers ms
termination_by structural j => j

def PlainItems : List Json → Prop
  | [] => True
  | x :: xs => Plain x ∧ PlainItems xs
termination_by structural xs => xs

def PlainMember : Bytes × Json → Prop
  | (k, v) => IsUtf8 k ∧ Plain v
termination_by structural m => m

def PlainMembers : List (Bytes × Json) → Prop
  | [] => True
  | m :: ms => PlainMember m ∧ PlainMembers ms
termination_by structural ms => ms

end

mutual

/-- Nesting of arrays and objects. -/
def depth : Json → Nat
  | .arr xs => depthItems xs + 1
  | .obj ms => depthMembers ms + 1
  | _ => 0
termination_by structural j => j

def depthItems : List Json → Nat
  | [] => 0
  | x :: xs => max (depth x) (depthItems xs)
termination_by structural xs => xs

def depthMember : Bytes × Json → Nat
  | (_, v) => depth v
termination_by structural m => m

def depthMembers : List (Bytes × Json) → Nat
  | [] => 0
  | m :: ms => max (depthMember m) (depthMembers ms)
termination_by structural ms => ms

end

theorem plainMembers_iff {ms : List (Bytes × Json)} :
    PlainMembers ms ↔ ∀ m ∈ ms, IsUtf8 m.1 ∧ Plain m.2 := by
  induction ms with
  | nil => simp [PlainMembers]
  | cons m ms ih =>
    obtain ⟨k, v⟩ := m
    simp [PlainMembers, PlainMember, ih]

theorem depthMembers_le {ms : List (Bytes × Json)} {d : Nat} (h : ∀ m ∈ ms, depth m.2 ≤ d) :
    depthMembers ms ≤ d := by
  induction ms with
  | nil => exact Nat.zero_le d
  | cons m ms ih =>
    obtain ⟨k, v⟩ := m
    have hv : depth v ≤ d := h (k, v) List.mem_cons_self
    have hms := ih fun x hx => h x (List.mem_cons_of_mem _ hx)
    simp only [depthMembers, depthMember]
    omega

end Json

/-- A JSON parser with a nesting limit of 127, up to which it reads back compact texts. -/
structure JsonText where
  parse : Bytes → Option Json
  parse_render : ∀ j : Json, j.Plain → j.depth ≤ 127 → parse j.render = some j

namespace Json

/-! ## Ordered members

A value that is stored before it is written again keeps its members ordered by name, the last one
of a repeated name. -/

/-- Sets a member in a list of members ordered by name. -/
def insertMember (k : Bytes) (v : Json) : List (Bytes × Json) → List (Bytes × Json)
  | [] => [(k, v)]
  | (k', v') :: ms =>
      if k = k' then (k, v) :: ms
      else if k < k' then (k, v) :: (k', v') :: ms
      else (k', v') :: insertMember k v ms

mutual

/-- The stored form of a value. -/
def toValue : Json → Json
  | .arr xs => .arr (toValues xs)
  | .obj ms => .obj (toOrdered ms [])
  | j => j
termination_by structural j => j

def toValues : List Json → List Json
  | [] => []
  | x :: xs => toValue x :: toValues xs
termination_by structural xs => xs

def toValueMember : Bytes × Json → Bytes × Json
  | (k, v) => (k, toValue v)
termination_by structural m => m

def toOrdered : List (Bytes × Json) → List (Bytes × Json) → List (Bytes × Json)
  | [], acc => acc
  | m :: ms, acc => toOrdered ms (insertMember (toValueMember m).1 (toValueMember m).2 acc)
termination_by structural ms => ms

end

/-! ## Records -/

/-- What a missing field of a record means: an error; the default of its type; or the absent value
of an optional type, which only an object may leave out. -/
inductive FieldKind where
  | required
  | defaulted
  | optional
  deriving DecidableEq

/-- A field of a record type. -/
structure Field where
  name : Bytes
  kind : FieldKind

/-- The values of a member name, in document order. -/
def memberValues (ms : List (Bytes × Json)) (name : Bytes) : List Json :=
  (ms.filter fun m => m.1 = name).map Prod.snd

/-- A field read from the members of an object: a repeated field is an error. -/
def fieldOfMembers (ms : List (Bytes × Json)) (f : Field) : Option (Option Json) :=
  match memberValues ms f.name with
  | [] => if f.kind = .required then none else some none
  | [v] => some (some v)
  | _ => none

/-- The fields read from the elements of an array, by position: elements beyond the fields are an
error, and so are missing ones unless the field has a default. -/
def fieldsOfItems : List Json → List Field → Option (List (Option Json))
  | [], [] => some []
  | _ :: _, [] => none
  | [], f :: fs =>
      if f.kind = .defaulted then (fieldsOfItems [] fs).map (none :: ·) else none
  | x :: xs, _ :: fs => (fieldsOfItems xs fs).map (some x :: ·)

/-- The raw field values of a record, in the order of the fields. -/
def recordFields (denyUnknown : Bool) (fs : List Field) : Json → Option (List (Option Json))
  | .obj ms =>
      if denyUnknown && ms.any (fun m => fs.all fun f => f.name ≠ m.1) then none
      else fs.mapM (fieldOfMembers ms)
  | .arr xs => fieldsOfItems xs fs
  | _ => none

/-- A string field. -/
def asString : Json → Option Bytes
  | .str s => some s
  | _ => none

/-- A field of a signed 64-bit type. -/
def asI64 : Json → Option I64
  | .int z => I64.ofInt? z
  | _ => none

/-- A field of an unsigned 16-bit type. -/
def asU16 : Json → Option Nat
  | .int z => if 0 ≤ z ∧ z < 2 ^ 16 then some z.toNat else none
  | _ => none

/-- An optional string field: absent, `null` or a string. -/
def asOptionalString : Option Json → Option (Option Bytes)
  | none => some none
  | some .null => some none
  | some (.str s) => some (some s)
  | some _ => none

/-! ## Sizes -/

/-- The length of the text of one byte of a string. -/
def escapedByteLength (b : UInt8) : Nat :=
  if b = byte '"' || b = byte '\\' || b = 8 || b = 9 || b = 10 || b = 12 || b = 13 then 2
  else if b < 0x20 then 6
  else 1

/-- The length of the text of the bytes of a string. -/
def escapedLength (s : Bytes) : Nat := (s.map escapedByteLength).sum

theorem length_escapeByte (b : UInt8) : (escapeByte b).length = escapedByteLength b := by
  revert b
  decide +kernel

@[simp] theorem length_escape (s : Bytes) : (escape s).length = escapedLength s := by
  induction s with
  | nil => rfl
  | cons b s ih =>
    rw [escape, List.flatMap_cons, List.length_append, length_escapeByte]
    rw [escape] at ih
    rw [ih]
    rfl

@[simp] theorem length_renderStr (s : Bytes) : (renderStr s).length = escapedLength s + 2 := by
  simp [renderStr]

theorem length_renderMembers (ms : List (Bytes × Json)) :
    (renderMembers ms).length = (ms.map fun m => (renderMember m).length + 1).sum + 1 := by
  induction ms with
  | nil => rfl
  | cons m ms ih =>
    simp only [renderMembers, List.length_cons, List.length_append, ih, List.map_cons,
      List.sum_cons]
    omega

/-- The text of an object with members: each of them with a delimiter, and the closing brace. -/
theorem length_render_obj {ms : List (Bytes × Json)} (h : ms ≠ []) :
    (render (.obj ms)).length = (ms.map fun m => (renderMember m).length + 1).sum + 1 := by
  cases ms with
  | nil => exact absurd rfl h
  | cons m ms =>
    simp only [render, List.length_cons, List.length_append, length_renderMembers, List.map_cons,
      List.sum_cons]
    omega

/-- Bytes without an escape are written as they are. -/
theorem escape_eq_self {s : Bytes} (h : ∀ b ∈ s, escapedByteLength b = 1) : escape s = s := by
  have hbyte : ∀ b : UInt8, escapedByteLength b = 1 → escapeByte b = [b] := by decide +kernel
  induction s with
  | nil => rfl
  | cons b s ih =>
    have hb := hbyte b (h b List.mem_cons_self)
    have hs := ih fun x hx => h x (List.mem_cons_of_mem _ hx)
    rw [escape] at hs ⊢
    rw [List.flatMap_cons, hb, hs, List.singleton_append]

theorem escapedLength_eq_length {s : Bytes} (h : ∀ b ∈ s, escapedByteLength b = 1) :
    escapedLength s = s.length := by
  rw [← length_escape, escape_eq_self h]

theorem escapedLength_le (s : Bytes) : escapedLength s ≤ 6 * s.length := by
  have hbyte : ∀ b : UInt8, escapedByteLength b ≤ 6 := by decide +kernel
  induction s with
  | nil => exact Nat.zero_le _
  | cons b s ih =>
    have hb := hbyte b
    simp only [escapedLength, List.map_cons, List.sum_cons, List.length_cons] at ih ⊢
    omega

/-! ## No control characters -/

/-- A text without a control character of ASCII below the blank. -/
def Printable (s : Bytes) : Prop := ∀ c ∈ s, 0x20 ≤ c

instance (s : Bytes) : Decidable (Printable s) := List.decidableBAll (fun c => 0x20 ≤ c) s

theorem Printable.append {s t : Bytes} (hs : Printable s) (ht : Printable t) :
    Printable (s ++ t) := by
  intro c hc
  rcases List.mem_append.1 hc with hc | hc
  · exact hs c hc
  · exact ht c hc

theorem Printable.cons {b : UInt8} {s : Bytes} (hb : 0x20 ≤ b) (hs : Printable s) :
    Printable (b :: s) := by
  intro c hc
  rcases List.mem_cons.1 hc with rfl | hc
  · exact hb
  · exact hs c hc

theorem printable_decimalInt (z : Int) : Printable (decimalInt z) := by
  have hdigit : ∀ c : UInt8, isAsciiDigit c = true → 0x20 ≤ c := by decide +kernel
  have hdecimal : ∀ n, Printable (decimal n) :=
    fun n c hc => hdigit c (isAsciiDigit_of_mem_decimal hc)
  unfold decimalInt
  split
  · exact Printable.cons (by decide) (hdecimal _)
  · exact hdecimal _

/-- A control character of a string is written as an escape. -/
theorem printable_renderStr (s : Bytes) : Printable (renderStr s) := by
  have hbyte : ∀ b : UInt8, Printable (escapeByte b) := by decide +kernel
  have hescape : Printable (escape s) := by
    intro c hc
    obtain ⟨b, -, hb⟩ := List.mem_flatMap.1 hc
    exact hbyte b c hb
  have hquote : Printable [byte '"'] := by decide
  exact Printable.append (Printable.cons (by decide) hescape) hquote

mutual

/-- The compact text of a value is printable. -/
theorem printable_render (j : Json) (hj : j.Plain) : Printable (render j) := by
  cases j with
  | null => decide
  | bool b => cases b <;> decide
  | int z => exact printable_decimalInt z
  | float t => exact absurd hj (by simp [Plain])
  | str s => exact printable_renderStr s
  | arr xs =>
    cases xs with
    | nil => decide
    | cons x xs =>
      exact Printable.cons (by decide)
        (Printable.append (printable_render x hj.1) (printable_renderItems xs hj.2))
  | obj ms =>
    cases ms with
    | nil => decide
    | cons m ms =>
      exact Printable.cons (by decide)
        (Printable.append (printable_renderMember m hj.1) (printable_renderMembers ms hj.2))
termination_by structural j

theorem printable_renderItems (xs : List Json) (hxs : PlainItems xs) :
    Printable (renderItems xs) := by
  cases xs with
  | nil => decide
  | cons x xs =>
    exact Printable.cons (by decide)
      (Printable.append (printable_render x hxs.1) (printable_renderItems xs hxs.2))
termination_by structural xs

theorem printable_renderMember (m : Bytes × Json) (hm : PlainMember m) :
    Printable (renderMember m) := by
  obtain ⟨k, v⟩ := m
  exact Printable.append (printable_renderStr k)
    (Printable.cons (by decide) (printable_render v hm.2))
termination_by structural m

theorem printable_renderMembers (ms : List (Bytes × Json)) (hms : PlainMembers ms) :
    Printable (renderMembers ms) := by
  cases ms with
  | nil => decide
  | cons m ms =>
    exact Printable.cons (by decide)
      (Printable.append (printable_renderMember m hms.1) (printable_renderMembers ms hms.2))
termination_by structural ms

end

end Json

end Keylix.Lib
