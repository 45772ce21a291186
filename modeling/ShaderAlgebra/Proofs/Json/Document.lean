import Mathlib.Data.List.Forall2
import ShaderAlgebra.Proofs.Json.Value

/-!
# What a JSON text says

A text spells a document. Blanks stand between tokens, and a character of a string
is written as it is or as an escape, so a document has many spellings. Numbers are
kept as they are written. The grammar lets surrogates stand alone, so the strings of
a document are sequences of 16-bit units, not of characters.

The value of a document is what its numbers and strings stand for, if they stand for
something and if not too many containers are open at once.
-/

namespace ShaderAlgebra.Json

/-- What a text says: members keep their order, and numbers their digits. -/
inductive Document
  | null
  | bool (value : Bool)
  | number (numeral : List UInt8)
  | string (units : List Nat)
  | list (items : List Document)
  | object (members : List (List Nat × Document))

/-! ### Strings -/

def IsLeading (u : Nat) : Prop := 0xD800 ≤ u ∧ u ≤ 0xDBFF

def IsTrailing (u : Nat) : Prop := 0xDC00 ≤ u ∧ u ≤ 0xDFFF

instance (u : Nat) : Decidable (IsLeading u) := inferInstanceAs (Decidable (_ ∧ _))

instance (u : Nat) : Decidable (IsTrailing u) := inferInstanceAs (Decidable (_ ∧ _))

/-- The 16-bit units of a character; beyond the first `2 ^ 16` characters a pair of surrogates. -/
def units (c : Char) : List Nat :=
  if c.toNat < 0x10000 then [c.toNat]
  else [0xD800 + (c.toNat - 0x10000) / 0x400, 0xDC00 + (c.toNat - 0x10000) % 0x400]

/-- The code point of a pair of surrogates. -/
def pairValue (u v : Nat) : Nat := (u - 0xD800) * 0x400 + (v - 0xDC00) + 0x10000

/-- The characters of a sequence of units, unless a surrogate stands alone. -/
def characters? : List Nat → Option (List Char)
  | [] => some []
  | u :: us =>
    if IsTrailing u then none
    else if IsLeading u then
      match us with
      | [] => none
      | v :: us =>
        if IsTrailing v then (characters? us).map (Char.ofNat (pairValue u v) :: ·) else none
    else (characters? us).map (Char.ofNat u :: ·)

def stringOf? (us : List Nat) : Option String := (characters? us).map String.ofList

/-- The text between the quotes of a string. -/
inductive SpellsUnits : List Nat → List UInt8 → Prop
  | nil : SpellsUnits [] []
  | plain {us : List Nat} {text : List UInt8} (c : Char) :
      0x20 ≤ c.toNat → c ≠ '"' → c ≠ '\\' → SpellsUnits us text →
      SpellsUnits (units c ++ us) (String.utf8EncodeChar c ++ text)
  | simple {us : List Nat} {text : List UInt8} {letter byte : UInt8} :
      simpleEscape? letter = some byte → SpellsUnits us text →
      SpellsUnits (byte.toNat :: us) (ascii '\\' :: letter :: text)
  | numeric {us : List Nat} {text : List UInt8} {a b c d : UInt8} {u : Nat} :
      hexUnit a b c d = .ok u → SpellsUnits us text →
      SpellsUnits (u :: us) (ascii '\\' :: ascii 'u' :: a :: b :: c :: d :: text)

/-! ### Numbers -/

/-- Decimal digits, at least one. -/
def IsRun (run : List UInt8) : Prop := run ≠ [] ∧ ∀ b ∈ run, isDigit b

/-- The fraction of a number, which may be left out. -/
inductive IsFraction : List UInt8 → Prop
  | none : IsFraction []
  | point {run : List UInt8} : IsRun run → IsFraction (ascii '.' :: run)

/-- The exponent of a number, which may be left out. -/
inductive IsExponent : List UInt8 → Prop
  | none : IsExponent []
  | unsigned {letter : UInt8} {run : List UInt8} :
      letter = ascii 'e' ∨ letter = ascii 'E' → IsRun run → IsExponent (letter :: run)
  | signed {letter sign : UInt8} {run : List UInt8} :
      letter = ascii 'e' ∨ letter = ascii 'E' → sign = ascii '+' ∨ sign = ascii '-' →
      IsRun run → IsExponent (letter :: sign :: run)

inductive IsUnsigned : List UInt8 → Prop
  | mk {whole fraction exponent : List UInt8} :
      IsRun whole → NoLeadingZero whole → IsFraction fraction → IsExponent exponent →
      IsUnsigned (whole ++ (fraction ++ exponent))

inductive IsNumeral : List UInt8 → Prop
  | positive {text : List UInt8} : IsUnsigned text → IsNumeral text
  | negative {text : List UInt8} : IsUnsigned text → IsNumeral (ascii '-' :: text)

/-- The number that a numeral stands for, unless it is too large. -/
def numberOf? (numeral : List UInt8) : Option Number :=
  (Scan.number numeral).toOption.map (·.1)

/-! ### Texts -/

def Blank (bytes : List UInt8) : Prop := ∀ b ∈ bytes, isBlank b

instance (bytes : List UInt8) : Decidable (Blank bytes) := List.decidableBAll _ bytes

/-- A text with blanks before and after it. -/
structure Padded where
  before : List UInt8
  text : List UInt8
  after : List UInt8
  blank_before : Blank before
  blank_after : Blank after

def Padded.bytes (p : Padded) : List UInt8 := p.before ++ (p.text ++ p.after)

def quotedBytes (text : List UInt8) : List UInt8 := ascii '"' :: (text ++ [ascii '"'])

/-- A key, a colon and a value, with blanks on both sides of the colon. -/
structure Member where
  units : List Nat
  key : List UInt8
  colon : Padded
  document : Document
  value : List UInt8
  spells_key : SpellsUnits units key
  colon_text : colon.text = [ascii ':']

def Member.text (m : Member) : List UInt8 := quotedBytes m.key ++ (m.colon.bytes ++ m.value)

/-- A text of a document that begins with its first token and ends with its last one. -/
inductive Spells : Document → List UInt8 → Prop
  | null : Spells .null (Request.bytesOfString "null")
  | bool (b : Bool) : Spells (.bool b) (Request.bytesOfString (if b then "true" else "false"))
  | number {numeral : List UInt8} : IsNumeral numeral → Spells (.number numeral) numeral
  | string {us : List Nat} {text : List UInt8} :
      SpellsUnits us text → Spells (.string us) (quotedBytes text)
  | list {lead : List UInt8} {items : List (Document × Padded)} :
      Blank lead → (∀ item ∈ items, Spells item.1 item.2.text) →
      Spells (.list (items.map (·.1)))
        (ascii '[' :: (lead ++ (Scan.separated (·.2.bytes) true items ++ [ascii ']'])))
  | object {lead : List UInt8} {members : List (Member × Padded)} :
      Blank lead → (∀ m ∈ members, Spells m.1.document m.1.value) →
      (∀ m ∈ members, m.2.text = m.1.text) →
      Spells (.object (members.map fun m => (m.1.units, m.1.document)))
        (ascii '\x7b' :: (lead ++ (Scan.separated (·.2.bytes) true members ++ [ascii '\x7d'])))

/-- A text of a document. -/
def Document.HasText (d : Document) (bytes : List UInt8) : Prop :=
  ∃ p : Padded, Spells d p.text ∧ bytes = p.bytes

/-! ### Values -/

/-- A member whose value `inner` gives. -/
def memberOf? (inner : Document → Option Value) (m : List Nat × Document) :
    Option (String × Value) := do
  return (← stringOf? m.1, ← inner m.2)

/-- The value of a document in which at most `depth` containers are open at once. -/
def Document.value? : (depth : Nat) → Document → Option Value
  | _, .null => some .null
  | _, .bool b => some (.bool b)
  | _, .number numeral => (numberOf? numeral).map .number
  | _, .string us => (stringOf? us).map .string
  | 0, .list _ => none
  | 0, .object _ => none
  | depth + 1, .list items => (items.mapM (value? depth)).map .list
  | depth + 1, .object members =>
    (members.mapM (memberOf? (value? depth))).map .object

/-- The same document but for the order of members in objects, at all depths. -/
inductive Document.Reordered : Document → Document → Prop
  | null : Reordered .null .null
  | bool (b : Bool) : Reordered (.bool b) (.bool b)
  | number (numeral : List UInt8) : Reordered (.number numeral) (.number numeral)
  | string (us : List Nat) : Reordered (.string us) (.string us)
  | list {items items' : List Document} : List.Forall₂ Reordered items items' →
      Reordered (.list items) (.list items')
  | object {members middle members' : List (List Nat × Document)} :
      members.map (·.1) = middle.map (·.1) →
      List.Forall₂ Reordered (members.map (·.2)) (middle.map (·.2)) → middle.Perm members' →
      Reordered (.object members) (.object members')

end ShaderAlgebra.Json
