import ShaderAlgebra.Json.Scan

/-!
# JSON strings

Strings are read from bytes and written as characters. Reading allows every
escape and any UTF-8 text; surrogates written as escapes must come in pairs.
Writing escapes what must be escaped and nothing else.
-/

namespace ShaderAlgebra.Json

def hexValue? (b : UInt8) : Option Nat :=
  if ascii '0' ≤ b ∧ b ≤ ascii '9' then some (b.toNat - 48)
  else if ascii 'a' ≤ b ∧ b ≤ ascii 'f' then some (b.toNat - 87)
  else if ascii 'A' ≤ b ∧ b ≤ ascii 'F' then some (b.toNat - 55)
  else none

def hexUnit (a b c d : UInt8) : Except Fault Nat :=
  match hexValue? a, hexValue? b, hexValue? c, hexValue? d with
  | some a, some b, some c, some d => .ok (((a * 16 + b) * 16 + c) * 16 + d)
  | _, _, _, _ => .error .badEscape

/-- The byte that a one-letter escape stands for. -/
def simpleEscape? (b : UInt8) : Option UInt8 :=
  if b = ascii '"' ∨ b = ascii '\\' ∨ b = ascii '/' then some b
  else if b = ascii 'b' then some 8
  else if b = ascii 'f' then some 12
  else if b = ascii 'n' then some 10
  else if b = ascii 'r' then some 13
  else if b = ascii 't' then some 9
  else none

/-- The UTF-8 bytes of a code point. -/
def codePointBytes (n : Nat) : List UInt8 := String.utf8EncodeChar (Char.ofNat n)

/-- A numeric escape after its letter: the bytes of its character and the rest of the
input. A leading surrogate takes a second escape with it. -/
def numericEscape : List UInt8 → Except Fault (List UInt8 × List UInt8)
  | a :: b :: c :: d :: rest => do
    let unit ← hexUnit a b c d
    if 0xDC00 ≤ unit ∧ unit ≤ 0xDFFF then throw .loneSurrogate
    else if 0xD800 ≤ unit ∧ unit ≤ 0xDBFF then
      match rest with
      | [] => throw .endInString
      | backslash :: rest =>
        if backslash ≠ ascii '\\' then throw .unfinishedSurrogate
        else match rest with
          | [] => throw .endInString
          | letter :: rest =>
            if letter ≠ ascii 'u' then throw .unfinishedSurrogate
            else match rest with
              | a :: b :: c :: d :: rest => do
                let low ← hexUnit a b c d
                if 0xDC00 ≤ low ∧ low ≤ 0xDFFF then
                  return (codePointBytes ((unit - 0xD800) * 0x400 + (low - 0xDC00) + 0x10000),
                    rest)
                else throw .loneSurrogate
              | _ => throw .endInString
    else return (codePointBytes unit, rest)
  | _ => throw .endInString

/-- The bytes of a string after its opening quote, and the rest of the input after its
closing quote; at most one character for each byte of `bound`. -/
def stringBytes : (bound : List UInt8) → List UInt8 → Except Fault (List UInt8 × List UInt8)
  | [], _ => throw .endInString
  | _ :: _, [] => throw .endInString
  | _ :: bound, b :: rest =>
    if b = ascii '"' then return ([], rest)
    else if b = ascii '\\' then
      match rest with
      | [] => throw .endInString
      | letter :: rest => do
        let (bytes, rest) ← match simpleEscape? letter with
          | some byte => pure ([byte], rest)
          | none => if letter = ascii 'u' then numericEscape rest else throw .badEscape
        let (more, rest) ← stringBytes bound rest
        return (bytes ++ more, rest)
    else if b < 0x20 then throw .controlCharacter
    else do
      let (more, rest) ← stringBytes bound rest
      return (b :: more, rest)

/-- A string, from its opening quote on. -/
def Scan.string : Scan Fault String := do
  Scan.skip
  let input ← get
  let (bytes, rest) ← stringBytes input input
  set rest
  match String.fromUTF8? ⟨bytes.toArray⟩ with
  | some s => return s
  | none => throw .badUnicode

/-- A character as it stands in a written string. -/
def escapeChar (c : Char) : List Char :=
  match c with
  | '"' => ['\\', '"']
  | '\\' => ['\\', '\\']
  | '\x08' => ['\\', 'b']
  | '\x0c' => ['\\', 'f']
  | '\n' => ['\\', 'n']
  | '\r' => ['\\', 'r']
  | '\t' => ['\\', 't']
  | c =>
    if c.toNat < 0x20 then
      ['\\', 'u', '0', '0', Nat.digitChar (c.toNat / 16), Nat.digitChar (c.toNat % 16)]
    else [c]

def stringText (s : String) : String :=
  String.ofList ('"' :: s.toList.flatMap escapeChar ++ ['"'])

end ShaderAlgebra.Json
