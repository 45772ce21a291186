import ShaderAlgebra.Json.Fault

/-!
# Scanning JSON bytes

A scan takes bytes from the front of the input or stops with a fault. Here are
the steps that lists and objects are made of. `nextItem` and `nextKey` decide
between the end of a container and its next entry, including the separator;
`foldItems` and `foldMembers` repeat them. Each entry takes at least one byte,
so the bytes left at the start of a container bound the repetitions.
-/

namespace ShaderAlgebra.Json

/-- A reading step over the remaining bytes, with faults of type `ε`. -/
abbrev Scan (ε α : Type) := StateT (List UInt8) (Except ε) α

def ascii (c : Char) : UInt8 := c.toUInt8

/-- Blanks between tokens: space, line feed, carriage return and tab. -/
def isBlank (b : UInt8) : Bool :=
  b == ascii ' ' || b == ascii '\n' || b == ascii '\r' || b == ascii '\t'

namespace Scan

variable {ε α σ : Type}

/-- The same step with its faults in a wider type. -/
def widen (wrap : Fault → ε) (s : Scan Fault α) : Scan ε α := fun bytes =>
  match s bytes with
  | .ok result => .ok result
  | .error fault => .error (wrap fault)

def peek : Scan ε (Option UInt8) := return (← get).head?

def skip : Scan ε Unit := modify List.tail

/-- Drops blanks and looks at the byte after them. -/
def peekToken : Scan ε (Option UInt8) := do
  modify (·.dropWhile isBlank)
  peek

def identifier : List Char → Scan Fault Unit
  | [] => return ()
  | c :: rest => do
    match ← peek with
    | none => throw .endInValue
    | some b =>
      if b = ascii c then
        skip
        identifier rest
      else
        throw .noIdentifier

/-- Whether a list goes on. Its end stays to be taken; a separator before the next item
is taken. -/
def nextItem (first : Bool) : Scan Fault Bool := do
  match ← peekToken with
  | none => throw .endInList
  | some b =>
    if b = ascii ']' then return false
    else if first then return true
    else if b = ascii ',' then
      skip
      match ← peekToken with
      | none => throw .endInValue
      | some b => if b = ascii ']' then throw .trailingComma else return true
    else throw .noListSeparator

def endList : Scan Fault Unit := do
  match ← peekToken with
  | none => throw .endInList
  | some b =>
    if b = ascii ']' then skip
    else if b = ascii ',' then
      skip
      match ← peekToken with
      | some b => throw (if b = ascii ']' then .trailingComma else .trailingCharacters)
      | none => throw .trailingCharacters
    else throw .trailingCharacters

/-- Whether an object goes on. Its end stays to be taken, and so does the quote that
begins the next key. -/
def nextKey (first : Bool) : Scan Fault Bool := do
  match ← peekToken with
  | none => throw .endInObject
  | some b =>
    if b = ascii '\x7d' then return false
    else if first then
      if b = ascii '"' then return true else throw .keyNotString
    else if b = ascii ',' then
      skip
      match ← peekToken with
      | none => throw .endInValue
      | some b =>
        if b = ascii '"' then return true
        else throw (if b = ascii '\x7d' then .trailingComma else .keyNotString)
    else throw .noObjectSeparator

def colon : Scan Fault Unit := do
  match ← peekToken with
  | none => throw .endInObject
  | some b => if b = ascii ':' then skip else throw .noColon

/-- Nothing but blanks up to the end of the input. -/
def endOfInput : Scan Fault Unit := do
  match ← peekToken with
  | none => return ()
  | some _ => throw .trailingCharacters

/-- Folds a step over the items of a list, up to its end; at most one for each byte of
`bound`. -/
def foldItems (wrap : Fault → ε) (item : σ → Scan ε σ) (bound : List UInt8) (first : Bool)
    (acc : σ) : Scan ε σ := do
  if ← (nextItem first).widen wrap then
    match bound with
    | [] => return acc
    | _ :: bound =>
      let acc ← item acc
      foldItems wrap item bound false acc
  else
    return acc

/-- Folds a step over the members of an object, up to its end; at most one for each byte
of `bound`. The step starts at the quote of the key. -/
def foldMembers (wrap : Fault → ε) (member : σ → Scan ε σ) (bound : List UInt8) (first : Bool)
    (acc : σ) : Scan ε σ := do
  if ← (nextKey first).widen wrap then
    match bound with
    | [] => return acc
    | _ :: bound =>
      let acc ← member acc
      foldMembers wrap member bound false acc
  else
    return acc

/-- A whole list after its opening bracket: its items and its closing bracket. -/
def list (wrap : Fault → ε) (item : σ → Scan ε σ) (acc : σ) : Scan ε σ := do
  let acc ← foldItems wrap item (← get) true acc
  endList.widen wrap
  return acc

/-- A whole object after its opening brace: its members and its closing brace. -/
def object (wrap : Fault → ε) (member : σ → Scan ε σ) (acc : σ) : Scan ε σ := do
  let acc ← foldMembers wrap member (← get) true acc
  skip
  return acc

end Scan

end ShaderAlgebra.Json
