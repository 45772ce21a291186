import ShaderAlgebra.Json.Number
import ShaderAlgebra.Json.Text
import ShaderAlgebra.Text.Quoted

/-!
# JSON values

A value of any shape, as it stands in a text: members of an object keep their
order, and repeated keys are kept too. Only so many containers may be open at
once; the bound is a parameter of the reading step.
-/

namespace ShaderAlgebra.Json

inductive Value
  | null
  | bool (value : Bool)
  | number (value : Number)
  | string (value : String)
  | list (items : List Value)
  | object (members : List (String × Value))

/-- What stands where something else was expected: a scalar, or a container of which
only the opening has been seen. -/
inductive Found
  | null
  | bool (value : Bool)
  | number (value : Number)
  | string (value : String)
  | list
  | object
deriving DecidableEq

def Found.message : Found → String
  | null => "null"
  | bool b => "boolean `" ++ (if b then "true" else "false") ++ "`"
  | number (.integer n) => "integer `" ++ toString n ++ "`"
  | number (.real x) => "floating point `" ++ doubleText x ++ "`"
  | string s => "string " ++ Text.quoted s
  | list => "sequence"
  | object => "map"

namespace Scan

/-- The next token: a scalar, which is taken, or the opening of a container, which stays. -/
def token : Scan Fault Found := do
  match ← peekToken with
  | none => throw .endInValue
  | some b =>
    if b = ascii 'n' then
      identifier ['n', 'u', 'l', 'l']
      return .null
    else if b = ascii 't' then
      identifier ['t', 'r', 'u', 'e']
      return .bool true
    else if b = ascii 'f' then
      identifier ['f', 'a', 'l', 's', 'e']
      return .bool false
    else if b = ascii '-' || isDigit b then return .number (← number)
    else if b = ascii '"' then return .string (← string)
    else if b = ascii '[' then return .list
    else if b = ascii '\x7b' then return .object
    else throw .noValue

/-- A value whose containers hold values read by `inner`; without it, none may be
opened. -/
def valueOver (inner : Option (Scan Fault Value)) : Scan Fault Value := do
  match ← token, inner with
  | .null, _ => return .null
  | .bool b, _ => return .bool b
  | .number n, _ => return .number n
  | .string s, _ => return .string s
  | .list, some inner =>
    skip
    let items ← list id (fun items => return items.push (← inner)) (#[] : Array Value)
    return .list items.toList
  | .object, some inner =>
    skip
    let members ← object id (fun members => do
      let key ← string
      colon
      return members.push (key, ← inner)) (#[] : Array (String × Value))
    return .object members.toList
  | _, none => throw .tooDeep

/-- A value in which at most `depth` containers are open at once. -/
def value : (depth : Nat) → Scan Fault Value
  | 0 => valueOver none
  | depth + 1 => valueOver (some (value depth))

end Scan

end ShaderAlgebra.Json
