import ShaderAlgebra.Request.Basic

/-!
# Reading requests

A request is an object with the fields `operator` and `inputs`, or a list of
the two in this order; the inputs may be left out. The operator is a name, or
an object of that name with the value null. An operand may be any value: it is
taken for the first form that it fits, and members that the form does not know
are passed over. In a request other members, and members given twice, are
faults, and so is what follows the request.
-/

namespace ShaderAlgebra.Request

open Json (Scan ascii)

/-- The value of the only member of a key: `none` if there are several, `some none` if
there is no such member. -/
def member? (key : String) (members : List (String × Json.Value)) :
    Option (Option Json.Value) :=
  match members.filter (·.1 = key) with
  | [] => some none
  | [(_, value)] => some (some value)
  | _ => none

/-- A value type: its name, or an object of that name with the value null. -/
def typeOfValue? : Json.Value → Option ValueType
  | .string name => ValueType.ofName? name
  | .object [(name, .null)] => ValueType.ofName? name
  | _ => none

/-- The name of an input; null stands for no name. -/
def nameOfValue? : Option Json.Value → Option (Option String)
  | none => some none
  | some .null => some none
  | some (.string name) => some (some name)
  | some _ => none

def singleOfNumber : Json.Number → Single
  | .integer n => Word.ofInt .single n
  | .real x => x.convert .single

/-- A number; no other value stands for a float. -/
def singleOfValue? : Json.Value → Option Single
  | .number n => some (singleOfNumber n)
  | _ => none

namespace Operand

def ofInput? (members : List (String × Json.Value)) : Option Operand := do
  let type ← typeOfValue? (← ← member? "input" members)
  let name ← nameOfValue? (← member? "name" members)
  return .input type name

def ofFloats? (members : List (String × Json.Value)) : Option Operand := do
  match ← member? "const" members with
  | some (.list items) => return .floats (← items.mapM singleOfValue?)
  | _ => none

def ofUInt? (members : List (String × Json.Value)) : Option Operand := do
  match ← member? "uint" members with
  | some (.number (.integer n)) =>
    if 0 ≤ n ∧ n < UInt32.size then return .uint (.ofNat n.toNat) else none
  | _ => none

def ofInt? (members : List (String × Json.Value)) : Option Operand := do
  match ← member? "int" members with
  | some (.number (.integer n)) =>
    if Int32.minValue.toInt ≤ n ∧ n ≤ Int32.maxValue.toInt then return .int (.ofInt n) else none
  | _ => none

/-- The first form that a value fits. -/
def ofValue? : Json.Value → Option Operand
  | .object members =>
    ofInput? members <|> ofFloats? members <|> ofUInt? members <|> ofInt? members
  | _ => none

end Operand

/-- No more containers than these may be open at once. -/
def depthLimit : Nat := 127

abbrev Reading := Scan Fault

namespace Reading

def json {α : Type} (step : Scan Json.Fault α) : Reading α := step.widen .json

def operatorOfName (name : String) : Reading Operator :=
  match Operator.ofName? name with
  | some op => return op
  | none => throw (.unknownOperator name)

/-- The name of an operator as the key of an object, whose brace has been taken. -/
def operatorKey : Reading Operator := do
  match ← json Scan.peekToken with
  | none => throw (.json .endInObject)
  | some b =>
    if b = ascii '"' then operatorOfName (← json Scan.string)
    else if b = ascii '\x7d' then throw (.json .noValue)
    else throw (.json .keyNotString)

/-- An operator: its name, or an object of that name with the value null. -/
def operator : Reading Operator := do
  match ← json Scan.peekToken with
  | none => throw (.json .endInValue)
  | some b =>
    if b = ascii '"' then
      operatorOfName (← json Scan.string)
    else if b = ascii '\x7b' then
      Scan.skip
      let op ← operatorKey
      json Scan.colon
      match ← json Scan.token with
      | .null => pure ()
      | found => throw (.wrongType found .null)
      match ← json Scan.peekToken with
      | none => throw (.json .endInObject)
      | some b =>
        if b = ascii '\x7d' then
          Scan.skip
          return op
        else throw (.json .noValue)
    else throw (.json .noValue)

/-- An operand, two containers deep. -/
def operand : Reading Operand := do
  match Operand.ofValue? (← json (Scan.value (depthLimit - 2))) with
  | some o => return o
  | none => throw .noOperandForm

def inputs : Reading (List Operand) := do
  match ← json Scan.token with
  | .list =>
    Scan.skip
    let operands ← Scan.list .json (fun operands => return operands.push (← operand))
      (#[] : Array Operand)
    return operands.toList
  | found => throw (.wrongType found .list)

/-- The fields read so far. -/
structure Fields where
  operator : Option Operator := none
  inputs : Option (List Operand) := none

def field (fields : Fields) : Reading Fields := do
  let key ← json Scan.string
  if key = Field.operator.name then
    if fields.operator.isSome then throw (.repeatedField .operator)
    json Scan.colon
    return { fields with operator := some (← operator) }
  else if key = Field.inputs.name then
    if fields.inputs.isSome then throw (.repeatedField .inputs)
    json Scan.colon
    return { fields with inputs := some (← inputs) }
  else throw (.unknownField key)

/-- A request as an object, after its opening brace. -/
def requestObject : Reading Request := do
  let fields ← Scan.object .json field {}
  match fields.operator with
  | some op => return ⟨op, fields.inputs.getD []⟩
  | none => throw .missingOperator

/-- A request as a list, after its opening bracket. -/
def requestList : Reading Request := do
  if ← json (Scan.nextItem true) then
    let op ← operator
    let operands ← if ← json (Scan.nextItem false) then inputs else pure []
    json Scan.endList
    return ⟨op, operands⟩
  else throw .emptyList

def request : Reading Request := do
  let r ← match ← json Scan.token with
    | .object => do Scan.skip; requestObject
    | .list => do Scan.skip; requestList
    | found => throw (.wrongType found .request)
  json Scan.endOfInput
  return r

end Reading

def ofBytes (bytes : List UInt8) : Except Fault Request :=
  match Reading.request bytes with
  | .ok (r, _) => .ok r
  | .error fault => .error fault

/-- The request that a text describes, or the error that reports its fault. -/
def parse (bytes : List UInt8) : Except Error Request :=
  match ofBytes bytes with
  | .ok r => .ok r
  | .error fault => .error (.config (.unreadable fault))

def bytesOfString (s : String) : List UInt8 := s.toUTF8.data.toList

end ShaderAlgebra.Request
