import ShaderAlgebra.Json.Value
import ShaderAlgebra.Operator.Basic

/-!
# Faults of requests

Why a text is no request: it is no JSON text, it has the wrong shape, or it
cannot be read to its end.
-/

namespace ShaderAlgebra.Request

inductive Field
  | operator
  | inputs
deriving DecidableEq

def Field.name : Field → String
  | operator => "operator"
  | inputs => "inputs"

inductive Expected
  | request
  | list
  | null
deriving DecidableEq

def Expected.message : Expected → String
  | request => "struct OperatorRequest"
  | list => "a sequence"
  | null => "unit"

inductive Fault
  | json (fault : Json.Fault)
  | wrongType (found : Json.Found) (expected : Expected)
  | unknownOperator (name : String)
  | unknownField (name : String)
  | repeatedField (field : Field)
  | missingOperator
  | emptyList
  | noOperandForm
  | interrupted (reason : String)
deriving DecidableEq

def backquoted (name : String) : String := "`" ++ name ++ "`"

def Fault.message : Fault → String
  | json f => f.message
  | wrongType found expected =>
    "invalid type: " ++ found.message ++ ", expected " ++ expected.message
  | unknownOperator name =>
    "unknown variant " ++ backquoted name ++ ", expected one of " ++
      ", ".intercalate (Operator.all.map (backquoted ·.name))
  | unknownField name =>
    "unknown field " ++ backquoted name ++ ", expected " ++
      backquoted Field.operator.name ++ " or " ++ backquoted Field.inputs.name
  | repeatedField f => "duplicate field " ++ backquoted f.name
  | missingOperator => "missing field " ++ backquoted Field.operator.name
  | emptyList => "invalid length 0, expected struct OperatorRequest with 2 elements"
  | noOperandForm => "data did not match any variant of untagged enum InputDef"
  | interrupted reason => reason

end ShaderAlgebra.Request
