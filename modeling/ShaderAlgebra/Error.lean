import ShaderAlgebra.ValueType
import ShaderAlgebra.Request.Fault

/-!
# Errors

Why an expression cannot be built or a request cannot be read. Errors are
causes; all wording is in the `message` functions.
-/

namespace ShaderAlgebra

inductive ArgumentCause
  | operandCount (operator : Operator) (got : Nat)
  | noOperands
  | combineOperand (got : ValueType)
  | combineCount (got : Nat)
  | noChannels
  | notUnsigned (operator : Operator) (what : String) (got : ValueType)
  | notColor (operator : Operator) (got : ValueType)
  | tooNarrow (operator : Operator) (least : Nat) (got : ValueType)
  | described (text : String)
deriving DecidableEq

def ArgumentCause.message : ArgumentCause → String
  | operandCount op got =>
    op.name ++ " expects " ++ toString op.arity ++ " operand(s), got " ++ toString got
  | noOperands => "expected at least one operand"
  | combineOperand got => "combine expects float components, got " ++ got.name
  | combineCount got => "combine expects 2 to 4 components, got " ++ toString got
  | noChannels => "dot of a zero-width value"
  | notUnsigned op what got => op.name ++ " expects a " ++ what ++ ", got " ++ got.name
  | notColor op got =>
    op.name ++ ": input expression must be a 3 or 4 components vector, got " ++ got.name
  | tooNarrow op least got =>
    op.name ++ " expects a float vector with at least " ++ toString least ++
      " components, got " ++ got.name
  | described text => text

inductive ConfigCause
  | unknownType (name : String)
  | unknownOperator (name : String)
  | constantWidth (position count : Nat)
  | unreadable (fault : Request.Fault)
  | unopened (path reason : String)
  | described (text : String)
deriving DecidableEq

def ConfigCause.message : ConfigCause → String
  | unknownType name => "unknown value type \"" ++ name ++ "\""
  | unknownOperator name => "unknown operator \"" ++ name ++ "\""
  | constantWidth position count =>
    "input " ++ toString position ++ ": constant must have 1 to 4 components, got " ++
      toString count
  | unreadable fault => "parse operator request JSON: " ++ fault.message
  | unopened path reason => "open operator request '" ++ path ++ "': " ++ reason
  | described text => text

inductive Error
  | invalidCast (source target : ValueType)
  | typeMismatch (left right : ValueType)
  | invalidArgument (cause : ArgumentCause)
  | config (cause : ConfigCause)
  | other (text : String)
deriving DecidableEq

def Error.message : Error → String
  | invalidCast source target => "invalid cast: " ++ source.name ++ " to " ++ target.name
  | typeMismatch left right => "type mismatch: " ++ left.name ++ " and " ++ right.name
  | invalidArgument cause => "invalid argument: " ++ cause.message
  | config cause => "config error: " ++ cause.message
  | other text => text

end ShaderAlgebra
