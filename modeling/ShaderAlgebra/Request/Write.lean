import ShaderAlgebra.Request.Basic

/-!
# Writing requests

The compact JSON text of a request: the operator, then the operands in order.
An input without a name has no such member.
-/

namespace ShaderAlgebra.Request

open Json (stringText singleText)

def listText (items : List String) : String := "[" ++ ",".intercalate items ++ "]"

def objectText (members : List (String × String)) : String :=
  "\x7b" ++ ",".intercalate (members.map fun (key, value) => stringText key ++ ":" ++ value) ++
    "\x7d"

def Operand.json : Operand → String
  | input t none => objectText [("input", stringText t.name)]
  | input t (some name) => objectText [("input", stringText t.name), ("name", stringText name)]
  | floats xs => objectText [("const", listText (xs.map singleText))]
  | uint n => objectText [("uint", toString n.toNat)]
  | int n => objectText [("int", toString n.toInt)]

def json (r : Request) : String :=
  objectText [("operator", stringText r.operator.name),
    ("inputs", listText (r.inputs.map Operand.json))]

end ShaderAlgebra.Request
