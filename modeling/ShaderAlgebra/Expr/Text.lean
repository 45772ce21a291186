import ShaderAlgebra.Expr.Basic

/-!
# Nested text

The shader text of an expression. `Node.text` writes one node around the texts
of its operands; the nested text of an expression repeats a shared operand at
each place that uses it.
-/

namespace ShaderAlgebra

namespace BinaryOp

inductive Spelling
  | between (symbol : String)
  | call (name : String)
deriving DecidableEq

def spelling : BinaryOp → Spelling
  | add => .between "+"
  | sub => .between "-"
  | mul => .between "*"
  | div => .between "/"
  | and => .between "&"
  | or => .between "|"
  | xor => .between "^"
  | shl => .between "<<"
  | shr => .between ">>"
  | min => .call "min"
  | max => .call "max"
  | pow => .call "pow"
  | atan2 => .call "atan2"

/-- The text around the texts of two operands; a symbol comes with brackets of its own. -/
def text (op : BinaryOp) (lhs rhs : String) : String :=
  match op.spelling with
  | .between symbol => "(" ++ lhs ++ " " ++ symbol ++ " " ++ rhs ++ ")"
  | .call name => name ++ "(" ++ lhs ++ ", " ++ rhs ++ ")"

end BinaryOp

def channelLetter (i : Fin 4) : String :=
  match i with
  | 0 => "x"
  | 1 => "y"
  | 2 => "z"
  | 3 => "w"

def UnaryOp.text (operand : String) : UnaryOp → String
  | floor => "floor(" ++ operand ++ ")"
  | log2 => "log2(" ++ operand ++ ")"
  | sin => "sin(" ++ operand ++ ")"
  | cos => "cos(" ++ operand ++ ")"
  | asin => "asin(" ++ operand ++ ")"
  | toFloat => "float(" ++ operand ++ ")"
  | channel i => operand ++ "." ++ channelLetter i
  | random perElement =>
    "fixedRandom(" ++ operand ++ ", " ++ (if perElement then "true" else "false") ++ ")"

/-- The text of a leaf: a literal, or a bare name. -/
def Leaf.text : Leaf → String
  | constant c => c.text
  | input _ name => name
  | systemSeed => "systemSeed"

def Node.text : Node String → String
  | leaf l => l.text
  | unary op a => op.text a
  | binary op a b => op.text a b
  | vec2 x y => "float2(" ++ x ++ ", " ++ y ++ ")"
  | vec3 x y z => "float3(" ++ x ++ ", " ++ y ++ ", " ++ z ++ ")"
  | vec4 x y z w => "float4(" ++ x ++ ", " ++ y ++ ", " ++ z ++ ", " ++ w ++ ")"

def Expr.text (e : Expr) : String := e.fold fun _ n => n.text

end ShaderAlgebra
