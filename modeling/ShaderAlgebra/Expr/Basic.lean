import ShaderAlgebra.Constant

/-!
# Expressions

An expression is an immutable tree of typed nodes. Each node has an identity
number, so that an expression also describes a graph: operands with the same
identity are one node, used several times. A `Node α` is a single layer of an
expression with its operand slots filled by `α`; what a node prints, how it is
encoded and which operands it has are functions of that layer.

Two recursions cover every traversal. `Expr.fold` looks at the tree and is blind
to identities. `Expr.walk` asks first whether a node is already known, and so
can visit each shared node once.
-/

namespace ShaderAlgebra

inductive UnaryOp
  /-- Rounding toward negative infinity. -/
  | floor
  /-- The logarithm of base two. -/
  | log2
  | sin
  | cos
  | asin
  /-- The number of an unsigned integer as a float. -/
  | toFloat
  /-- One channel of a vector. -/
  | channel (i : Fin 4)
  /-- A random float in `[0, 1)` that a seed determines. -/
  | random (perElement : Bool)
deriving DecidableEq

inductive BinaryOp
  | add
  | sub
  | mul
  | div
  | min
  | max
  /-- The left operand to the power of the right one. -/
  | pow
  /-- The angle whose tangent is the left operand over the right one. -/
  | atan2
  | and
  | or
  | xor
  | shl
  | shr
deriving DecidableEq

namespace BinaryOp

/-- Shifts take operands of different types. -/
def isShift : BinaryOp → Bool
  | shl | shr => true
  | _ => false

def label : BinaryOp → String
  | add => "Add"
  | sub => "Sub"
  | mul => "Mul"
  | div => "Div"
  | min => "Min"
  | max => "Max"
  | pow => "Pow"
  | atan2 => "Atan2"
  | and => "BitAnd"
  | or => "BitOr"
  | xor => "BitXor"
  | shl => "Shl"
  | shr => "Shr"

end BinaryOp

/-- The type of a one-operand node over an operand of a given type. -/
def UnaryOp.resultType (operand : ValueType) : UnaryOp → ValueType
  | floor | log2 | sin | cos | asin => operand
  | toFloat | channel _ | random _ => .float

/-- Nodes without operands. -/
inductive Leaf
  | constant (value : Constant)
  /-- A named value supplied from outside. -/
  | input (type : ValueType) (name : String)
  /-- The random seed of the whole system. -/
  | systemSeed
deriving DecidableEq

def Leaf.type : Leaf → ValueType
  | constant c => c.type
  | input t _ => t
  | systemSeed => .uint

/-- One layer of an expression. A vector of two to four channels is put together from
as many scalars. -/
inductive Node (α : Type)
  | leaf (leaf : Leaf)
  | unary (op : UnaryOp) (operand : α)
  | binary (op : BinaryOp) (lhs rhs : α)
  | vec2 (x y : α)
  | vec3 (x y z : α)
  | vec4 (x y z w : α)

namespace Node

variable {α β : Type}

def operands : Node α → List α
  | leaf _ => []
  | unary _ a => [a]
  | binary _ a b => [a, b]
  | vec2 x y => [x, y]
  | vec3 x y z => [x, y, z]
  | vec4 x y z w => [x, y, z, w]

/-- The same layer over other operands. -/
def map (g : α → β) : Node α → Node β
  | leaf l => leaf l
  | unary op a => unary op (g a)
  | binary op a b => binary op (g a) (g b)
  | vec2 x y => vec2 (g x) (g y)
  | vec3 x y z => vec3 (g x) (g y) (g z)
  | vec4 x y z w => vec4 (g x) (g y) (g z) (g w)

@[simp] theorem operands_map (g : α → β) (n : Node α) :
    (n.map g).operands = n.operands.map g := by
  cases n <;> rfl

end Node

/-- An immutable typed expression; `id` is the identity of its top node. -/
inductive Expr
  | leaf (id : Nat) (leaf : Leaf)
  | unary (id : Nat) (op : UnaryOp) (operand : Expr)
  | binary (id : Nat) (op : BinaryOp) (lhs rhs : Expr)
  | vec2 (id : Nat) (x y : Expr)
  | vec3 (id : Nat) (x y z : Expr)
  | vec4 (id : Nat) (x y z w : Expr)

namespace Expr

def id : Expr → Nat
  | leaf i .. | unary i .. | binary i .. | vec2 i .. | vec3 i .. | vec4 i .. => i

def node : Expr → Node Expr
  | leaf _ l => .leaf l
  | unary _ op a => .unary op a
  | binary _ op a b => .binary op a b
  | vec2 _ x y => .vec2 x y
  | vec3 _ x y z => .vec3 x y z
  | vec4 _ x y z w => .vec4 x y z w

/-- The expression of an identity and a top layer. -/
def ofNode (id : Nat) : Node Expr → Expr
  | .leaf l => leaf id l
  | .unary op a => unary id op a
  | .binary op a b => binary id op a b
  | .vec2 x y => vec2 id x y
  | .vec3 x y z => vec3 id x y z
  | .vec4 x y z w => vec4 id x y z w

@[simp] theorem ofNode_node (e : Expr) : ofNode e.id e.node = e := by
  cases e <;> rfl

@[simp] theorem node_ofNode (i : Nat) (n : Node Expr) : (ofNode i n).node = n := by
  cases n <;> rfl

@[simp] theorem id_ofNode (i : Nat) (n : Node Expr) : (ofNode i n).id = i := by
  cases n <;> rfl

def operands (e : Expr) : List Expr := e.node.operands

def isLeaf : Expr → Bool
  | leaf .. => true
  | _ => false

/-- The value type; a two-operand node has the type of its left operand. -/
def type : Expr → ValueType
  | leaf _ l => l.type
  | unary _ op a => op.resultType a.type
  | binary _ _ lhs _ => lhs.type
  | vec2 .. => .float2
  | vec3 .. => .float3
  | vec4 .. => .float4

section Traversal

variable {β : Type}

/-- Combines the results of the operands from the leaves up, once for each place in the
tree. -/
def fold (combine : Expr → Node β → β) : Expr → β
  | e@(leaf _ l) => combine e (.leaf l)
  | e@(unary _ op a) => combine e (.unary op (a.fold combine))
  | e@(binary _ op a b) => combine e (.binary op (a.fold combine) (b.fold combine))
  | e@(vec2 _ x y) => combine e (.vec2 (x.fold combine) (y.fold combine))
  | e@(vec3 _ x y z) => combine e (.vec3 (x.fold combine) (y.fold combine) (z.fold combine))
  | e@(vec4 _ x y z w) =>
    combine e (.vec4 (x.fold combine) (y.fold combine) (z.fold combine) (w.fold combine))

theorem fold_eq (combine : Expr → Node β → β) (e : Expr) :
    e.fold combine = combine e (e.node.map (fold combine)) := by
  cases e <;> rfl

/-- Visits the operands of a node from left to right and then finishes it, unless its
result is already known. -/
def walk {m : Type → Type} [Monad m] (known : Expr → m (Option β))
    (finish : Expr → Node β → m β) (e : Expr) : m β := do
  match ← known e with
  | some result => pure result
  | none =>
    match e with
    | leaf _ l => finish e (.leaf l)
    | unary _ op a =>
      let a ← a.walk known finish
      finish e (.unary op a)
    | binary _ op a b =>
      let a ← a.walk known finish
      let b ← b.walk known finish
      finish e (.binary op a b)
    | vec2 _ x y =>
      let x ← x.walk known finish
      let y ← y.walk known finish
      finish e (.vec2 x y)
    | vec3 _ x y z =>
      let x ← x.walk known finish
      let y ← y.walk known finish
      let z ← z.walk known finish
      finish e (.vec3 x y z)
    | vec4 _ x y z w =>
      let x ← x.walk known finish
      let y ← y.walk known finish
      let z ← z.walk known finish
      let w ← w.walk known finish
      finish e (.vec4 x y z w)

end Traversal

end Expr

end ShaderAlgebra
