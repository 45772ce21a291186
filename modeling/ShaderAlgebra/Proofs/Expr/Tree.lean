import ShaderAlgebra.Proofs.Expr.Graph

/-!
# Unfolded trees

The tree of an expression says at each place the value type and the layer, and
nothing else: identities are gone, and a shared node stands at each place that
uses it.
-/

namespace ShaderAlgebra

/-- An unfolded expression; every place has its value type. -/
inductive Tree
  | leaf (type : ValueType) (leaf : Leaf)
  | unary (type : ValueType) (op : UnaryOp) (operand : Tree)
  | binary (type : ValueType) (op : BinaryOp) (lhs rhs : Tree)
  | vec2 (type : ValueType) (x y : Tree)
  | vec3 (type : ValueType) (x y z : Tree)
  | vec4 (type : ValueType) (x y z w : Tree)
deriving DecidableEq

namespace Tree

def type : Tree → ValueType
  | leaf t .. | unary t .. | binary t .. | vec2 t .. | vec3 t .. | vec4 t .. => t

def node : Tree → Node Tree
  | leaf _ l => .leaf l
  | unary _ op a => .unary op a
  | binary _ op a b => .binary op a b
  | vec2 _ x y => .vec2 x y
  | vec3 _ x y z => .vec3 x y z
  | vec4 _ x y z w => .vec4 x y z w

def ofNode (type : ValueType) : Node Tree → Tree
  | .leaf l => leaf type l
  | .unary op a => unary type op a
  | .binary op a b => binary type op a b
  | .vec2 x y => vec2 type x y
  | .vec3 x y z => vec3 type x y z
  | .vec4 x y z w => vec4 type x y z w

@[simp] theorem type_ofNode (t : ValueType) (n : Node Tree) : (ofNode t n).type = t := by
  cases n <;> rfl

@[simp] theorem node_ofNode (t : ValueType) (n : Node Tree) : (ofNode t n).node = n := by
  cases n <;> rfl

@[simp] theorem ofNode_node (t : Tree) : ofNode t.type t.node = t := by
  cases t <;> rfl

/-- Combines the results of the operands from the leaves up. -/
def fold {β : Type} (combine : ValueType → Node β → β) : Tree → β
  | leaf t l => combine t (.leaf l)
  | unary t op a => combine t (.unary op (a.fold combine))
  | binary t op a b => combine t (.binary op (a.fold combine) (b.fold combine))
  | vec2 t x y => combine t (.vec2 (x.fold combine) (y.fold combine))
  | vec3 t x y z => combine t (.vec3 (x.fold combine) (y.fold combine) (z.fold combine))
  | vec4 t x y z w =>
    combine t (.vec4 (x.fold combine) (y.fold combine) (z.fold combine) (w.fold combine))

theorem fold_eq {β : Type} (combine : ValueType → Node β → β) (t : Tree) :
    t.fold combine = combine t.type (t.node.map (fold combine)) := by
  cases t <;> rfl

end Tree

namespace Expr

/-- The unfolded tree of an expression. -/
def tree (e : Expr) : Tree := e.fold fun e n => Tree.ofNode e.type n

theorem tree_eq (e : Expr) : e.tree = Tree.ofNode e.type (e.node.map tree) :=
  fold_eq _ e

@[simp] theorem type_tree (e : Expr) : e.tree.type = e.type := by
  rw [tree_eq, Tree.type_ofNode]

@[simp] theorem node_tree (e : Expr) : e.tree.node = e.node.map tree := by
  rw [tree_eq, Tree.node_ofNode]

end Expr

end ShaderAlgebra
