import ShaderAlgebra.Expr.Basic

/-!
# Literals

The numbers that formulas are made of. Each has one node for every value type,
the same one at every use: the identities below `Literal.identities` belong to
these nodes, and fresh nodes begin after them.
-/

namespace ShaderAlgebra

/-- The node of a scalar in every channel of a type. The six types take identities from
`first` on, in their order. -/
def Expr.splatFrom (first : Nat) (x : Single) (t : ValueType) : Expr :=
  .leaf (first + t.index) (.constant (.splat x t))

@[simp] theorem Expr.type_splatFrom (first : Nat) (x : Single) (t : ValueType) :
    (splatFrom first x t).type = t :=
  Constant.type_splat x t

/-- A number with a node of its own for every value type. -/
inductive Literal
  | zero
  | half
  | one
  | minusOne
  | two
  | three
  | pi
  | tau
  | e
deriving DecidableEq

namespace Literal

def all : List Literal := [zero, half, one, minusOne, two, three, pi, tau, e]

def index : Literal → Nat
  | zero => 0
  | half => 1
  | one => 2
  | minusOne => 3
  | two => 4
  | three => 5
  | pi => 6
  | tau => 7
  | e => 8

def value : Literal → Single
  | zero => 0
  | half => 1 / 2
  | one => 1
  | minusOne => -1
  | two => 2
  | three => 3
  | pi => .ofBits 0x40490FDB
  | tau => .ofBits 0x40C90FDB
  | e => .ofBits 0x402DF854

def label : Literal → String
  | zero => "Zero"
  | half => "Half"
  | one => "One"
  | minusOne => "MinusOne"
  | two => "Two"
  | three => "Three"
  | pi => "Pi"
  | tau => "Tau"
  | e => "E"

/-- The number of identities that the nodes of literals take. -/
def identities : Nat := all.length * ValueType.all.length

/-- The identity of a literal's node of a type. -/
def identity (l : Literal) (t : ValueType) : Nat := l.index * ValueType.all.length + t.index

theorem identity_lt (l : Literal) (t : ValueType) : l.identity t < identities := by
  cases l <;> cases t <;> decide

theorem identity_injective {l k : Literal} {t s : ValueType} (h : l.identity t = k.identity s) :
    l = k ∧ t = s := by
  have ht := t.index_lt
  have hs := s.index_lt
  have hl : ValueType.all.length = 6 := rfl
  simp only [identity, hl] at h
  refine ⟨?_, ValueType.index_injective (by omega)⟩
  have hi : l.index = k.index := by omega
  revert hi
  cases l <;> cases k <;> decide

def node (l : Literal) : ValueType → Expr :=
  Expr.splatFrom (l.index * ValueType.all.length) l.value

@[simp] theorem id_node (l : Literal) (t : ValueType) : (l.node t).id = l.identity t := rfl

@[simp] theorem type_node (l : Literal) (t : ValueType) : (l.node t).type = t :=
  Expr.type_splatFrom _ l.value t

end Literal

end ShaderAlgebra
