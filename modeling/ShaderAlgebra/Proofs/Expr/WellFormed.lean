import ShaderAlgebra.Proofs.Build.Outcome
import ShaderAlgebra.Proofs.Expr.Graph

/-!
# Well-formed expressions

An expression is well-formed when the types at each of its nodes fit the node's
kind. The primitives of building keep this: given operands of fitting types
they make a node of the expected type and break no rule.
-/

namespace ShaderAlgebra

/-- A primitive of one operand gives a node of a type over an operand of a type. -/
def UnaryOp.WellTyped (type operand : ValueType) : UnaryOp → Prop
  | floor | log2 | sin | cos | asin => type = operand
  | toFloat | random _ => operand = .uint ∧ type = .float
  | channel i =>
    (operand = .float2 ∨ operand = .float3 ∨ operand = .float4) ∧ i < operand.components ∧
      type = .float

/-- The primitives of one operand that act channel by channel. -/
def UnaryOp.isElementwise : UnaryOp → Bool
  | floor | log2 | sin | cos | asin => true
  | _ => false

def BinaryOp.isBitwise : BinaryOp → Bool
  | and | or | xor | shl | shr => true
  | _ => false

def BinaryOp.WellTyped (op : BinaryOp) (type lhs rhs : ValueType) : Prop :=
  lhs = type ∧ rhs = type ∧ (op.isBitwise = true → type = .uint)

/-- A layer over operands of the given types makes a node of the type `type`. -/
def Node.WellTyped (type : ValueType) : Node ValueType → Prop
  | leaf l => type = l.type
  | unary op a => op.WellTyped type a
  | binary op a b => op.WellTyped type a b
  | vec2 x y => type = .float2 ∧ x = .float ∧ y = .float
  | vec3 x y z => type = .float3 ∧ x = .float ∧ y = .float ∧ z = .float
  | vec4 x y z w => type = .float4 ∧ x = .float ∧ y = .float ∧ z = .float ∧ w = .float

instance (type operand : ValueType) (op : UnaryOp) : Decidable (op.WellTyped type operand) := by
  cases op <;> unfold UnaryOp.WellTyped <;> infer_instance

instance (op : BinaryOp) (type lhs rhs : ValueType) : Decidable (op.WellTyped type lhs rhs) :=
  inferInstanceAs (Decidable (_ ∧ _ ∧ _))

instance (type : ValueType) (n : Node ValueType) : Decidable (n.WellTyped type) := by
  cases n <;> unfold Node.WellTyped <;> infer_instance

namespace Expr

/-- Every node is of the type that its kind gives over the types of its operands. -/
def WellFormed (e : Expr) : Prop := ∀ x ∈ e.nodes, (x.node.map type).WellTyped x.type

instance (e : Expr) : Decidable e.WellFormed :=
  inferInstanceAs (Decidable (∀ x ∈ e.nodes, (x.node.map type).WellTyped x.type))

theorem wellFormed_iff {e : Expr} :
    e.WellFormed ↔ (e.node.map type).WellTyped e.type ∧ ∀ a ∈ e.operands, a.WellFormed := by
  unfold WellFormed
  constructor
  · intro h
    exact ⟨h e (self_mem_nodes e), fun a ha x hx => h x (mem_nodes_of_operand ha hx)⟩
  · rintro ⟨hself, hoperands⟩ x hx
    rcases mem_nodes.1 hx with rfl | ⟨a, ha, hxa⟩
    · exact hself
    · exact hoperands a ha x hxa

/-- A well-formed expression of a type. -/
def HasType (e : Expr) (t : ValueType) : Prop := e.WellFormed ∧ e.type = t

theorem WellFormed.hasType {e : Expr} (h : e.WellFormed) : e.HasType e.type := ⟨h, rfl⟩

theorem hasType_literal (l : Literal) (t : ValueType) : (l.node t).HasType t := by
  refine ⟨wellFormed_iff.2 ⟨rfl, ?_⟩, l.type_node t⟩
  intro a ha
  cases ha

theorem type_ofNode_of_wellTyped {i : Nat} {n : Node Expr} {t : ValueType}
    (h : (n.map type).WellTyped t) : (ofNode i n).type = t := by
  cases n with
  | leaf l => exact h.symm
  | unary op a =>
    cases op with
    | toFloat | random _ => exact h.2.symm
    | channel i => exact h.2.2.symm
    | _ => exact h.symm
  | binary op a b => exact h.1
  | _ => exact h.1.symm

theorem hasType_ofNode {i : Nat} {n : Node Expr} {t : ValueType}
    (h : (n.map type).WellTyped t) (hoperands : ∀ a ∈ n.operands, a.WellFormed) :
    (ofNode i n).HasType t := by
  have htype := type_ofNode_of_wellTyped h (i := i)
  refine ⟨wellFormed_iff.2 ⟨?_, ?_⟩, htype⟩
  · rw [node_ofNode, htype]
    exact h
  · rw [operands, node_ofNode]
    exact hoperands

end Expr

theorem ValueType.eq_float_of_components {t : ValueType} (hfloat : t.isFloat = true)
    (h : t.components = 1) : t = .float := by
  cases t with
  | float => rfl
  | float2 | float3 | float4 => exact absurd h (by decide)
  | int | uint => cases hfloat

namespace Build

open ShaderAlgebra.Expr

variable {fails : Failure → Prop} {a b e : Expr} {s t : ValueType}

theorem node_meets {n : Node Expr} (h : (n.map type).WellTyped t)
    (hoperands : ∀ a ∈ n.operands, a.WellFormed) : Meets fails (node n) (HasType · t) :=
  Meets.node fun _ => hasType_ofNode h hoperands

theorem constant_meets (c : Constant) : Meets fails (constant c) (HasType · c.type) :=
  node_meets rfl (by simp [Node.operands])

theorem splat_meets (x : Single) (t : ValueType) : Meets fails (splat x t) (HasType · t) := by
  have h : Meets fails (splat x t) (HasType · (Constant.splat x t).type) := constant_meets _
  rwa [Constant.type_splat] at h

theorem systemSeed_meets : Meets fails systemSeed (HasType · .uint) :=
  node_meets rfl (by simp [Node.operands])

theorem unary_meets {op : UnaryOp} (ha : HasType a s) (hop : op.WellTyped t s) :
    Meets fails (unary op a) (HasType · t) := by
  obtain ⟨ha, rfl⟩ := ha
  exact node_meets hop (by simpa [Node.operands] using ha)

theorem elementwise_meets {op : UnaryOp} (hop : op.isElementwise = true) (ha : HasType a t) :
    Meets fails (unary op a) (HasType · t) := by
  refine unary_meets ha ?_
  cases op <;> first | rfl | cases hop

theorem binary_meets {op : BinaryOp} (hop : op.isBitwise = true → t = .uint)
    (ha : HasType a t) (hb : HasType b t) : Meets fails (binary op a b) (HasType · t) := by
  unfold binary
  rw [if_pos (by simp [ha.2, hb.2])]
  exact node_meets ⟨ha.2, hb.2, hop⟩ (by simp [Node.operands, ha.1, hb.1])

theorem arithmetic_meets {op : BinaryOp} (hop : op.isBitwise = false) (ha : HasType a t)
    (hb : HasType b t) : Meets fails (binary op a b) (HasType · t) :=
  binary_meets (by simp [hop]) ha hb

theorem shift_meets {op : BinaryOp} (ha : HasType a .uint) (bits : UInt32) :
    Meets fails (shift op a bits) (HasType · .uint) := by
  unfold shift
  apply (constant_meets (.uint bits)).bind
  intro amount hamount
  exact binary_meets (fun _ => rfl) ha hamount

theorem channel_meets {i : Nat} (he : HasType e t) (hfloat : t.isFloat = true)
    (hwide : t.components ≠ 1) (hi : i < t.components) :
    Meets fails (channel e i) (HasType · .float) := by
  have hie : i < e.type.components := he.2 ▸ hi
  unfold channel
  rw [dif_pos hie]
  refine unary_meets he ⟨?_, hi, rfl⟩
  cases t <;> simp_all [ValueType.isFloat, ValueType.components]

theorem combine_meets {components : List Expr} (h : ∀ c ∈ components, HasType c .float)
    (hfloat : t.isFloat = true) (hwide : t.components ≠ 1)
    (hlength : components.length = t.components) :
    Meets fails (combine components) (HasType · t) := by
  have hnone : components.find? (·.type != .float) = none := by
    rw [List.find?_eq_none]
    intro c hc
    simp [(h c hc).2]
  have htype : ValueType.floatOfComponents? components.length = some t :=
    ValueType.floatOfComponents?_eq_some_iff.2 ⟨hfloat, hlength.symm⟩
  unfold combine
  rw [hnone, htype]
  have hoperands : ∀ c ∈ components, c.WellFormed := fun c hc => (h c hc).1
  have htypes : ∀ c ∈ components, c.type = .float := fun c hc => (h c hc).2
  cases t with
  | float | int | uint => exact absurd rfl hwide
  | float2 =>
    match components, hlength, htypes, hoperands with
    | [x, y], _, htypes, hoperands => exact node_meets ⟨rfl, by simp [htypes]⟩ hoperands
  | float3 =>
    match components, hlength, htypes, hoperands with
    | [x, y, z], _, htypes, hoperands => exact node_meets ⟨rfl, by simp [htypes]⟩ hoperands
  | float4 =>
    match components, hlength, htypes, hoperands with
    | [x, y, z, w], _, htypes, hoperands => exact node_meets ⟨rfl, by simp [htypes]⟩ hoperands

end Build

end ShaderAlgebra
