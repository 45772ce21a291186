import ShaderAlgebra.Proofs.Build.Store
import ShaderAlgebra.Proofs.Operator.Refusal

/-!
# Divisions of a formula

Divisions are dear, and a formula that needs a quotient in every channel shares one
of scalars. Whether a formula divides depends on the type of its operand alone, so
it is enough to look at its run on a placeholder. A unit vector has one division
that its operand does not have, of scalars, however wide the vector is.
-/

namespace ShaderAlgebra

def Node.isDivision {α : Type} : Node α → Bool
  | .binary .div _ _ => true
  | _ => false

theorem Node.Rel.isDivision_eq {α β : Type} {R : α → β → Prop} {m : Node α} {n : Node β}
    (h : m.Rel R n) : m.isDivision = n.isDivision := by
  cases h with
  | binary op => cases op <;> rfl
  | leaf | unary | vec2 | vec3 | vec4 => rfl

theorem Node.Rel.isNamed_eq {α β : Type} {R : α → β → Prop} {m : Node α} {n : Node β}
    (h : m.Rel R n) : m.isNamed = n.isNamed := by
  cases h with
  | leaf l => cases l <;> rfl
  | unary | binary | vec2 | vec3 | vec4 => rfl

namespace Expr

/-- An expression that uses `v`, and divides nowhere but where `v` does. -/
structure Spares (v e : Expr) : Prop where
  uses : v ∈ e.nodes
  divisions : ∀ x ∈ e.nodes, x.node.isDivision = true → x ∈ v.nodes

/-- Exactly one division of an expression is not one of `v`, and it is of scalars. -/
def DividesOnce (v e : Expr) : Prop :=
  ∃ d : Expr, d.type = .float ∧
    ∀ x, (x ∈ e.nodes ∧ x ∉ v.nodes ∧ x.node.isDivision = true) ↔ x = d

variable {v x a b size factor d unit : Expr} {i j : Nat} {op : BinaryOp}

theorem mem_nodes_ofNode {n : Node Expr} :
    x ∈ (ofNode i n).nodes ↔ x = ofNode i n ∨ ∃ a ∈ n.operands, x ∈ a.nodes := by
  rw [mem_nodes, operands, node_ofNode]

theorem mem_nodes_binary :
    x ∈ (binary i op a b).nodes ↔ x = binary i op a b ∨ x ∈ a.nodes ∨ x ∈ b.nodes := by
  rw [mem_nodes, operands, node, Node.operands]
  simp only [List.exists_mem_cons_iff, List.not_mem_nil, false_and, exists_false, or_false]

/-- The quotient of `1` and what spares `v` is the only division that is added to `v`. -/
theorem dividesOnce_of_spares (hsize : Spares v size)
    (hd : d = binary i .div (Literal.one.node .float) size) (hfactor : Spares d factor)
    (hunit : unit = binary j .mul v factor) : DividesOnce v unit := by
  subst hd hunit
  refine ⟨binary i .div (Literal.one.node .float) size, rfl, fun x => ⟨?_, ?_⟩⟩
  · rintro ⟨hx, hadded, hdivision⟩
    rcases mem_nodes_binary.1 hx with rfl | hxv | hxf
    · cases hdivision
    · exact absurd hxv hadded
    rcases mem_nodes_binary.1 (hfactor.divisions x hxf hdivision) with rfl | hxone | hxs
    · rfl
    · rw [Store.mem_nodes_literal.1 hxone] at hdivision
      cases hdivision
    · exact absurd (hsize.divisions x hxs hdivision) hadded
  · rintro rfl
    refine ⟨mem_nodes_binary.2 (.inr (.inr hfactor.uses)), fun hmem => ?_, rfl⟩
    -- the quotient has `v` below it, and so it is not below `v`
    have hbelow := mem_nodes_trans hmem hsize.uses
    exact not_mem_nodes_operand (by simp [operands, node, Node.operands]) hbelow

end Expr

namespace Formula

open ShaderAlgebra.Expr Build Correspondence

variable {v e : Expr} {f : Expr → Build Expr} {t : ValueType}

/-- A run on an operand `v`, beside a run on a placeholder for it: the second run shows whether
the first one makes divisions, and whether it uses its operand. -/
def dividing (v : Expr) : Correspondence Unit where
  Reached _ _ _ := True
  Related _ e e' := e.type = e'.type ∧
    (∀ x ∈ e.nodes, x ∉ v.nodes → x.node.isDivision = true →
      ∃ y ∈ e'.nodes, y.node.isDivision = true) ∧
    ((∃ y ∈ e'.nodes, y.node.isNamed = true) → v ∈ e.nodes)
  mono _ h := h
  type_eq h := h.1
  literal _ l t := by
    refine ⟨rfl, fun x hx _ hdivision => ⟨x, hx, hdivision⟩, ?_⟩
    rintro ⟨y, hy, hnamed⟩
    rw [Store.mem_nodes_literal.1 hy] at hnamed
    cases hnamed
  node := by
    rintro _ i j m n - hnamed hrel
    refine ⟨(), le_refl _, trivial, hrel.type_eq (fun _ _ h => h.1) i j, ?_, ?_⟩
    · intro x hx hadded hdivision
      rcases mem_nodes_ofNode.1 hx with rfl | ⟨a, ha, hxa⟩
      · rw [node_ofNode, hrel.isDivision_eq] at hdivision
        exact ⟨_, self_mem_nodes _, by rwa [node_ofNode]⟩
      · obtain ⟨b, hb, hab⟩ := exists_of_mem_forall₂ hrel.operands.flip ha
        obtain ⟨y, hy, hdivision⟩ := hab.2.1 x hxa hadded hdivision
        exact ⟨y, mem_nodes_ofNode.2 (.inr ⟨b, hb, hy⟩), hdivision⟩
    · rintro ⟨y, hy, hyNamed⟩
      rcases mem_nodes_ofNode.1 hy with rfl | ⟨b, hb, hyb⟩
      · rw [node_ofNode, ← hrel.isNamed_eq, hnamed] at hyNamed
        cases hyNamed
      · obtain ⟨a, ha, hab⟩ := exists_of_mem_forall₂ hrel.operands hb
        exact mem_nodes_ofNode.2 (.inr ⟨a, ha, hab.2.2 ⟨y, hyb, hyNamed⟩⟩)

/-- A run that gives a named value under its result, and no division. -/
def sparesPlaceholder (step : Build Expr) : Bool :=
  match (step.runFrom 0).1 with
  | .ok e => e.nodes.any (·.node.isNamed) && e.nodes.all (!·.node.isDivision)
  | .error _ => true

/-- A formula that makes no division of a placeholder makes none of other operands. -/
theorem spares_of_placeholder
    (hsimulates : ∀ e', (dividing v).Related () v e' →
      (dividing v).Simulates () (f v) (f e') (dividing v).Related)
    (hspares : sparesPlaceholder (f (placeholder v.type)) = true) :
    Meets (fun _ => True) (f v) (Spares v) := by
  intro next
  have hself : (dividing v).Related () v (placeholder v.type) :=
    ⟨rfl, fun x hx hadded => absurd hx hadded, fun _ => self_mem_nodes v⟩
  obtain ⟨_, -, -, hagree⟩ := hsimulates _ hself next 0 trivial
  unfold sparesPlaceholder at hspares
  generalize ((f (placeholder v.type)).runFrom 0).1 = outcome at hagree hspares
  cases hrun : ((f v).runFrom next).1 with
  | error failure => trivial
  | ok e =>
    rw [hrun] at hagree
    cases hagree with
    | ok hrelated =>
      simp only [Bool.and_eq_true, List.any_eq_true, List.all_eq_true, Bool.not_eq_true']
        at hspares
      refine ⟨hrelated.2.2 hspares.1, fun x hx hdivision => ?_⟩
      by_contra hadded
      obtain ⟨y, hy, hyDivision⟩ := hrelated.2.1 x hx hadded hdivision
      rw [hspares.2 y hy] at hyDivision
      cases hyDivision

theorem length_spares (hv : v.type.isFloat = true) :
    Meets (fun _ => True) (length v) (Spares v) := by
  refine spares_of_placeholder (fun e' he' => length_simulates he') ?_
  cases htype : v.type with
  | float | float2 | float3 | float4 => decide
  | int | uint => simp [htype, ValueType.isFloat] at hv

theorem cast_scalar_spares (he : e.type = .float) (ht : t.isFloat = true) :
    Meets (fun _ => True) (cast e t 0) (Spares e) := by
  refine spares_of_placeholder (f := fun e => cast e t 0) (fun e' he' => cast_simulates he') ?_
  rw [he]
  cases t with
  | float | float2 | float3 | float4 => decide
  | int | uint => cases ht

theorem binary_made {op : BinaryOp} {a b : Expr} :
    Meets (fun _ => True) (Build.binary op a b) fun e => ∃ i, e = .binary i op a b := by
  unfold Build.binary
  split
  · exact Meets.node fun i => ⟨i, rfl⟩
  · exact fun _ => trivial

theorem normalize_dividesOnce (v : Expr) :
    Meets (fun _ => True) (normalize v) (DividesOnce v) := by
  unfold normalize
  cases hfloat : v.type.isFloat with
  | false => exact Meets.refuse trivial
  | true =>
    apply (length_spares hfloat).bind
    intro size hsize
    apply binary_made.bind
    rintro _ ⟨i, rfl⟩
    apply (cast_scalar_spares rfl hfloat).bind
    intro factor hfactor
    apply binary_made.imp
    rintro _ ⟨j, rfl⟩
    exact dividesOnce_of_spares hsize rfl hfactor rfl

end Formula

end ShaderAlgebra
