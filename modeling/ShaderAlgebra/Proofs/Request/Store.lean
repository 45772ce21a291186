import ShaderAlgebra.Request.Basic
import ShaderAlgebra.Proofs.Build.Store
import ShaderAlgebra.Proofs.Operator.Simulation
import ShaderAlgebra.Proofs.Operator.WellFormed

/-!
# What a request makes

The outputs of a request make up a graph, and the only named values in it are
those that its operands describe: the operators make none. There are as many
outputs as the operator gives, or else the request is refused.
-/

namespace ShaderAlgebra.Request

open Build Correspondence ShaderAlgebra.Expr

variable {r : Request} {t : ValueType} {name : String} {S : Store} {next : Nat}
  {outs : List Expr} {fails : Failure → Prop}

/-- The named values that the operands of a request describe. -/
def Describes (r : Request) (t : ValueType) (name : String) : Prop :=
  ∃ (position : Nat) (o : Operand),
    r.inputs[position]? = some o ∧ o.leaf position = .ok (.input t name)

/-- A described value has a name of its own, or the name of its position. -/
theorem Describes.name_cases (h : r.Describes t name) :
    .input t (some name) ∈ r.inputs ∨ ∃ position, name = defaultName position := by
  obtain ⟨position, o, ho, hleaf⟩ := h
  cases o with
  | input s given =>
    cases given with
    | some given =>
      cases hleaf
      exact .inl (List.mem_of_getElem? ho)
    | none =>
      cases hleaf
      exact .inr ⟨position, rfl⟩
  | floats xs =>
    cases hxs : Constant.ofFloats? xs <;> simp [Operand.leaf, hxs] at hleaf
  | uint n => cases hleaf
  | int n => cases hleaf

/-- Two runs that make the operands of a request correspond, if they do at each operand. -/
theorem operands_simulates {W : Type} [Preorder W] {C : Correspondence W} {w : W} (r : Request)
    (h : ∀ (w' : W) (position : Nat) (o : Operand) (l : Leaf),
      r.inputs[position]? = some o → o.leaf position = .ok l →
      C.Simulates w' (Build.node (.leaf l)) (Build.node (.leaf l)) C.Related) :
    C.Simulates w r.operands r.operands fun w => List.Forall₂ (C.Related w) := by
  have hplaces : List.Forall₂ (fun a b => a = b ∧ r.inputs[a.2]? = some a.1)
      r.inputs.zipIdx r.inputs.zipIdx := by
    rw [List.forall₂_same]
    rintro ⟨o, position⟩ ho
    exact ⟨rfl, List.mem_zipIdx_iff_getElem?.1 ho⟩
  apply Simulates.mapM hplaces
  rintro w' _ ⟨o, position⟩ _ ⟨rfl, ho⟩
  change C.Simulates w' (o.build position) (o.build position) C.Related
  unfold Operand.build
  cases hleaf : o.leaf position with
  | error e => exact Simulates.refuse
  | ok l => exact h w' position o l ho hleaf

/-- Two runs of a request correspond, if they do where its operands are made. -/
theorem build_simulates {W : Type} [Preorder W] {C : Correspondence W} {w : W} (r : Request)
    (h : ∀ (w' : W) (position : Nat) (o : Operand) (l : Leaf),
      r.inputs[position]? = some o → o.leaf position = .ok l →
      C.Simulates w' (Build.node (.leaf l)) (Build.node (.leaf l)) C.Related) :
    C.Simulates w r.build r.build fun w => List.Forall₂ (C.Related w) :=
  (r.operands_simulates h).bind fun _ _ _ _ hes => Operator.apply_simulates r.operator hes

theorem build_within (r : Request) :
    (within r.Describes).Simulates S r.build r.build
      fun S => List.Forall₂ ((within r.Describes).Related S) := by
  refine r.build_simulates fun T position o l ho hleaf => leaf_within ?_
  rintro t name rfl
  exact ⟨position, o, ho, hleaf⟩

/-- The outputs are a graph whose named values the operands describe. -/
theorem build_sound (hnext : Literal.identities ≤ next)
    (hrun : (r.build.runFrom next).1 = .ok outs) :
    Coherent outs ∧ ∀ i t name, .leaf i (.input t name) ∈ graph outs → r.Describes t name := by
  obtain ⟨T, -, hsound, hholds⟩ :=
    exists_store r.build_within (Store.sound_literals hnext) hrun
  refine ⟨hsound.coherent_list hholds, fun i t name hx => ?_⟩
  obtain ⟨e, he, hxe⟩ := List.mem_flatMap.1 hx
  exact hsound.permitted e (hholds e he) i t name hxe

theorem operands_meets (r : Request) (hrefused : ∀ e, fails (.refused e)) :
    Meets fails r.operands fun es => ∀ e ∈ es, e.WellFormed := by
  refine (Meets.mapM fun o _ => ?_).imp fun es hes => hes.2
  change Meets fails (o.1.build o.2) WellFormed
  unfold Operand.build
  split
  next l _ =>
    have hleaf : Meets fails (node (.leaf l)) (HasType · l.type) :=
      node_meets rfl (by simp [Node.operands])
    exact hleaf.imp fun e he => he.1
  · exact Meets.refuse (hrefused _)

/-- A request gives as many well-formed outputs as its operator has, or it is refused. -/
theorem build_meets (r : Request) (hrefused : ∀ e, fails (.refused e)) :
    Meets fails r.build r.operator.Outputs :=
  (r.operands_meets hrefused).bind fun _ hes => Operator.apply_meets hrefused hes

end ShaderAlgebra.Request
