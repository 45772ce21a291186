import ShaderAlgebra.Proofs.Fingerprint.Memo
import ShaderAlgebra.Proofs.Request.RoundTrip
import ShaderAlgebra.Proofs.Request.Store

/-!
# Requests are read back exactly

A request of finite floats is read back as it was, bit by bit. In any session it
builds the same trees, whatever identities their nodes have, and so outputs with
the same fingerprints.
-/

namespace ShaderAlgebra

open ShaderAlgebra.Expr

theorem Node.Rel.map_eq {α β : Type} {R : α → α → Prop} {m n : Node α} (h : m.Rel R n)
    {f : α → β} (hf : ∀ a b, R a b → f a = f b) : m.map f = n.map f := by
  cases h with
  | leaf => rfl
  | unary op h => rw [Node.map, Node.map, hf _ _ h]
  | binary op h₁ h₂ | vec2 h₁ h₂ => simp only [Node.map, hf _ _ h₁, hf _ _ h₂]
  | vec3 h₁ h₂ h₃ => simp only [Node.map, hf _ _ h₁, hf _ _ h₂, hf _ _ h₃]
  | vec4 h₁ h₂ h₃ h₄ => simp only [Node.map, hf _ _ h₁, hf _ _ h₂, hf _ _ h₃, hf _ _ h₄]

theorem tree_ofNode_eq {i j : Nat} {m n : Node Expr} (h : m.Rel (fun a b => a.tree = b.tree) n) :
    (ofNode i m).tree = (ofNode j n).tree := by
  have htype : (ofNode i m).type = (ofNode j n).type := by
    refine h.type_eq (fun a b hab => ?_) i j
    rw [← type_tree, hab, type_tree]
  rw [tree_eq, tree_eq, node_ofNode, node_ofNode, htype, h.map_eq fun _ _ hab => hab]

namespace Request

open Build Correspondence

/-- Two runs that make the same trees, with any identities. -/
def sameTrees : Correspondence Unit where
  Reached _ _ _ := True
  Related _ a b := a.tree = b.tree
  mono _ h := h
  type_eq h := by rw [← type_tree, h, type_tree]
  literal _ _ _ := rfl
  node _ _ h := ⟨(), le_refl _, trivial, tree_ofNode_eq h⟩

theorem build_sameTrees (r : Request) :
    sameTrees.Simulates () r.build r.build fun w => List.Forall₂ (sameTrees.Related w) :=
  r.build_simulates fun _ _ _ l _ _ _ _ _ =>
    ⟨(), le_refl _, trivial, .ok (tree_ofNode_eq (.leaf l))⟩

/-- A request makes outputs with the same fingerprints in any two sessions. -/
theorem build_fingerprints (r : Request) {next next' : Nat} (hnext : Literal.identities ≤ next)
    (hnext' : Literal.identities ≤ next') :
    Agree (List.Forall₂ fun e e' => e.tree = e'.tree ∧ e.fingerprint = e'.fingerprint)
      (r.build.runFrom next).1 (r.build.runFrom next').1 := by
  obtain ⟨_, -, -, hagree⟩ := r.build_sameTrees next next' trivial
  refine hagree.imp fun outs outs' hrun hrun' htrees => ?_
  obtain ⟨hcoherent, -⟩ := build_sound hnext hrun
  obtain ⟨hcoherent', -⟩ := build_sound hnext' hrun'
  obtain ⟨hlength, hzip⟩ := List.forall₂_iff_zip.1 htrees
  refine List.forall₂_iff_zip.2 ⟨hlength, fun {e e'} hmem => ?_⟩
  have htree : e.tree = e'.tree := hzip hmem
  obtain ⟨he, he'⟩ := List.of_mem_zip hmem
  refine ⟨htree, ?_⟩
  calc e.fingerprint
      = e.tree.digest (Xxh3.digest Fingerprint.seed) :=
        Fingerprint.digest_eq hcoherent (root_mem_graph he) _
    _ = e'.tree.digest (Xxh3.digest Fingerprint.seed) := by rw [htree]
    _ = e'.fingerprint := (Fingerprint.digest_eq hcoherent' (root_mem_graph he') _).symm

theorem all_zip_self {α : Type} {p : α × α → Bool} {as : List α} (h : ∀ a ∈ as, p (a, a)) :
    (as.zip as).all p := by
  rw [List.zip, List.zipWith_self, List.all_map]
  exact List.all_eq_true.2 h

theorem Operand.valueEq_self {o : Operand} (h : o.Finite) : o.valueEq o := by
  cases o with
  | floats xs =>
    have hself : ∀ x ∈ xs, x.numericEq x := fun x hx => by
      simp [Word.numericEq, (Word.not_special_of_isFinite (h x hx)).1]
    rw [valueEq, beq_self_eq_true, Bool.true_and]
    exact all_zip_self hself
  | input | uint | int => simp [valueEq]

theorem valueEq_self {r : Request} (h : ∀ o ∈ r.inputs, o.Finite) : r.valueEq r := by
  rw [valueEq, beq_self_eq_true, beq_self_eq_true, Bool.and_self, Bool.true_and]
  exact all_zip_self fun o ho => Operand.valueEq_self (h o ho)

/-- A request of finite floats is read back as the same request, with the same bits in every
float. The two are equal as values too, and in any two sessions they build outputs with the same
trees and the same fingerprints, or fail alike. -/
theorem parse_json_exact (r : Request) (h : ∀ o ∈ r.inputs, o.Finite) :
    ∃ r', parse (bytesOfString r.json) = .ok r' ∧ r' = r ∧ r.valueEq r' ∧
      ∀ next next', Literal.identities ≤ next → Literal.identities ≤ next' →
        Agree (List.Forall₂ fun e e' => e.tree = e'.tree ∧ e.fingerprint = e'.fingerprint)
          (r.build.runFrom next).1 (r'.build.runFrom next').1 :=
  ⟨r, parse_json_of_finite h, rfl, valueEq_self h,
    fun _ _ hnext hnext' => r.build_fingerprints hnext hnext'⟩

/-- A decimal very near to a halfway point, a zero with a sign, the least and the greatest
positive float, and a number in place. -/
def boundaryFloats : Request :=
  ⟨.lerp, [.floats [.ofBits 0x15AE43FD, .ofBits 0x80000000],
    .floats [.ofBits 0x00000001, .ofBits 0x7F7FFFFF], .floats [.ofBits 0x3F000000]]⟩

theorem parse_json_exact_boundaryFloats :
    (∀ o ∈ boundaryFloats.inputs, o.Finite) ∧
      ∃ r', parse (bytesOfString boundaryFloats.json) = .ok r' ∧ r' = boundaryFloats ∧
        boundaryFloats.valueEq r' ∧
        ∀ next next', Literal.identities ≤ next → Literal.identities ≤ next' →
          Agree (List.Forall₂ fun e e' => e.tree = e'.tree ∧ e.fingerprint = e'.fingerprint)
            (boundaryFloats.build.runFrom next).1 (r'.build.runFrom next').1 :=
  ⟨by decide, parse_json_exact boundaryFloats (by decide)⟩

end Request

end ShaderAlgebra
