import ShaderAlgebra.Proofs.Expr.Tree
import ShaderAlgebra.Proofs.Operator.Simulation

/-!
# Operators are parametric in their operands

An operator sees nothing of its operands but their types. So its results on any
operands are known from its results on named values of the same types: the
trees of the operands take the places of the names.
-/

namespace ShaderAlgebra

namespace Tree

/-- The tree with other trees in place of leaves: each pair is a leaf and what replaces it. -/
def replace (pairs : List (Tree × Tree)) : Tree → Tree
  | leaf t l => (pairs.lookup (leaf t l)).getD (leaf t l)
  | unary t op a => unary t op (a.replace pairs)
  | binary t op a b => binary t op (a.replace pairs) (b.replace pairs)
  | vec2 t x y => vec2 t (x.replace pairs) (y.replace pairs)
  | vec3 t x y z => vec3 t (x.replace pairs) (y.replace pairs) (z.replace pairs)
  | vec4 t x y z w =>
    vec4 t (x.replace pairs) (y.replace pairs) (z.replace pairs) (w.replace pairs)

theorem replace_ofNode {pairs : List (Tree × Tree)} {t : ValueType} {n : Node Tree}
    (h : ∀ l, n = .leaf l → pairs.lookup (.leaf t l) = none) :
    (ofNode t n).replace pairs = ofNode t (n.map (replace pairs)) := by
  cases n with
  | leaf l =>
    change (pairs.lookup (.leaf t l)).getD (.leaf t l) = .leaf t l
    rw [h l rfl, Option.getD_none]
  | unary | binary | vec2 | vec3 | vec4 => rfl

def IsName (t : Tree) : Prop := ∃ s name, t = .leaf s (.input s name)

theorem lookup_eq_none {pairs : List (Tree × Tree)} {t : ValueType} {l : Leaf}
    (hkeys : ∀ p ∈ pairs, p.1.IsName) (hl : ∀ s name, l ≠ .input s name) :
    pairs.lookup (.leaf t l) = none := by
  rw [List.lookup_eq_none_iff]
  intro p hp
  obtain ⟨s, name, hname⟩ := hkeys p hp
  have hne : (.leaf t l : Tree) ≠ p.1 := by
    rw [hname]
    intro heq
    injection heq with _ hinput
    exact hl s name hinput
  simpa using hne

theorem lookup_of_mem {pairs : List (Tree × Tree)} {p : Tree × Tree}
    (hkeys : (pairs.map (·.1)).Nodup) (hp : p ∈ pairs) : pairs.lookup p.1 = some p.2 := by
  induction pairs with
  | nil => cases hp
  | cons q pairs ih =>
    rw [List.map_cons, List.nodup_cons] at hkeys
    rcases List.mem_cons.1 hp with rfl | hp
    · exact List.lookup_cons_self
    · have hne : p.1 ≠ q.1 := fun heq => hkeys.1 (heq ▸ List.mem_map_of_mem hp)
      rw [List.lookup_cons, beq_eq_false_iff_ne.2 hne]
      exact ih hkeys.2 hp

end Tree

namespace Operator

open ShaderAlgebra.Expr Build Correspondence

/-- A run on operands, beside a run on leaves that the operands replace. -/
def replacing (pairs : List (Tree × Tree)) (hkeys : ∀ p ∈ pairs, p.1.IsName) :
    Correspondence Unit where
  Reached _ _ _ := True
  Related _ x y := x.type = y.type ∧ y.tree.replace pairs = x.tree
  mono _ h := h
  type_eq h := h.1
  literal _ l t := by
    refine ⟨rfl, ?_⟩
    rw [tree_eq]
    refine Tree.replace_ofNode fun k hk => Tree.lookup_eq_none hkeys ?_
    rintro s name rfl
    cases hk
  node := by
    rintro _ i j m n - hnamed hrel
    refine ⟨(), le_refl _, trivial, ?_⟩
    have htype : (ofNode i m).type = (ofNode j n).type := hrel.type_eq (fun _ _ h => h.1) i j
    have hleaf : ∀ l, n.map tree = .leaf l → pairs.lookup (.leaf (ofNode j n).type l) = none := by
      intro l hl
      refine Tree.lookup_eq_none hkeys ?_
      rintro s name rfl
      cases hrel with
      | leaf k =>
        cases hl
        cases hnamed
      | unary | binary | vec2 | vec3 | vec4 => cases hl
    have hlayer : (n.map tree).map (Tree.replace pairs) = m.map tree := by
      cases hrel with
      | leaf => rfl
      | unary op h => simp only [Node.map, h.2]
      | binary op h₁ h₂ => simp only [Node.map, h₁.2, h₂.2]
      | vec2 h₁ h₂ => simp only [Node.map, h₁.2, h₂.2]
      | vec3 h₁ h₂ h₃ => simp only [Node.map, h₁.2, h₂.2, h₃.2]
      | vec4 h₁ h₂ h₃ h₄ => simp only [Node.map, h₁.2, h₂.2, h₃.2, h₄.2]
    refine ⟨htype, ?_⟩
    rw [tree_eq, tree_eq, node_ofNode, node_ofNode, Tree.replace_ofNode hleaf, hlayer, htype]

/-- Named values of the types of given operands, all different. -/
structure StandsFor (ys xs : List Expr) : Prop where
  named : List.Forall₂ (fun y x => ∃ i name, y = .leaf i (.input x.type name)) ys xs
  distinct : (ys.map tree).Nodup

/-- What replaces the named values by the operands that they stand for. -/
def replacement (ys xs : List Expr) : List (Tree × Tree) := (ys.map tree).zip (xs.map tree)

variable {op : Operator} {xs ys : List Expr}

theorem StandsFor.isName (h : StandsFor ys xs) : ∀ p ∈ replacement ys xs, p.1.IsName := by
  rintro p hp
  have hkey : p.1 ∈ ys.map tree := (List.of_mem_zip hp).1
  obtain ⟨y, hy, hyp⟩ := List.mem_map.1 hkey
  obtain ⟨x, -, i, name, rfl⟩ := exists_of_mem_forall₂ h.named.flip hy
  exact ⟨x.type, name, hyp.symm⟩

/-- Each named value has the type of its operand and is replaced by the operand's tree. -/
theorem StandsFor.replaced (h : StandsFor ys xs) :
    List.Forall₂ (fun x y => x.type = y.type ∧ y.tree.replace (replacement ys xs) = x.tree)
      xs ys := by
  have hlength : ys.length = xs.length := h.named.length_eq
  have hkeys : ((replacement ys xs).map (·.1)).Nodup := by
    rw [replacement, List.map_fst_zip (by simp [hlength])]
    exact h.distinct
  refine (List.forall₂_iff_zip.2 ⟨hlength, ?_⟩).flip
  intro y x hmem
  obtain ⟨i, name, rfl⟩ := (List.forall₂_iff_zip.1 h.named).2 hmem
  have hpair : (Tree.leaf x.type (.input x.type name), x.tree) ∈ replacement ys xs := by
    rw [replacement, List.zip_map]
    exact List.mem_map_of_mem hmem
  refine ⟨rfl, ?_⟩
  change ((replacement ys xs).lookup (.leaf x.type (.input x.type name))).getD _ = x.tree
  rw [Tree.lookup_of_mem hkeys hpair, Option.getD_some]

/-- What an operator makes of its operands is known from what it makes of named values of
their types: it fails alike, or the operands' trees take the places of the names. -/
theorem apply_parametric (op : Operator) (h : StandsFor ys xs) (next next' : Nat) :
    Agree
      (List.Forall₂ fun out out' => out.type = out'.type ∧
        out'.tree.replace (replacement ys xs) = out.tree)
      ((op.apply xs).runFrom next).1 ((op.apply ys).runFrom next').1 := by
  have hrelated :
      List.Forall₂ ((replacing (replacement ys xs) h.isName).Related ()) xs ys := h.replaced
  obtain ⟨_, -, -, hagree⟩ := apply_simulates op hrelated next next' trivial
  exact hagree

/-- The square of a vector, a single node used twice, and a constant. -/
def squareTwice : List Expr :=
  let square : Expr := .binary 1 .mul (.leaf 0 (.input .float3 "v"))
    (.leaf 0 (.input .float3 "v"))
  [square, square, .leaf 2 (.constant (.float 0))]

def namedValues : List Expr :=
  [.leaf 0 (.input .float3 "x"), .leaf 1 (.input .float3 "y"), .leaf 2 (.input .float "t")]

theorem apply_lerp_squareTwice :
    ∃ out out', ((lerp.apply squareTwice).runFrom 3).1 = .ok [out] ∧
      ((lerp.apply namedValues).runFrom 3).1 = .ok [out'] ∧ out.type = out'.type ∧
      out'.tree.replace (replacement namedValues squareTwice) = out.tree := by
  have hstands : StandsFor namedValues squareTwice :=
    ⟨.cons ⟨_, _, rfl⟩ (.cons ⟨_, _, rfl⟩ (.cons ⟨_, _, rfl⟩ .nil)), by decide⟩
  have hagree := apply_parametric lerp hstands 3 3
  obtain ⟨out, hout⟩ : ∃ out, ((lerp.apply squareTwice).runFrom 3).1 = .ok [out] := ⟨_, rfl⟩
  obtain ⟨out', hout'⟩ : ∃ out', ((lerp.apply namedValues).runFrom 3).1 = .ok [out'] := ⟨_, rfl⟩
  rw [hout, hout'] at hagree
  cases hagree with
  | ok houts =>
    obtain _ | ⟨⟨htype, htree⟩, -⟩ := houts
    exact ⟨out, out', hout, hout', htype, htree⟩

end Operator

end ShaderAlgebra
