import ShaderAlgebra.Proofs.Expr.WellFormed
import ShaderAlgebra.Proofs.Text.Reading

/-!
# Types from skeletons

A text does not show types. They are found again from the type of the whole and from
the types of names: only the operand of a channel is of a type that its place leaves
open, and then it is a vector.
-/

namespace ShaderAlgebra

section Legible

variable {types : String → ValueType} {s t s' t' : ValueType}

/-- What the text of a layer of the type `type` relies on, given the types of names: its operands
have the types that its kind asks for, the amount of a shift being unsigned. -/
def Node.Legible (types : String → ValueType) (type : ValueType) : Node ValueType → Prop
  | leaf l => type = l.type ∧ l.Legible types
  | binary op a b => a = type ∧ b = if op.isShift then .uint else type
  | n => n.WellTyped type

instance (types : String → ValueType) (type : ValueType) :
    (n : Node ValueType) → Decidable (n.Legible types type)
  | .leaf l => inferInstanceAs (Decidable (type = l.type ∧ l.Legible types))
  | .unary op a => inferInstanceAs (Decidable (op.WellTyped type a))
  | .binary op a b => inferInstanceAs (Decidable (a = type ∧ b = if op.isShift then .uint else type))
  | .vec2 x y => inferInstanceAs (Decidable ((Node.vec2 x y).WellTyped type))
  | .vec3 x y z => inferInstanceAs (Decidable ((Node.vec3 x y z).WellTyped type))
  | .vec4 x y z w => inferInstanceAs (Decidable ((Node.vec4 x y z w).WellTyped type))

/-- Types that the place of an operand may leave open: equal ones, or two of vectors. -/
def ValueType.Near (s t : ValueType) : Prop := s = t ∨ 1 < s.components ∧ 1 < t.components

theorem UnaryOp.near_operand {op : UnaryOp} (h : op.WellTyped t s) (h' : op.WellTyped t' s')
    (hnear : t.Near t') : s.Near s' := by
  cases op with
  | channel i =>
    have hwide {s : ValueType} (h : s = .float2 ∨ s = .float3 ∨ s = .float4) :
        1 < s.components := by
      rcases h with rfl | rfl | rfl <;> decide
    exact .inr ⟨hwide h.1, hwide h'.1⟩
  | toFloat | random => exact .inl (h.1.trans h'.1.symm)
  | _ =>
    obtain rfl : t = s := h
    obtain rfl : t' = s' := h'
    exact hnear

/-- Layers of one kind and of near types have operands of near types. -/
theorem Node.Legible.near {m n : Node ValueType} (hm : m.Legible types t)
    (hn : n.Legible types t') (hhead : m.head = n.head) (hnear : t.Near t') :
    List.Forall₂ ValueType.Near m.operands n.operands := by
  have hfloat {x y : ValueType} (hx : x = .float) (hy : y = .float) : x.Near y :=
    .inl (hx.trans hy.symm)
  cases m with
  | leaf l =>
    cases n with
    | leaf => exact .nil
    | _ => cases hhead
  | unary op a =>
    cases n with
    | unary op' a' =>
      cases hhead
      exact .cons (UnaryOp.near_operand hm hn hnear) .nil
    | _ => cases hhead
  | binary op a b =>
    cases n with
    | binary op' a' b' =>
      cases hhead
      obtain ⟨rfl, rfl⟩ := hm
      obtain ⟨rfl, rfl⟩ := hn
      refine .cons hnear (.cons ?_ .nil)
      split
      · exact .inl rfl
      · exact hnear
    | _ => cases hhead
  | vec2 x y =>
    cases n with
    | vec2 => exact .cons (hfloat hm.2.1 hn.2.1) (.cons (hfloat hm.2.2 hn.2.2) .nil)
    | _ => cases hhead
  | vec3 x y z =>
    cases n with
    | vec3 =>
      exact .cons (hfloat hm.2.1 hn.2.1)
        (.cons (hfloat hm.2.2.1 hn.2.2.1) (.cons (hfloat hm.2.2.2 hn.2.2.2) .nil))
    | _ => cases hhead
  | vec4 x y z w =>
    cases n with
    | vec4 =>
      exact .cons (hfloat hm.2.1 hn.2.1) (.cons (hfloat hm.2.2.1 hn.2.2.1)
        (.cons (hfloat hm.2.2.2.1 hn.2.2.2.1) (.cons (hfloat hm.2.2.2.2 hn.2.2.2.2) .nil)))
    | _ => cases hhead

/-- A layer is of one type only. -/
theorem Node.Legible.type_eq {n : Node ValueType} (h : n.Legible types t)
    (h' : n.Legible types t') : t = t' := by
  cases n with
  | leaf => exact h.1.trans h'.1.symm
  | unary op a =>
    cases op with
    | toFloat | random => exact h.2.trans h'.2.symm
    | channel => exact h.2.2.trans h'.2.2.symm
    | _ => exact Eq.trans h h'.symm
  | binary => exact h.1.symm.trans h'.1
  | _ => exact h.1.trans h'.1.symm

end Legible

namespace Node

variable {α β : Type}

theorem eq_leaf_of_map_eq {g : α → β} {n : Node α} {l : Leaf} (h : n.map g = leaf l) :
    n = leaf l := by
  cases n <;> cases h
  rfl

/-- Layers that look alike are equal, unless they are leaves. -/
theorem eq_or_leaves_of_bare_eq {m n : Node α} (h : m.bare = n.bare) :
    (∃ l l', m = leaf l ∧ n = leaf l' ∧ l.text = l'.text) ∨ m = n := by
  cases m with
  | leaf l =>
    cases n with
    | leaf l' =>
      have hinput := leaf.inj h
      exact .inl ⟨l, l', rfl, rfl, (Leaf.input.inj hinput).2⟩
    | _ => cases h
  | _ =>
    cases n with
    | leaf => cases h
    | _ => exact .inr h

end Node

namespace Tree

variable {types : String → ValueType} {t t' : Tree} {type : ValueType}

/-- What the text of a place relies on. -/
def Legible (types : String → ValueType) (t : Tree) : Prop :=
  (t.node.map Tree.type).Legible types t.type

/-- Besides, the leaves are words. -/
def Plain (types : String → ValueType) (t : Tree) : Prop :=
  t.Legible types ∧ ∀ l, t.node = .leaf l → l.IsWord

theorem Everywhere.readable (h : t.Everywhere (Plain types)) : t.Everywhere Readable := by
  refine h.imp fun t ht hoperands => ?_
  cases t with
  | leaf type l => exact ht.1.2.solid_text (ht.2 l rfl)
  | unary type op a =>
    cases op with
    | channel i =>
      cases hchannel : a.isChannel with
      | false => exact hchannel
      | true =>
        obtain ⟨type', j, b, rfl⟩ := exists_channel hchannel
        have ha := (hoperands _ (List.mem_singleton.2 rfl)).1
        have htype : type' = .float := ha.2.2
        have hwide := ht.1.1
        change type' = .float2 ∨ type' = .float3 ∨ type' = .float4 at hwide
        subst htype
        simp at hwide
    | _ => trivial
  | _ => trivial

theorem Plain.leaf_eq {l l' : Leaf} (h : t.Plain types) (h' : t'.Plain types)
    (hl : t.node = .leaf l) (hl' : t'.node = .leaf l') (hnear : t.type.Near t'.type)
    (htext : l.text = l'.text) : l = l' := by
  have hinput {s : ValueType} {l : Leaf} (hs : s = l.type) (hword : l.IsWord)
      (hwide : 1 < s.components) : ∃ t name, l = .input t name := by
    subst hs
    cases l with
    | constant c => exact absurd hword hwide.ne'
    | input t name => exact ⟨t, name, rfl⟩
    | systemSeed => exact absurd hwide (by decide)
  obtain ⟨hlegible, hword⟩ := h
  obtain ⟨hlegible', hword'⟩ := h'
  rw [Legible, hl] at hlegible
  rw [Legible, hl'] at hlegible'
  rcases hnear with htype | ⟨hwide, hwide'⟩
  · have htype : l.type = l'.type := hlegible.1.symm.trans (htype.trans hlegible'.1)
    exact hlegible.2.eq_of_text_eq hlegible'.2 (hword l hl) (hword' l' hl') htype htext
  · -- A vector that is one word is an input, and names have types.
    obtain ⟨s, name, rfl⟩ := hinput hlegible.1 (hword l hl) hwide
    obtain ⟨s', name', rfl⟩ := hinput hlegible'.1 (hword' l' hl') hwide'
    obtain rfl : name = name' := htext
    obtain rfl : s = s' := hlegible.2.2.trans hlegible'.2.2.symm
    rfl

theorem eq_of_map_skeleton_eq {as bs : List Tree}
    (hnear : List.Forall₂ ValueType.Near (as.map Tree.type) (bs.map Tree.type))
    (hskeleton : as.map skeleton = bs.map skeleton)
    (ih : ∀ a ∈ as, ∀ b ∈ bs, a.type.Near b.type → a.skeleton = b.skeleton → a = b) :
    as = bs := by
  induction as generalizing bs with
  | nil => exact (List.map_eq_nil_iff.1 hskeleton.symm).symm
  | cons a as ih' =>
    cases bs with
    | nil => cases hskeleton
    | cons b bs =>
      obtain ⟨hab, hrest⟩ := List.cons.inj hskeleton
      cases hnear with
      | cons hnear hnears =>
        rw [ih a (by simp) b (by simp) hnear hab, ih' hnears hrest fun a ha b hb =>
          ih a (List.mem_cons_of_mem _ ha) b (List.mem_cons_of_mem _ hb)]

/-- Trees with one skeleton are equal if their types are near. -/
theorem Everywhere.eq_of_skeleton_eq (h : t.Everywhere (Plain types))
    (h' : t'.Everywhere (Plain types)) (hnear : t.type.Near t'.type)
    (hskeleton : t.skeleton = t'.skeleton) : t = t' := by
  induction h generalizing t' with
  | @intro t htop hoperands ih =>
    have htop' := h'.top
    have hbare : (t.node.map skeleton).bare = (t'.node.map skeleton).bare := by
      rw [skeleton_eq, skeleton_eq] at hskeleton
      simpa using congrArg node hskeleton
    have hnode : t.node = t'.node := by
      rcases Node.eq_or_leaves_of_bare_eq hbare with ⟨l, l', hl, hl', htext⟩ | hlayer
      · have hl := Node.eq_leaf_of_map_eq hl
        have hl' := Node.eq_leaf_of_map_eq hl'
        rw [hl, hl', htop.leaf_eq htop' hl hl' hnear htext]
      · have hhead : t.node.head = t'.node.head := by
          simpa only [Node.head_map] using congrArg Node.head hlayer
        have hoperand : t.operands.map skeleton = t'.operands.map skeleton := by
          simpa only [Node.operands_map, operands] using congrArg Node.operands hlayer
        have hnears := htop.1.near htop'.1 (by simpa only [Node.head_map] using hhead) hnear
        rw [Node.operands_map, Node.operands_map] at hnears
        exact Node.eq_of_head_eq hhead (eq_of_map_skeleton_eq hnears hoperand
          fun a ha b hb => ih a ha (h'.of_mem b hb))
    have htype : t.type = t'.type := by
      have hlegible : (t'.node.map Tree.type).Legible types t.type := hnode ▸ htop.1
      exact hlegible.type_eq htop'.1
    rw [← ofNode_node t, ← ofNode_node t', hnode, htype]

end Tree

end ShaderAlgebra
