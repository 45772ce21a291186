import ShaderAlgebra.Proofs.Evaluation.Lane
import ShaderAlgebra.Proofs.Text.Types

/-!
# Shader text is unambiguous

Once types are found, a text leaves only one choice open: a vector of float literals
is written like a literal vector, which has the same lanes. So a text tells a tree up
to this choice, and it tells the values in every environment.
-/

namespace ShaderAlgebra

namespace Tree

variable {types : String → ValueType} {t : Tree} {type : ValueType}

def number (x : Single) : Tree := leaf .float (.constant (.float x))

/-- A literal vector as a vector of literals. -/
def expandNode : Node Tree → Node Tree
  | .leaf (.constant (.float2 x y)) => .vec2 (number x) (number y)
  | .leaf (.constant (.float3 x y z)) => .vec3 (number x) (number y) (number z)
  | .leaf (.constant (.float4 x y z w)) => .vec4 (number x) (number y) (number z) (number w)
  | n => n

/-- A vector of float literals as a literal vector. -/
def contractNode : Node Tree → Node Tree
  | .vec2 (leaf _ (.constant (.float x))) (leaf _ (.constant (.float y))) =>
    .leaf (.constant (.float2 x y))
  | .vec3 (leaf _ (.constant (.float x))) (leaf _ (.constant (.float y)))
      (leaf _ (.constant (.float z))) =>
    .leaf (.constant (.float3 x y z))
  | .vec4 (leaf _ (.constant (.float x))) (leaf _ (.constant (.float y)))
      (leaf _ (.constant (.float z))) (leaf _ (.constant (.float w))) =>
    .leaf (.constant (.float4 x y z w))
  | n => n

/-- Every literal vector as a vector of literals. -/
def expand (t : Tree) : Tree := t.fold fun type n => ofNode type (expandNode n)

/-- Every vector of float literals as a literal vector. -/
def contract (t : Tree) : Tree := t.fold fun type n => ofNode type (contractNode n)

theorem expand_eq (t : Tree) : t.expand = ofNode t.type (expandNode (t.node.map expand)) :=
  fold_eq _ t

theorem contract_eq (t : Tree) : t.contract = ofNode t.type (contractNode (t.node.map contract)) :=
  fold_eq _ t

@[simp] theorem type_expand (t : Tree) : t.expand.type = t.type := by
  rw [expand_eq, type_ofNode]

@[simp] theorem type_contract (t : Tree) : t.contract.type = t.type := by
  rw [contract_eq, type_ofNode]

/-- What is the same at literal vectors and at vectors of literals is the same at all trees. -/
theorem fold_expand {β : Type} (combine : ValueType → Node β → β)
    (hleaf : ∀ type l, (leaf type l).expand.fold combine = (leaf type l).fold combine) (t : Tree) :
    t.expand.fold combine = t.fold combine := by
  induction t with
  | leaf type l => exact hleaf type l
  | unary type op a ha =>
    change combine type (.unary op (a.expand.fold combine)) = _
    rw [ha]
    rfl
  | binary type op a b ha hb =>
    change combine type (.binary op (a.expand.fold combine) (b.expand.fold combine)) = _
    rw [ha, hb]
    rfl
  | vec2 type x y hx hy =>
    change combine type (.vec2 (x.expand.fold combine) (y.expand.fold combine)) = _
    rw [hx, hy]
    rfl
  | vec3 type x y z hx hy hz =>
    change combine type (.vec3 (x.expand.fold combine) (y.expand.fold combine)
      (z.expand.fold combine)) = _
    rw [hx, hy, hz]
    rfl
  | vec4 type x y z w hx hy hz hw =>
    change combine type (.vec4 (x.expand.fold combine) (y.expand.fold combine)
      (z.expand.fold combine) (w.expand.fold combine)) = _
    rw [hx, hy, hz, hw]
    rfl

theorem contract_expand (t : Tree) : t.expand.contract = t.contract := by
  refine fold_expand _ (fun type l => ?_) t
  cases l with
  | constant c => cases c <;> rfl
  | _ => rfl

/-- A literal vector is written like a vector of literals. -/
theorem text_expand (t : Tree) : t.expand.text = t.text := by
  refine fold_expand _ (fun type l => ?_) t
  cases l with
  | constant c =>
    cases c with
    | float2 x y =>
      change "float2(" ++ x.text ++ ", " ++ y.text ++ ")" =
        "float2(" ++ (x.text ++ ", " ++ y.text) ++ ")"
      simp only [String.append_assoc]
    | float3 x y z =>
      change "float3(" ++ x.text ++ ", " ++ y.text ++ ", " ++ z.text ++ ")" =
        "float3(" ++ (x.text ++ ", " ++ y.text ++ ", " ++ z.text) ++ ")"
      simp only [String.append_assoc]
    | float4 x y z w =>
      change "float4(" ++ x.text ++ ", " ++ y.text ++ ", " ++ z.text ++ ", " ++ w.text ++ ")" =
        "float4(" ++ (x.text ++ ", " ++ y.text ++ ", " ++ z.text ++ ", " ++ w.text) ++ ")"
      simp only [String.append_assoc]
    | _ => rfl
  | _ => rfl

theorem everywhere_plain_number {x : Single} (h : x.Canonical) :
    (number x).Everywhere (Plain types) := by
  refine .intro ⟨⟨rfl, ?_⟩, ?_⟩ nofun
  · intro y hy
    obtain rfl : y = x := List.mem_singleton.1 hy
    exact h
  · intro l hl
    cases hl
    exact rfl

theorem everywhere_expand_leaf {l : Leaf} (h : (leaf type l).Legible types) :
    (leaf type l).expand.Everywhere (Plain types) := by
  have hword {l : Leaf} (h : (leaf type l).Legible types) (hword : l.IsWord) :
      (leaf type l).Everywhere (Plain types) := by
    refine .intro ⟨h, ?_⟩ nofun
    intro l' hl'
    cases hl'
    exact hword
  cases l with
  | constant c =>
    have hnumber (x : Single) (hx : x ∈ c.floats) : (number x).Everywhere (Plain types) :=
      everywhere_plain_number (h.2 x hx)
    cases c with
    | float2 x y =>
      exact .intro ⟨⟨h.1, rfl, rfl⟩, nofun⟩
        (List.forall_mem_map (f := number) (l := [x, y]).2 hnumber)
    | float3 x y z =>
      exact .intro ⟨⟨h.1, rfl, rfl, rfl⟩, nofun⟩
        (List.forall_mem_map (f := number) (l := [x, y, z]).2 hnumber)
    | float4 x y z w =>
      exact .intro ⟨⟨h.1, rfl, rfl, rfl, rfl⟩, nofun⟩
        (List.forall_mem_map (f := number) (l := [x, y, z, w]).2 hnumber)
    | _ => exact hword h rfl
  | _ => exact hword h trivial

theorem node_expand (h : ∀ l, t.node ≠ .leaf l) : t.expand.node = t.node.map expand := by
  rw [expand_eq, node_ofNode]
  cases t with
  | leaf type l => exact absurd rfl (h l)
  | _ => rfl

theorem Everywhere.expand (h : t.Everywhere (Legible types)) :
    t.expand.Everywhere (Plain types) := by
  induction h with
  | @intro t htop hoperands ih =>
    by_cases hleaf : ∃ l, t.node = .leaf l
    case pos =>
      obtain ⟨l, hl⟩ := hleaf
      rw [← ofNode_node t, hl] at htop ⊢
      exact everywhere_expand_leaf htop
    case neg =>
      have hnode := node_expand (not_exists.1 hleaf)
      refine .intro ⟨?_, ?_⟩ ?_
      · have htypes : Tree.type ∘ Tree.expand = Tree.type := funext type_expand
        rwa [Legible, hnode, type_expand, Node.map_map, htypes]
      · intro l hl
        rw [hnode] at hl
        exact absurd ⟨l, Node.eq_leaf_of_map_eq hl⟩ hleaf
      · rw [operands, hnode, Node.operands_map]
        exact List.forall_mem_map.2 ih

end Tree

section Lanes

variable {D : Type} {P : Primitives D} {env : Environment D}

/-- The lanes of a layer over the lanes of its operands. -/
def Node.lane (P : Primitives D) (env : Environment D) : Node (Nat → D) → Nat → D
  | leaf (.constant c), i => P.constant c i
  | leaf (.input t name), i => env.input t name i
  | leaf .systemSeed, _ => env.seed
  | unary (.channel c) a, _ => a c
  | unary op a, i => P.unary op (a i)
  | binary op a b, i => P.binary op (a i) (b i)
  | vec2 x y, i => if i = 0 then x 0 else y 0
  | vec3 x y z, i => if i = 0 then x 0 else if i = 1 then y 0 else z 0
  | vec4 x y z w, i =>
    if i = 0 then x 0 else if i = 1 then y 0 else if i = 2 then z 0 else w 0

/-- The lanes of a tree. -/
def Tree.lane (P : Primitives D) (env : Environment D) (t : Tree) : Nat → D :=
  t.fold fun _ n => n.lane P env

theorem Expr.lane_tree (e : Expr) : e.tree.lane P env = e.lane P env := by
  funext i
  induction e generalizing i with
  | leaf id l => cases l <;> rfl
  | unary id op a ha =>
    cases op with
    | channel c => exact ha c
    | _ => exact congrArg (P.unary _) (ha i)
  | binary id op a b ha hb =>
    change P.binary op (a.tree.lane P env i) (b.tree.lane P env i) = _
    rw [ha, hb]
    rfl
  | vec2 id x y hx hy =>
    change (if i = 0 then x.tree.lane P env 0 else y.tree.lane P env 0) = _
    rw [hx, hy]
    rfl
  | vec3 id x y z hx hy hz =>
    change (if i = 0 then x.tree.lane P env 0 else if i = 1 then y.tree.lane P env 0
      else z.tree.lane P env 0) = _
    rw [hx, hy, hz]
    rfl
  | vec4 id x y z w hx hy hz hw =>
    change (if i = 0 then x.tree.lane P env 0 else if i = 1 then y.tree.lane P env 0
      else if i = 2 then z.tree.lane P env 0 else w.tree.lane P env 0) = _
    rw [hx, hy, hz, hw]
    rfl

/-- The lanes that are asked for: those of the type, and all lanes of an amount to shift by. -/
def ValueType.Asked (t : ValueType) (i : Nat) : Prop := i < t.components ∨ t.isFloat = false

theorem ValueType.asked_zero (t : ValueType) : t.Asked 0 := .inl t.components_pos

namespace Tree

variable {types : String → ValueType} {t : Tree} {type : ValueType} {i : Nat}

/-- A literal vector has the lanes of a vector of literals. -/
theorem lane_contractNode {n : Node Tree} (h : (n.map Tree.type).Legible types type)
    (hi : type.Asked i) :
    (ofNode type (contractNode n)).lane P env i = (n.map (lane P env)).lane P env i := by
  have hlt : type.isFloat = true → i < type.components := by
    intro hfloat
    rcases hi with hlt | hinteger
    · exact hlt
    · rw [hfloat] at hinteger
      cases hinteger
  cases n with
  | vec2 x y =>
    obtain ⟨rfl, -⟩ := h
    have hlt : i < 2 := hlt rfl
    unfold contractNode
    split
    next u v heq =>
      cases heq
      match i, hlt with
      | 0, _ | 1, _ => rfl
    next heq => cases heq
    next heq => cases heq
    next => rfl
  | vec3 x y z =>
    obtain ⟨rfl, -⟩ := h
    have hlt : i < 3 := hlt rfl
    unfold contractNode
    split
    next heq => cases heq
    next heq =>
      cases heq
      match i, hlt with
      | 0, _ | 1, _ | 2, _ => rfl
    next heq => cases heq
    next => rfl
  | vec4 x y z w =>
    obtain ⟨rfl, -⟩ := h
    have hlt : i < 4 := hlt rfl
    unfold contractNode
    split
    next heq => cases heq
    next heq => cases heq
    next heq =>
      cases heq
      match i, hlt with
      | 0, _ | 1, _ | 2, _ | 3, _ => rfl
    next => rfl
  | _ => rfl

/-- The lanes that are asked for at a layer ask for lanes of the operands. -/
theorem lane_congr {f g : Tree → Nat → D} {n : Node Tree} (h : (n.map Tree.type).Legible types type)
    (hi : type.Asked i) (hfg : ∀ a ∈ n.operands, ∀ j, a.type.Asked j → f a j = g a j) :
    (n.map f).lane P env i = (n.map g).lane P env i := by
  have hzero (a : Tree) (ha : a ∈ n.operands) : f a 0 = g a 0 := hfg a ha 0 a.type.asked_zero
  cases n with
  | leaf => rfl
  | unary op a =>
    have ha := hfg a (List.mem_singleton.2 rfl)
    cases op with
    | channel c => exact ha c (.inl h.2.1)
    | toFloat => exact congrArg (P.unary _) (ha i (h.1 ▸ .inr rfl))
    | random => exact congrArg (P.unary _) (ha i (h.1 ▸ .inr rfl))
    | _ => exact congrArg (P.unary _) (ha i (h ▸ hi))
  | binary op a b =>
    have hb : b.type.Asked i := by
      rw [show b.type = _ from h.2]
      split
      · exact .inr rfl
      · exact hi
    change P.binary op (f a i) (f b i) = P.binary op (g a i) (g b i)
    rw [hfg a (by simp [Node.operands]) i (h.1 ▸ hi), hfg b (by simp [Node.operands]) i hb]
  | vec2 x y =>
    change (if i = 0 then f x 0 else f y 0) = if i = 0 then g x 0 else g y 0
    rw [hzero x (by simp [Node.operands]), hzero y (by simp [Node.operands])]
  | vec3 x y z =>
    change (if i = 0 then f x 0 else if i = 1 then f y 0 else f z 0) =
      if i = 0 then g x 0 else if i = 1 then g y 0 else g z 0
    rw [hzero x (by simp [Node.operands]), hzero y (by simp [Node.operands]),
      hzero z (by simp [Node.operands])]
  | vec4 x y z w =>
    change (if i = 0 then f x 0 else if i = 1 then f y 0 else if i = 2 then f z 0 else f w 0) =
      if i = 0 then g x 0 else if i = 1 then g y 0 else if i = 2 then g z 0 else g w 0
    rw [hzero x (by simp [Node.operands]), hzero y (by simp [Node.operands]),
      hzero z (by simp [Node.operands]), hzero w (by simp [Node.operands])]

/-- Making vectors of literals literal vectors changes no lane that is asked for. -/
theorem lane_contract (h : t.Everywhere (Legible types)) (hi : t.type.Asked i) :
    t.contract.lane P env i = t.lane P env i := by
  induction h generalizing i with
  | @intro t htop hoperands ih =>
    have htypes : Tree.type ∘ contract = Tree.type := funext type_contract
    calc t.contract.lane P env i
        = (ofNode t.type (contractNode (t.node.map contract))).lane P env i := by rw [contract_eq]
      _ = ((t.node.map contract).map (lane P env)).lane P env i :=
        lane_contractNode (by rwa [Node.map_map, htypes]) hi
      _ = (t.node.map fun a => a.contract.lane P env).lane P env i := by rw [Node.map_map]; rfl
      _ = (t.node.map (lane P env)).lane P env i :=
        lane_congr htop hi fun a ha j hj => ih a ha hj
      _ = t.lane P env i := by rw [lane, fold_eq]; rfl

end Tree

end Lanes

namespace Expr

variable {types : String → ValueType} {a b e : Expr}

/-- What the text of an expression relies on, given the types of names. -/
def Legible (types : String → ValueType) (e : Expr) : Prop :=
  ∀ x ∈ e.nodes, (x.node.map type).Legible types x.type

instance (types : String → ValueType) (e : Expr) : Decidable (e.Legible types) :=
  inferInstanceAs (Decidable (∀ x ∈ e.nodes, (x.node.map type).Legible types x.type))

theorem Legible.tree (h : e.Legible types) : e.tree.Everywhere (Tree.Legible types) := by
  induction e using induction_on_operands with
  | step e ih =>
    refine .intro ?_ ?_
    · have htypes : Tree.type ∘ Expr.tree = Expr.type := funext type_tree
      rw [Tree.Legible, node_tree, type_tree, Node.map_map, htypes]
      exact h e (self_mem_nodes e)
    · rw [Tree.operands, node_tree, Node.operands_map]
      exact List.forall_mem_map.2 fun a ha => ih a ha fun x hx => h x (mem_nodes_of_operand ha hx)

theorem text_tree (e : Expr) : e.tree.text = e.text := by
  induction e using induction_on_operands with
  | step e ih =>
    rw [Tree.text_eq, node_tree, Node.map_map, text, fold_eq]
    exact congrArg Node.text (Node.map_congr_operands ih)

/-- Expressions of one type and one text are one tree, up to literal vectors, and have the same
values in every environment. -/
theorem text_unambiguous (ha : a.Legible types) (hb : b.Legible types) (htype : a.type = b.type)
    (htext : a.text = b.text) :
    a.tree.contract = b.tree.contract ∧
      ∀ (D : Type) (P : Primitives D) (env : Environment D), ∀ i < a.type.components,
        a.lane P env i = b.lane P env i := by
  have hcontract : a.tree.contract = b.tree.contract := by
    have hplain := ha.tree.expand
    have hplain' := hb.tree.expand
    have htexts : a.tree.expand.text = b.tree.expand.text := by
      rw [Tree.text_expand, Tree.text_expand, text_tree, text_tree, htext]
    have hskeleton := Tree.skeleton_eq_of_text_eq hplain.readable hplain'.readable htexts
    have hnear : a.tree.expand.type.Near b.tree.expand.type := .inl (by simpa using htype)
    rw [← Tree.contract_expand, hplain.eq_of_skeleton_eq hplain' hnear hskeleton,
      Tree.contract_expand]
  refine ⟨hcontract, fun D P env i hi => ?_⟩
  calc a.lane P env i = a.tree.lane P env i := by rw [lane_tree]
    _ = a.tree.contract.lane P env i := (Tree.lane_contract ha.tree (.inl (by simpa using hi))).symm
    _ = b.tree.contract.lane P env i := by rw [hcontract]
    _ = b.tree.lane P env i := Tree.lane_contract hb.tree (.inl (by simpa [← htype] using hi))
    _ = b.lane P env i := by rw [lane_tree]

def channelOfSum (vector : Expr) : Expr :=
  .unary 9 (.channel ⟨0, by decide⟩) (.binary 8 .add vector (.leaf 7 (.input .float2 "v")))

def vectorOfLiterals : Expr :=
  .vec2 3 (.leaf 1 (.constant (.float 1))) (.leaf 2 (.constant (.float (-2))))

def literalVector : Expr := .leaf 4 (.constant (.float2 1 (-2)))

/-- Different trees with one text, `(float2(1, -2) + v).x`. -/
theorem text_unambiguous_channelOfSum :
    (channelOfSum vectorOfLiterals).Legible (fun _ => .float2) ∧
      (channelOfSum literalVector).Legible (fun _ => .float2) ∧
      (channelOfSum vectorOfLiterals).tree ≠ (channelOfSum literalVector).tree ∧
      (channelOfSum vectorOfLiterals).text = (channelOfSum literalVector).text ∧
      (channelOfSum vectorOfLiterals).tree.contract = (channelOfSum literalVector).tree.contract ∧
      ∀ (D : Type) (P : Primitives D) (env : Environment D), ∀ i < 1,
        (channelOfSum vectorOfLiterals).lane P env i = (channelOfSum literalVector).lane P env i := by
  have hvector : (channelOfSum vectorOfLiterals).Legible (fun _ => .float2) := by decide +kernel
  have hliteral : (channelOfSum literalVector).Legible (fun _ => .float2) := by decide +kernel
  have htree : (channelOfSum vectorOfLiterals).tree ≠ (channelOfSum literalVector).tree := by
    decide +kernel
  have htext : (channelOfSum vectorOfLiterals).text = (channelOfSum literalVector).text := by
    decide +kernel
  exact ⟨hvector, hliteral, htree, htext, text_unambiguous hvector hliteral rfl htext⟩

end Expr

end ShaderAlgebra
