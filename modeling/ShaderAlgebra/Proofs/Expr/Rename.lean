import ShaderAlgebra.Proofs.Build.Simulation
import ShaderAlgebra.Proofs.SharedText.Length

/-!
# Renaming an input

An input that is given another name stays the same node of the graph. Its name is
written at all places of the node, so an expression that uses the node has
another text under every other name, whatever the names are. No formula looks at
names, so a formula on renamed operands gives the renamed results.
-/

namespace ShaderAlgebra

namespace Template

variable {t : Template Unit} {a b : String}

/-- A text with slots that are all filled alike shows what they are filled with. -/
theorem fill_injective (hslots : t.slots ≠ []) (h : t.fill (fun _ => a) = t.fill fun _ => b) :
    a = b := by
  have hlength : a.length = b.length := by
    have hwhole := congrArg String.length h
    rw [length_fill, length_fill] at hwhole
    have hmany : t.slots.length * a.length = t.slots.length * b.length := by simpa using hwhole
    exact Nat.eq_of_mul_eq_mul_left (List.length_pos_of_ne_nil hslots) hmany
  induction t with
  | nil => exact absurd rfl hslots
  | cons p t ih =>
    have hlist := congrArg String.toList h
    cases p with
    | chars text =>
      simp only [fill, String.toList_append] at hlist
      exact ih hslots (String.toList_injective (List.append_cancel_left hlist))
    | slot =>
      simp only [fill, String.toList_append] at hlist
      exact String.toList_injective (List.append_inj_left hlist hlength)

end Template

namespace Node

variable {α β : Type}

def withName (name : String) : Node α → Node α
  | leaf (.input t _) => leaf (.input t name)
  | n => n

theorem withName_of_not_named {n : Node α} (h : n.isNamed = false) (name : String) :
    n.withName name = n := by
  cases n with
  | leaf l =>
    cases l with
    | input t given => cases h
    | constant | systemSeed => rfl
  | unary | binary | vec2 | vec3 | vec4 => rfl

theorem isNamed_map (f : α → β) (n : Node α) : (n.map f).isNamed = n.isNamed := by
  cases n with
  | leaf l => cases l <;> rfl
  | unary | binary | vec2 | vec3 | vec4 => rfl

theorem eq_leaf_of_isNamed {n : Node α} (h : n.isNamed = true) :
    ∃ t given, n = .leaf (.input t given) := by
  cases n with
  | leaf l =>
    cases l with
    | input t given => exact ⟨t, given, rfl⟩
    | constant | systemSeed => cases h
  | unary | binary | vec2 | vec3 | vec4 => cases h

end Node

namespace Expr

open Correspondence

/-- The expression in which the input of an identity has another name. -/
def rename (k : Nat) (name : String) (e : Expr) : Expr :=
  e.fold fun e n => ofNode e.id (if e.id = k then n.withName name else n)

variable {k i : Nat} {name given : String} {t : ValueType} {e : Expr} {n : Node Expr}

theorem rename_eq (k : Nat) (name : String) (e : Expr) :
    e.rename k name = ofNode e.id (if e.id = k then (e.node.map (rename k name)).withName name
      else e.node.map (rename k name)) :=
  fold_eq _ e

theorem rename_ofNode (h : n.isNamed = false) :
    (ofNode i n).rename k name = ofNode i (n.map (rename k name)) := by
  rw [rename_eq, id_ofNode, node_ofNode,
    Node.withName_of_not_named (by rw [Node.isNamed_map, h]), ite_self]

theorem rename_self : (leaf k (.input t given)).rename k name = leaf k (.input t name) := by
  rw [rename_eq]
  exact congrArg (ofNode k) (if_pos rfl)

theorem rename_leaf_of_ne {l : Leaf} (h : i ≠ k) : (leaf i l).rename k name = leaf i l := by
  rw [rename_eq]
  exact congrArg (ofNode i) (if_neg h)

/-- A node that is no input: only its operands are renamed. -/
theorem rename_of_not_named (h : e.node.isNamed = false) :
    e.rename k name = ofNode e.id (e.node.map (rename k name)) := by
  rw [← ofNode_node e, rename_ofNode h, id_ofNode, node_ofNode]

theorem type_rename (k : Nat) (name : String) (e : Expr) : (e.rename k name).type = e.type := by
  induction e with
  | leaf i l =>
    by_cases hi : i = k
    · subst hi
      cases l with
      | input t given => rw [rename_self]; rfl
      | constant | systemSeed => rw [rename_of_not_named rfl]; rfl
    · rw [rename_leaf_of_ne hi]
  | unary i op a ih =>
    rw [rename_of_not_named rfl]
    exact congrArg op.resultType ih
  | binary i op a b ih _ =>
    rw [rename_of_not_named rfl]
    exact ih
  | vec2 | vec3 | vec4 =>
    rw [rename_of_not_named rfl]
    rfl

/-- Where the name is the one that the input has, nothing changes. -/
theorem rename_eq_self (h : ∀ t given, leaf k (.input t given) ∈ e.nodes → given = name) :
    e.rename k name = e := by
  induction e using induction_on_operands with
  | step e ih =>
    have hoperands : e.node.map (rename k name) = e.node.map fun a => a :=
      Node.map_congr_operands fun a ha =>
        ih a ha fun t given hmem => h t given (mem_nodes_of_operand ha hmem)
    have hsame : e.node.map (fun a : Expr => a) = e.node := by cases e.node <;> rfl
    cases hnamed : e.node.isNamed with
    | false => rw [rename_of_not_named hnamed, hoperands, hsame, ofNode_node]
    | true =>
      obtain ⟨t, given, hnode⟩ := Node.eq_leaf_of_isNamed hnamed
      have he : e = leaf e.id (.input t given) := by
        rw [← ofNode_node e, hnode]
        rfl
      by_cases hid : e.id = k
      · subst hid
        rw [he] at h ⊢
        rw [h t given (self_mem_nodes _)]
        exact rename_self
      · rw [he]
        exact rename_leaf_of_ne hid

/-! ### Texts -/

/-- The text of an expression with a slot at each place of an input. -/
def blanked (k : Nat) (e : Expr) : Template Unit :=
  e.fold fun e n =>
    if e.id = k ∧ n.isNamed then [.slot ()] else n.template.bind fun t => t

theorem blanked_eq (k : Nat) (e : Expr) :
    e.blanked k = if e.id = k ∧ e.node.isNamed then [.slot ()]
      else (e.node.map (blanked k)).template.bind fun t => t := by
  rw [blanked, fold_eq, Node.isNamed_map]
  rfl

theorem text_ofNode (i : Nat) (n : Node Expr) : (ofNode i n).text = (n.map text).text := by
  rw [text, fold_eq, node_ofNode]
  rfl

/-- Every place of the input shows the new name. -/
theorem text_rename (k : Nat) (name : String) (e : Expr) :
    (e.rename k name).text = (e.blanked k).fill fun _ => name := by
  induction e using induction_on_operands with
  | step e ih =>
    have hrule : (e.node.map fun a => (a.rename k name).text).text =
        ((e.node.map (blanked k)).template.bind fun t => t).fill fun _ => name := by
      rw [Node.map_congr_operands ih, Template.fill_bind, ← Node.text_map, Node.map_map]
      rfl
    rw [blanked_eq]
    split
    next hplace =>
      obtain ⟨t, given, hnode⟩ := Node.eq_leaf_of_isNamed hplace.2
      rw [rename_eq, if_pos hplace.1, hnode, text_ofNode]
      exact String.append_empty.symm
    next hplace =>
      have hkept : e.rename k name = ofNode e.id (e.node.map (rename k name)) := by
        by_cases hid : e.id = k
        · exact rename_of_not_named (Bool.eq_false_iff.2 fun hnamed => hplace ⟨hid, hnamed⟩)
        · rw [rename_eq, if_neg hid]
      rw [hkept, text_ofNode, Node.map_map]
      exact hrule

theorem slots_blanked (h : leaf k (.input t given) ∈ e.nodes) : (e.blanked k).slots ≠ [] := by
  induction e using induction_on_operands with
  | step e ih =>
    rw [blanked_eq]
    split
    · simp [Template.slots]
    next hplace =>
      rcases mem_nodes.1 h with rfl | ⟨a, ha, hmem⟩
      · exact absurd ⟨rfl, rfl⟩ hplace
      · rw [Template.slots_bind, Node.slots_template, Node.operands_map, ne_eq,
          List.flatMap_eq_nil_iff]
        exact fun hnone => ih a ha hmem (hnone _ (List.mem_map_of_mem ha))

/-- An expression that uses an input has different texts under different names. -/
theorem text_rename_injective {name' : String} (h : leaf k (.input t given) ∈ e.nodes)
    (htext : (e.rename k name).text = (e.rename k name').text) : name = name' := by
  rw [text_rename, text_rename] at htext
  exact Template.fill_injective (slots_blanked h) htext

/-! ### Formulas -/

/-- A run on operands, beside a run on operands in which an input has another name. -/
def underName (k : Nat) (name : String) : Correspondence Unit where
  Reached _ i j := i = j
  Related _ a b := b = a.rename k name
  mono _ h := h
  type_eq h := by rw [h, type_rename]
  literal _ l t :=
    have hconstant : (l.node t).node.isNamed = false := rfl
    (rename_of_not_named hconstant).symm
  node := by
    rintro _ i _ m n rfl hnamed hrel
    have hn : n = m.map (rename k name) := by
      cases hrel with
      | leaf => rfl
      | unary op h => rw [h]; rfl
      | binary op h₁ h₂ => rw [h₁, h₂]; rfl
      | vec2 h₁ h₂ => rw [h₁, h₂]; rfl
      | vec3 h₁ h₂ h₃ => rw [h₁, h₂, h₃]; rfl
      | vec4 h₁ h₂ h₃ h₄ => rw [h₁, h₂, h₃, h₄]; rfl
    exact ⟨(), le_refl _, rfl, by rw [hn, rename_ofNode hnamed]⟩

end Expr

end ShaderAlgebra
