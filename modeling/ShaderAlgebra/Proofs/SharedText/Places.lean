import ShaderAlgebra.Proofs.SharedText.Rendering

/-!
# The places of shared text

The lines of shared text are read once more, now with a slot at each place of a
leaf as well as at each name of a binding. The leaves at the places are those of
the graph.
-/

namespace ShaderAlgebra

namespace SharedText

open ShaderAlgebra.Expr

/-- What stands at a place of a line: a binding, where it is made or referred to, or a leaf. -/
inductive Place
  | reference (number : Nat)
  | leaf (leaf : Leaf)

def Place.text : Place → String
  | reference k => bindingName k
  | leaf l => l.text

/-- The rule of a node around texts with places; a leaf is a place of its own. -/
def placeNode : Node (Template Place) → Template Place
  | .leaf l => [.slot (.leaf l)]
  | n => n.template.bind fun t => t

/-- The text at a place of a node, with references and leaves as slots. -/
def placed (roots : List Expr) (e : Expr) : Template Place :=
  e.fold fun e n =>
    match (bound roots).idxOf? e with
    | some k => [.slot (.reference k)]
    | none => placeNode n

/-- The text of a node's binding, with references and leaves as slots. -/
def placedBody (roots : List Expr) (e : Expr) : Template Place :=
  placeNode (e.node.map (placed roots))

/-- The line of a binding; the name that it binds is a place as well. -/
def placedBinding (roots : List Expr) (number : Nat) (e : Expr) : Template Place :=
  .chars "let " :: .slot (.reference number) :: .chars (": " ++ e.type.name ++ " = ") ::
    (placedBody roots e ++ [.chars ";"])

def placedBindings (roots : List Expr) : List (Template Place) :=
  (bound roots).mapIdx (placedBinding roots)

def placedRoots (roots : List Expr) : List (Template Place) := roots.map (placed roots)

variable {roots : List Expr} {e x : Expr} {p : Place} {l : Leaf} {i k : Nat}

theorem fill_placeNode (n : Node (Template Place)) :
    (placeNode n).fill Place.text = (n.map fun t => t.fill Place.text).text := by
  cases n with
  | leaf l => exact String.append_empty
  | _ =>
    rw [placeNode, Template.fill_bind, Node.text_map]
    rintro l ⟨⟩

theorem mem_slots_placeNode {n : Node (Template Place)} :
    p ∈ (placeNode n).slots ↔
      (∃ l, n = .leaf l ∧ p = .leaf l) ∨ ∃ t ∈ n.operands, p ∈ t.slots := by
  cases n with
  | leaf l => simp [placeNode, Template.slots, Node.operands]
  | _ =>
    rw [placeNode, Template.slots_bind, Node.slots_template, List.mem_flatMap]
    · simp
    · rintro l ⟨⟩

theorem placed_eq (roots : List Expr) (e : Expr) :
    placed roots e =
      match (bound roots).idxOf? e with
      | some k => [.slot (.reference k)]
      | none => placedBody roots e :=
  fold_eq _ e

theorem fill_placedBody_of_operands
    (h : ∀ a ∈ e.operands, (placed roots a).fill Place.text = shared roots a) :
    (placedBody roots e).fill Place.text = body roots e := by
  rw [placedBody, fill_placeNode, Node.map_map, body]
  exact congrArg Node.text (Node.map_congr_operands h)

/-- Writing out every place gives the text that the renderer writes. -/
theorem fill_placed (roots : List Expr) (e : Expr) :
    (placed roots e).fill Place.text = shared roots e := by
  induction e using induction_on_operands with
  | step e ih =>
    rw [placed_eq, shared_eq]
    cases (bound roots).idxOf? e with
    | some k => simp [Template.fill, Place.text]
    | none => exact fill_placedBody_of_operands ih

theorem fill_placedBody (roots : List Expr) (e : Expr) :
    (placedBody roots e).fill Place.text = body roots e :=
  fill_placedBody_of_operands fun a _ => fill_placed roots a

theorem fill_placedBinding (roots : List Expr) (k : Nat) (e : Expr) :
    (placedBinding roots k e).fill Place.text = bindingText k e.type (body roots e) := by
  simp [placedBinding, bindingText, Template.fill, Template.fill_append, fill_placedBody,
    Place.text, String.append_assoc]

/-- The lines of the renderer are the lines with places, written out. -/
theorem render_eq_placed (h : Coherent roots) :
    render roots =
      ⟨(placedBindings roots).map (Template.fill Place.text),
        (placedRoots roots).map (Template.fill Place.text)⟩ := by
  have hbindings : (placedBindings roots).map (Template.fill Place.text) =
      (bound roots).mapIdx fun k e => bindingText k e.type (body roots e) := by
    refine List.ext_getElem? fun k => ?_
    simp [placedBindings, Function.comp_def, fill_placedBinding]
  rw [render_eq h, hbindings, placedRoots, List.map_map]
  simp only [Function.comp_def, fill_placed]

theorem mem_slots_placedBody :
    p ∈ (placedBody roots e).slots ↔
      (∃ l, e.node = .leaf l ∧ p = .leaf l) ∨ ∃ a ∈ e.operands, p ∈ (placed roots a).slots := by
  rw [placedBody, mem_slots_placeNode, Node.operands_map]
  have hleaf (l : Leaf) : e.node.map (placed roots) = .leaf l ↔ e.node = .leaf l := by
    cases e.node <;> simp [Node.map]
  simp [hleaf, operands]

theorem reference_mem_iff_of_bound (hk : (bound roots).idxOf? e = some k) :
    p ∈ (placed roots e).slots ↔ p = .reference k := by
  rw [placed_eq, hk]
  simp [Template.slots]

theorem mem_slots_placed_of_unbound (hk : (bound roots).idxOf? e = none) :
    p ∈ (placed roots e).slots ↔ p ∈ (placedBody roots e).slots := by
  rw [placed_eq, hk]

theorem exists_leaf_of_operands (h : .leaf l ∈ (placedBody roots e).slots)
    (hoperands : ∀ a ∈ e.operands, .leaf l ∈ (placed roots a).slots → ∃ i, .leaf i l ∈ a.nodes) :
    ∃ i, .leaf i l ∈ e.nodes := by
  rcases mem_slots_placedBody.1 h with ⟨_, hnode, hleaf⟩ | ⟨a, ha, hmem⟩
  · cases hleaf
    have hself : e = .leaf e.id l := by
      rw [← ofNode_node e, hnode]
      rfl
    exact ⟨e.id, hself ▸ self_mem_nodes e⟩
  · obtain ⟨i, hi⟩ := hoperands a ha hmem
    exact ⟨i, mem_nodes_of_operand ha hi⟩

/-- The leaves at the places of a text are leaves of the graph. -/
theorem exists_leaf_of_mem_slots (h : .leaf l ∈ (placed roots e).slots) :
    ∃ i, .leaf i l ∈ e.nodes := by
  induction e using induction_on_operands with
  | step e ih =>
    cases hj : (bound roots).idxOf? e with
    | some j => cases (reference_mem_iff_of_bound hj).1 h
    | none => exact exists_leaf_of_operands ((mem_slots_placed_of_unbound hj).1 h) ih

/-- Every leaf of the graph has a place. -/
theorem leaf_mem_of_mem_nodes (hx : .leaf i l ∈ e.nodes) :
    .leaf l ∈ (placed roots e).slots ∨
      ∃ b ∈ bound roots, .leaf l ∈ (placedBody roots b).slots := by
  induction e using induction_on_operands with
  | step e ih =>
    have hbody : .leaf l ∈ (placedBody roots e).slots ∨
        ∃ b ∈ bound roots, .leaf l ∈ (placedBody roots b).slots := by
      rcases mem_nodes.1 hx with rfl | ⟨a, ha, hxa⟩
      · exact .inl (mem_slots_placedBody.2 (.inl ⟨l, rfl, rfl⟩))
      · rcases ih a ha hxa with hplace | hbound
        · exact .inl (mem_slots_placedBody.2 (.inr ⟨a, ha, hplace⟩))
        · exact .inr hbound
    rcases hbody with hself | hbound
    · cases hj : (bound roots).idxOf? e with
      | some j =>
        have he : e ∈ bound roots := List.isSome_idxOf?.1 (by rw [hj]; rfl)
        exact .inr ⟨e, he, hself⟩
      | none => exact .inl ((mem_slots_placed_of_unbound hj).2 hself)
    · exact .inr hbound

theorem leaf_mem_slots_placedBinding :
    .leaf l ∈ (placedBinding roots k e).slots ↔ .leaf l ∈ (placedBody roots e).slots := by
  simp [placedBinding, Template.slots, Template.slots_append]

/-- The leaves at the places of all lines are the leaves of the graph. -/
theorem exists_line_leaf_iff (h : Coherent roots) :
    (∃ line ∈ placedBindings roots ++ placedRoots roots, .leaf l ∈ line.slots) ↔
      ∃ i, .leaf i l ∈ graph roots := by
  constructor
  · rintro ⟨line, hline, hl⟩
    rcases List.mem_append.1 hline with hbinding | hroot
    · obtain ⟨k, hk, rfl⟩ := List.mem_mapIdx.1 hbinding
      have hb : (bound roots)[k] ∈ bound roots := List.getElem_mem hk
      obtain ⟨i, hi⟩ := exists_leaf_of_operands (leaf_mem_slots_placedBinding.1 hl)
        fun a _ => exists_leaf_of_mem_slots
      exact ⟨i, mem_graph_of_mem_nodes ((mem_bound h).1 hb).1 hi⟩
    · obtain ⟨r, hr, rfl⟩ := List.mem_map.1 hroot
      obtain ⟨i, hi⟩ := exists_leaf_of_mem_slots hl
      exact ⟨i, mem_graph_of_mem_nodes (root_mem_graph hr) hi⟩
  · rintro ⟨i, hi⟩
    obtain ⟨r, hr, hir⟩ := List.mem_flatMap.1 hi
    rcases leaf_mem_of_mem_nodes hir with hplace | ⟨b, hb, hbl⟩
    · exact ⟨_, List.mem_append_right _ (List.mem_map_of_mem hr), hplace⟩
    · obtain ⟨k, hk, rfl⟩ := List.mem_iff_getElem.1 hb
      exact ⟨_, List.mem_append_left _ (List.mem_mapIdx.2 ⟨k, hk, rfl⟩),
        leaf_mem_slots_placedBinding.2 hbl⟩

end SharedText

end ShaderAlgebra
