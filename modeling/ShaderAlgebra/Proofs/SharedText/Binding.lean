import Mathlib.Data.List.Dedup
import ShaderAlgebra.Expr.SharedText
import ShaderAlgebra.Proofs.Expr.Graph
import ShaderAlgebra.Proofs.SharedText.Template

/-!
# Bindings without a state

Which nodes of a graph are bound, in which order, and what is written for each
node, all said of the graph alone. `shared` is the text of a node at one of its
places. `outline` is the same text before its references are written out as
names: from it the order of the bindings and the nested text are read.
-/

namespace ShaderAlgebra

namespace SharedText

open ShaderAlgebra.Expr

/-- How often a node of a graph is referenced: as a root, and by the operand slots of the
distinct nodes. -/
def references (roots : List Expr) (e : Expr) : Nat :=
  roots.count e + ((graph roots).dedup.flatMap operands).count e

def isBound (roots : List Expr) (e : Expr) : Bool := 1 < references roots e && !e.isLeaf

/-- The bound nodes, in the order in which a depth-first search finishes them. -/
def bound (roots : List Expr) : List Expr := (finished roots).filter (isBound roots)

/-- The text at a place of a node: a name if the node is bound, and otherwise the rule of the
node around the texts at its operands. -/
def shared (roots : List Expr) (e : Expr) : String :=
  e.fold fun e n =>
    match (bound roots).idxOf? e with
    | some k => bindingName k
    | none => n.text

/-- The rule of a node around the texts at its operands, whether it is bound or not. -/
def body (roots : List Expr) (e : Expr) : String := (e.node.map (shared roots)).text

/-- The text at a place of a node with references as slots. -/
def outline (roots : List Expr) (e : Expr) : Template Nat :=
  e.fold fun e n =>
    match (bound roots).idxOf? e with
    | some k => [.slot k]
    | none => n.template.bind fun t => t

/-- The text of a node's binding with references as slots. -/
def bodyOutline (roots : List Expr) (e : Expr) : Template Nat :=
  e.node.template.bind (outline roots)

def outlines (roots : List Expr) : List (Template Nat) := (bound roots).map (bodyOutline roots)

/-- `Expands bodies t s`: replacing each reference in `t` by the body of its number, and so on
in what comes in, leaves the text `s`. -/
inductive Expands (bodies : List (Template Nat)) : Template Nat → String → Prop
  | nil : Expands bodies [] ""
  | chars (text : String) {t : Template Nat} {s : String} (h : Expands bodies t s) :
      Expands bodies (.chars text :: t) (text ++ s)
  | slot {k : Nat} {b t : Template Nat} {u s : String} (hk : bodies[k]? = some b)
      (hb : Expands bodies b u) (h : Expands bodies t s) :
      Expands bodies (.slot k :: t) (u ++ s)

section Expands

variable {bodies : List (Template Nat)} {t u : Template Nat} {s r : String}

theorem Expands.append (h : Expands bodies t s) (hu : Expands bodies u r) :
    Expands bodies (t ++ u) (s ++ r) := by
  induction h with
  | nil => simpa using hu
  | chars text _ ih =>
    rw [String.append_assoc]
    exact .chars text ih
  | slot hk hb _ _ ih =>
    rw [String.append_assoc]
    exact .slot hk hb ih

theorem Expands.unique (h : Expands bodies t s) (hr : Expands bodies t r) : s = r := by
  induction h generalizing r with
  | nil =>
    cases hr
    rfl
  | chars text _ ih =>
    cases hr with
    | chars _ hr => rw [ih hr]
  | slot hk _ _ ihb ih =>
    cases hr with
    | slot hk' hb' hr =>
      obtain rfl := Option.some.inj (hk.symm.trans hk')
      rw [ihb hb', ih hr]

/-- A template expands to its fill if what is put into each slot expands to the slot's text. -/
theorem Expands.bind {α : Type} {f : α → Template Nat} {g : α → String} {t : Template α}
    (h : ∀ a ∈ t.slots, Expands bodies (f a) (g a)) : Expands bodies (t.bind f) (t.fill g) := by
  induction t with
  | nil => exact .nil
  | cons p t ih =>
    cases p with
    | chars text => exact .chars text (ih h)
    | slot a =>
      have ha : Expands bodies (f a) (g a) := h a List.mem_cons_self
      exact ha.append (ih fun b hb => h b (List.mem_cons_of_mem a hb))

end Expands

variable {roots : List Expr} {e : Expr} {j k : Nat}

/-- The bound nodes are the nodes of the graph that are referenced more than once and are not
leaves. -/
theorem mem_bound (h : Coherent roots) :
    e ∈ bound roots ↔ e ∈ graph roots ∧ 1 < references roots e ∧ e.isLeaf = false := by
  rw [bound, List.mem_filter, mem_finished h]
  simp [isBound]

theorem bound_nodup (h : Coherent roots) : (bound roots).Nodup :=
  (finished_stage h).nodup.of_map.filter _

theorem shared_eq (roots : List Expr) (e : Expr) :
    shared roots e =
      match (bound roots).idxOf? e with
      | some k => bindingName k
      | none => body roots e :=
  fold_eq _ e

theorem outline_eq (roots : List Expr) (e : Expr) :
    outline roots e =
      match (bound roots).idxOf? e with
      | some k => [.slot k]
      | none => bodyOutline roots e := by
  rw [outline, fold_eq, Node.template_map, Template.bind_bind]
  simp only [Template.bind, List.append_nil]
  rfl

/-- Writing each reference out as a name gives the text of a binding. -/
theorem fill_bodyOutline_of_operands
    (h : ∀ a ∈ e.operands, (outline roots a).fill bindingName = shared roots a) :
    (bodyOutline roots e).fill bindingName = body roots e := by
  rw [bodyOutline, body, Template.fill_bind, ← Node.text_map]
  exact congrArg Node.text (Node.map_congr_operands h)

theorem fill_outline (roots : List Expr) (e : Expr) :
    (outline roots e).fill bindingName = shared roots e := by
  induction e using induction_on_operands with
  | step e ih =>
    rw [outline_eq, shared_eq]
    cases (bound roots).idxOf? e with
    | some k => simp [Template.fill]
    | none => exact fill_bodyOutline_of_operands ih

theorem fill_bodyOutline (roots : List Expr) (e : Expr) :
    (bodyOutline roots e).fill bindingName = body roots e :=
  fill_bodyOutline_of_operands fun a _ => fill_outline roots a

theorem mem_slots_bodyOutline :
    j ∈ (bodyOutline roots e).slots ↔ ∃ a ∈ e.operands, j ∈ (outline roots a).slots := by
  rw [bodyOutline, Template.slots_bind, Node.slots_template, List.mem_flatMap]
  rfl

theorem getElem?_of_idxOf? {es : List Expr} (h : es.idxOf? e = some k) : es[k]? = some e := by
  obtain ⟨hk, he, -⟩ := List.idxOf?_eq_some_iff.1 h
  rw [List.getElem?_eq_getElem hk, he]

/-- References in the text of a node stand for bound nodes below it. -/
theorem getElem?_of_mem_slots_outline (h : j ∈ (outline roots e).slots) :
    ∃ x ∈ e.nodes, (bound roots)[j]? = some x := by
  induction e using induction_on_operands with
  | step e ih =>
    rw [outline_eq] at h
    cases hk : (bound roots).idxOf? e with
    | some k =>
      rw [hk] at h
      obtain rfl : j = k := by simpa [Template.slots] using h
      exact ⟨e, self_mem_nodes e, getElem?_of_idxOf? hk⟩
    | none =>
      rw [hk] at h
      obtain ⟨a, ha, hj⟩ := mem_slots_bodyOutline.1 h
      obtain ⟨x, hx, hxj⟩ := ih a ha hj
      exact ⟨x, mem_nodes_of_operand ha hx, hxj⟩

/-- A binding only refers to earlier ones. -/
theorem lt_of_mem_slots_bodyOutline (h : Coherent roots) (he : (bound roots)[k]? = some e)
    (hj : j ∈ (bodyOutline roots e).slots) : j < k := by
  obtain ⟨a, ha, hj⟩ := mem_slots_bodyOutline.1 hj
  obtain ⟨x, hx, hxj⟩ := getElem?_of_mem_slots_outline hj
  obtain ⟨hk, rfl⟩ := List.getElem?_eq_some_iff.1 he
  obtain ⟨hj, rfl⟩ := List.getElem?_eq_some_iff.1 hxj
  -- A node that is bound later is finished later, and so is not below an earlier one.
  have hafter : (bound roots).Pairwise fun x y => y ∉ x.nodes :=
    (finished_stage h).pairwise h |>.filter _
  rcases Nat.lt_trichotomy j k with hlt | rfl | hgt
  · exact hlt
  · exact absurd hx (not_mem_nodes_operand ha)
  · have hbelow := List.pairwise_iff_getElem.1 hafter k j hk hj hgt
    exact absurd (mem_nodes_of_operand ha hx) hbelow

theorem expands_bodyOutline_of_operands
    (h : ∀ a ∈ e.operands, Expands (outlines roots) (outline roots a) a.text) :
    Expands (outlines roots) (bodyOutline roots e) e.text := by
  have htext : e.text = e.node.template.fill Expr.text := by
    rw [← Node.text_map, Expr.text, fold_eq]
    rfl
  rw [htext]
  refine Expands.bind fun a ha => h a ?_
  rwa [Node.slots_template] at ha

/-- With every reference replaced, the text of a node is its nested text. -/
theorem expands_outline (roots : List Expr) (e : Expr) :
    Expands (outlines roots) (outline roots e) e.text := by
  induction e using induction_on_operands with
  | step e ih =>
    have hbody := expands_bodyOutline_of_operands ih
    rw [outline_eq]
    cases hk : (bound roots).idxOf? e with
    | none => exact hbody
    | some k =>
      have houtlines : (outlines roots)[k]? = some (bodyOutline roots e) := by
        rw [outlines, List.getElem?_map, getElem?_of_idxOf? hk]
        rfl
      simpa using Expands.slot houtlines hbody .nil

theorem expands_outline_iff {s : String} :
    Expands (outlines roots) (outline roots e) s ↔ s = e.text := by
  constructor
  · intro h
    exact h.unique (expands_outline roots e)
  · rintro rfl
    exact expands_outline roots e

end SharedText

end ShaderAlgebra
