import Mathlib.Algebra.GroupWithZero.Nat
import Mathlib.Data.List.Perm.Subperm
import ShaderAlgebra.Proofs.SharedText.Authorship

/-!
# The length of shared text

Each place of a node has a short text of its own, the name of a binding or a
leaf, or else the text of a rule that is written there. As a rule is written once
for each node with operands, the length of the whole is linear in the number of
nodes and roots.
-/

namespace ShaderAlgebra

namespace Template

variable {α : Type}

/-- The number of characters around the slots. -/
def width : Template α → Nat
  | [] => 0
  | .chars text :: rest => text.length + width rest
  | .slot _ :: rest => width rest

theorem length_fill (f : α → String) (t : Template α) :
    (t.fill f).length = t.width + (t.slots.map fun a => (f a).length).sum := by
  induction t with
  | nil => rfl
  | cons p t ih =>
    cases p with
    | chars text => rw [fill, String.length_append, ih, width, slots, Nat.add_assoc]
    | slot a =>
      rw [fill, String.length_append, ih, width, slots, List.map_cons, List.sum_cons]
      omega

end Template

theorem UnaryOp.width_template_le {α : Type} (op : UnaryOp) (a : α) :
    (op.template a).width ≤ 20 := by
  cases op with
  | channel i =>
    match i with
    | 0 | 1 | 2 | 3 => exact Nat.le_of_ble_eq_true rfl
  | random perElement => cases perElement <;> exact Nat.le_of_ble_eq_true rfl
  | _ => exact Nat.le_of_ble_eq_true rfl

theorem BinaryOp.width_template_le {α : Type} (op : BinaryOp) (a b : α) :
    (op.template a b).width ≤ 20 := by
  cases op <;> exact Nat.le_of_ble_eq_true rfl

theorem ValueType.length_name_le (t : ValueType) : t.name.length ≤ 6 := by
  cases t <;> decide

namespace Expr

theorem width_template_le {e : Expr} (h : e.isLeaf = false) : e.node.template.width ≤ 20 := by
  cases e with
  | leaf => cases h
  | unary _ op a => exact op.width_template_le a
  | binary _ op a b => exact op.width_template_le a b
  | vec2 | vec3 | vec4 => exact Nat.le_of_ble_eq_true rfl

theorem length_operands_le (e : Expr) : e.operands.length ≤ 4 := by
  cases e <;> simp [operands, node, Node.operands]

end Expr

namespace SharedText

open ShaderAlgebra.Expr

def digits (n : Nat) : Nat := (toString n).length

theorem digits_eq (n : Nat) : digits n = (Nat.toDigits 10 n).length := by
  simp [digits, Nat.repr]

theorem digits_pos (n : Nat) : 0 < digits n := by
  rw [digits_eq]
  exact Nat.length_toDigits_pos

theorem digits_mono {m n : Nat} (h : m ≤ n) : digits m ≤ digits n := by
  have hn : n < 10 ^ digits n :=
    (Nat.length_toDigits_le_iff (by decide) (digits_pos n)).1 (Nat.le_of_eq (digits_eq n).symm)
  rw [digits_eq m, Nat.length_toDigits_le_iff (by decide) (digits_pos n)]
  exact Nat.lt_of_le_of_lt h hn

theorem length_bindingName (k : Nat) : (bindingName k).length = digits k + 1 := by
  rw [bindingName, String.length_append, digits, Nat.add_comm]
  rfl

/-- The room for the rule of a node, with `room` characters for each operand; a leaf needs
none of its own. -/
def ruleRoom (room : Nat) (e : Expr) : Nat := if e.isLeaf then 0 else 20 + 4 * room

def rulesRoom (room : Nat) (es : List Expr) : Nat := (es.map (ruleRoom room)).sum

theorem rulesRoom_append (room : Nat) (es es' : List Expr) :
    rulesRoom room (es ++ es') = rulesRoom room es + rulesRoom room es' := by
  simp [rulesRoom]

section Room

variable {roots es : List Expr} {e : Expr} {room : Nat}

/-- A bound along a list from a bound at each member. -/
theorem sum_length_le {α : Type} {as : List α} {c : Nat} {f : α → Nat} {g : α → List Expr}
    (h : ∀ a ∈ as, f a ≤ c + rulesRoom room (g a)) :
    (as.map f).sum ≤ as.length * c + rulesRoom room (as.flatMap g) := by
  induction as with
  | nil => simp [rulesRoom]
  | cons a as ih =>
    rw [List.forall_mem_cons] at h
    have hrest := ih h.2
    rw [List.map_cons, List.sum_cons, List.flatMap_cons, rulesRoom_append, List.length_cons,
      Nat.add_mul]
    omega

theorem sum_length_mapIdx_le {c : Nat} {f : Nat → Expr → String} {g : Expr → List Expr}
    (h : ∀ k < es.length, ∀ e ∈ es, (f k e).length ≤ c + rulesRoom room (g e)) :
    ((es.mapIdx f).map String.length).sum ≤ es.length * c + rulesRoom room (es.flatMap g) := by
  have hsum := sum_length_le (f := fun p => (f p.2 p.1).length) (g := fun p => g p.1)
    fun p (hp : p ∈ es.zipIdx) =>
      h p.2 (List.snd_lt_of_mem_zipIdx hp) p.1 (List.fst_mem_of_mem_zipIdx hp)
  have hflat : (es.zipIdx.flatMap fun p => g p.1) = es.flatMap g := by
    conv_rhs => rw [← List.zipIdx_map_fst 0 es, List.flatMap_map]
  rw [hflat, List.length_zipIdx] at hsum
  rw [List.mapIdx_eq_zipIdx_map, List.map_map]
  exact hsum

/-- The texts of leaves and the names of bindings fit into a room. -/
structure Fits (roots : List Expr) (room : Nat) : Prop where
  leaf : ∀ e ∈ graph roots, e.isLeaf = true → e.text.length ≤ room
  name : ∀ k < (bound roots).length, (bindingName k).length ≤ room

theorem body_of_isLeaf (h : e.isLeaf = true) : body roots e = e.text := by
  cases e with
  | leaf => rfl
  | _ => cases h

theorem length_body_le_of_operands (hleaf : e.isLeaf = false) (h : ∀ a ∈ e.operands,
      (shared roots a).length ≤ room + rulesRoom room (writtenAt roots a)) :
    (body roots e).length ≤ rulesRoom room (writtenInBody roots e) := by
  have hwidth := width_template_le hleaf
  have hoperands : (e.operands.map fun a => (shared roots a).length).sum ≤
      e.operands.length * room + rulesRoom room (e.operands.flatMap (writtenAt roots)) :=
    sum_length_le h
  have hcount := Nat.mul_le_mul_right room e.length_operands_le
  have hself : rulesRoom room [e] = 20 + 4 * room := by
    simp [rulesRoom, ruleRoom, hleaf]
  rw [body, Node.text_map, Template.length_fill, Node.slots_template, writtenInBody,
    rulesRoom_append, hself]
  change _ + (e.operands.map fun a => (shared roots a).length).sum ≤ _
  omega

/-- A place of a node has a short text, or else there is room in the rules written there. -/
theorem length_shared_le (hfits : Fits roots room) (he : e ∈ graph roots) :
    (shared roots e).length ≤ room + rulesRoom room (writtenAt roots e) := by
  induction e using induction_on_operands with
  | step e ih =>
    rw [shared_eq, writtenAt_eq]
    cases hk : (bound roots).idxOf? e with
    | some k =>
      obtain ⟨hlt, -, -⟩ := List.idxOf?_eq_some_iff.1 hk
      exact Nat.le_add_right_of_le (hfits.name k hlt)
    | none =>
      rw [if_neg (List.idxOf?_eq_none_iff.1 hk)]
      cases hleaf : e.isLeaf with
      | true =>
        have hshort := hfits.leaf e he hleaf
        rw [← body_of_isLeaf hleaf] at hshort
        exact Nat.le_add_right_of_le hshort
      | false =>
        have hbody := length_body_le_of_operands hleaf fun a ha => ih a ha (operand_mem_graph he ha)
        exact Nat.le_add_left_of_le hbody

theorem length_bindingText_le (h : Coherent roots) (hfits : Fits roots room) {k : Nat}
    (hk : k < (bound roots).length) (he : e ∈ bound roots) :
    (bindingText k e.type (body roots e)).length ≤
      (16 + room) + rulesRoom room (writtenInBody roots e) := by
  obtain ⟨hgraph, -, hleaf⟩ := (mem_bound h).1 he
  have hname := hfits.name k hk
  have htype := e.type.length_name_le
  have hbody := length_body_le_of_operands hleaf fun a ha =>
    length_shared_le hfits (operand_mem_graph hgraph ha)
  have hframe : (bindingText k e.type (body roots e)).length =
      10 + (bindingName k).length + e.type.name.length + (body roots e).length := by
    simp only [bindingText, String.length_append]
    change 4 + _ + 2 + _ + 3 + _ + 1 = _
    omega
  omega

theorem length_bindings_le (h : Coherent roots) (hfits : Fits roots room) :
    (((bound roots).mapIdx fun k e => bindingText k e.type (body roots e)).map String.length).sum ≤
      (bound roots).length * (16 + room) +
        rulesRoom room ((bound roots).flatMap (writtenInBody roots)) :=
  sum_length_mapIdx_le fun _ hk _ he => length_bindingText_le h hfits hk he

/-- The lines need room for the frames and the names of the bindings, for the places of the
roots, and for the rules that are written. -/
theorem length_lines_le (h : Coherent roots) (hfits : Fits roots room) :
    ((render roots).lines.map String.length).sum ≤
      (bound roots).length * (16 + room) + roots.length * room +
        rulesRoom room (written roots) := by
  have hbindings := length_bindings_le h hfits
  have hroots : ((roots.map (shared roots)).map String.length).sum ≤
      roots.length * room + rulesRoom room (roots.flatMap (writtenAt roots)) := by
    rw [List.map_map]
    exact sum_length_le fun e he => length_shared_le hfits (root_mem_graph he)
  rw [render_eq h, lines, List.map_append, List.sum_append, written, rulesRoom_append]
  dsimp only
  omega

abbrev distinct (roots : List Expr) : List Expr := (graph roots).dedup

theorem length_le_distinct {es : List Expr} (hnodup : es.Nodup) (hes : es ⊆ graph roots) :
    es.length ≤ (distinct roots).length :=
  (List.Nodup.subperm hnodup fun _ hx => List.mem_dedup.2 (hes hx)).length_le

theorem rulesRoom_eq (room : Nat) (es : List Expr) :
    rulesRoom room es = (es.filter fun e => !e.isLeaf).length * (20 + 4 * room) := by
  induction es with
  | nil => simp [rulesRoom]
  | cons e es ih =>
    rw [← List.singleton_append, rulesRoom_append, ih, List.filter_append, List.length_append,
      Nat.add_mul]
    cases hleaf : e.isLeaf <;> simp [rulesRoom, ruleRoom, hleaf]

theorem nodup_written_operands (h : Coherent roots) :
    ((written roots).filter fun e => !e.isLeaf).Nodup := by
  refine List.nodup_iff_count_le_one.2 fun e => ?_
  by_cases he : e ∈ (written roots).filter fun e => !e.isLeaf
  · obtain ⟨hmem, hleaf⟩ := List.mem_filter.1 he
    have hone : (written roots).count e = 1 := by
      rw [count_written_eq h (written_subset h hmem), if_neg (by simpa using hleaf)]
    calc ((written roots).filter fun e => !e.isLeaf).count e
        = (written roots).count e := List.count_filter hleaf
      _ ≤ 1 := Nat.le_of_eq hone
  · rw [List.count_eq_zero.2 he]
    exact Nat.zero_le 1

/-- A rule with operands is written for each distinct node at most. -/
theorem rulesRoom_written_le (h : Coherent roots) (room : Nat) :
    rulesRoom room (written roots) ≤ (distinct roots).length * (20 + 4 * room) := by
  rw [rulesRoom_eq]
  refine Nat.mul_le_mul_right _ (length_le_distinct (nodup_written_operands h) fun e he => ?_)
  exact written_subset h (List.mem_filter.1 he).1

/-- There is room for every place if there is for each leaf, and for as many digits as the
number of nodes has. -/
theorem fits_of_leaves (h : Coherent roots) {longest : Nat}
    (hleaves : ∀ e ∈ graph roots, e.isLeaf = true → e.text.length ≤ longest) :
    Fits roots (longest + digits (distinct roots).length + 1) where
  leaf e he hleaf := by
    have hle := hleaves e he hleaf
    omega
  name k hk := by
    have hbound := length_le_distinct (bound_nodup h) fun e he => ((mem_bound h).1 he).1
    have hdigits := digits_mono (Nat.le_trans (Nat.le_of_lt hk) hbound)
    rw [length_bindingName]
    omega

/-- The bound on the lines, for leaves of any length. -/
theorem length_lines_le_of_leaves (h : Coherent roots) {longest : Nat}
    (hleaves : ∀ e ∈ graph roots, e.isLeaf = true → e.text.length ≤ longest) :
    ((render roots).lines.map String.length).sum ≤
      64 * ((distinct roots).length + roots.length) *
        (longest + digits (distinct roots).length) := by
  have hlines := length_lines_le h (fits_of_leaves h hleaves)
  have hrules := rulesRoom_written_le h (longest + digits (distinct roots).length + 1)
  have hbound := length_le_distinct (bound_nodup h) fun e he => ((mem_bound h).1 he).1
  have hpos := digits_pos (distinct roots).length
  generalize digits (distinct roots).length = d at *
  generalize (distinct roots).length = n at *
  have hframes : (bound roots).length * (16 + (longest + d + 1)) ≤ n * (18 * (longest + d)) :=
    Nat.mul_le_mul hbound (by omega)
  have hplaces : roots.length * (longest + d + 1) ≤ roots.length * (2 * (longest + d)) :=
    Nat.mul_le_mul_left _ (by omega)
  have hnodes : n * (20 + 4 * (longest + d + 1)) ≤ n * (28 * (longest + d)) :=
    Nat.mul_le_mul_left _ (by omega)
  calc ((render roots).lines.map String.length).sum
    _ ≤ n * (18 * (longest + d)) + roots.length * (2 * (longest + d)) +
        n * (28 * (longest + d)) := by omega
    _ ≤ 64 * (n + roots.length) * (longest + d) := by
      have hsplit : 64 * (n + roots.length) * (longest + d) =
          64 * (n * (longest + d)) + 64 * (roots.length * (longest + d)) := by
        rw [Nat.mul_assoc, Nat.add_mul, Nat.mul_add]
      rw [hsplit, Nat.mul_left_comm n, Nat.mul_left_comm n, Nat.mul_left_comm roots.length]
      omega

theorem author_mem_graph (h : Coherent roots) {s : Stretch}
    (hs : s ∈ (lineStretches roots).flatten) (hauthor : s.author = some e) : e ∈ graph roots := by
  have hmem : s ∈ authored e (lineStretches roots).flatten :=
    List.mem_filter.2 ⟨hs, by simpa using hauthor⟩
  rw [authored_lineStretches] at hmem
  have hcount : 0 < (written roots).count e := by
    refine Nat.pos_of_ne_zero fun hzero => ?_
    rw [hzero] at hmem
    cases hmem
  exact written_subset h (List.count_pos_iff.1 hcount)

/-- Rendering writes the rule of each distinct node with operands exactly once, over all lines
together, and a leaf once for each root and operand slot that refers to it. So the lines are
linear in the numbers of distinct nodes and of roots: their length also depends on the longest
leaf and on the decimal digits of the number of nodes. -/
theorem render_linear (h : Coherent roots) :
    (render roots).lines = (lineStretches roots).map joined ∧
    (∀ e ∈ graph roots, e.isLeaf = false →
      authored e (lineStretches roots).flatten = own e) ∧
    (∀ e ∈ graph roots, e.isLeaf = true →
      authored e (lineStretches roots).flatten =
        (List.replicate (references roots e) (own e)).flatten) ∧
    (∀ s ∈ (lineStretches roots).flatten, match s.author with
      | some e => e ∈ graph roots
      | none => Unsigned s.text) ∧
    ∀ longest, (∀ e ∈ graph roots, e.isLeaf = true → e.text.length ≤ longest) →
      ((render roots).lines.map String.length).sum ≤
        64 * ((distinct roots).length + roots.length) *
          (longest + digits (distinct roots).length) := by
  refine ⟨lines_render h, fun e he hleaf => ?_, fun e he hleaf => ?_, fun s hs => ?_,
    fun _ hleaves => length_lines_le_of_leaves h hleaves⟩
  · rw [authored_lineStretches, count_written_eq h he, hleaf]
    exact List.append_nil _
  · rw [authored_lineStretches, count_written_eq h he, hleaf]
    rfl
  · cases hauthor : s.author with
    | none => exact unsigned_of_mem_lineStretches hs hauthor
    | some e => exact author_mem_graph h hs hauthor

theorem render_linear_doubledSquare :
    Coherent doubledSquare ∧
      (∀ e ∈ graph doubledSquare, e.isLeaf = false →
        authored e (lineStretches doubledSquare).flatten = own e) ∧
      ((render doubledSquare).lines.map String.length).sum ≤ 64 * (3 + 3) * (1 + 1) := by
  have h : Coherent doubledSquare := by decide
  have hnodes : (distinct doubledSquare).length = 3 := by decide
  have hdigits : digits 3 = 1 := by decide
  obtain ⟨-, howns, -, -, hlength⟩ := render_linear h
  rw [hnodes, hdigits] at hlength
  exact ⟨h, howns, hlength 1 (by decide)⟩

end Room

end SharedText

end ShaderAlgebra
