import ShaderAlgebra.Proofs.SharedText.Rendering

/-!
# Who writes which text

The shared text is cut into stretches. The rule of a node writes the stretches
around its operands and is their author; the names and the frames of bindings
have no author. `written` lists the nodes that are authors, once for each time
that their rule is written. A node that is not bound is written wherever it is
referenced by a written node, so that by induction from the users of a node to
the node itself each node with operands is written once.
-/

namespace ShaderAlgebra

/-- A stretch of text, and the node whose rule it comes from. -/
structure Stretch where
  author : Option Expr
  text : String

def joined (stretches : List Stretch) : String := String.join (stretches.map Stretch.text)

/-- The stretches of one author, in their order. -/
def authored (e : Expr) (stretches : List Stretch) : List Stretch :=
  stretches.filter (·.author = some e)

theorem joined_append (ss ss' : List Stretch) : joined (ss ++ ss') = joined ss ++ joined ss' := by
  simp [joined]

theorem authored_append (e : Expr) (ss ss' : List Stretch) :
    authored e (ss ++ ss') = authored e ss ++ authored e ss' :=
  List.filter_append _ _

theorem authored_flatMap {α : Type} (e : Expr) (as : List α) (f : α → List Stretch) :
    authored e (as.flatMap f) = as.flatMap fun a => authored e (f a) :=
  List.filter_flatMap ..

namespace Template

variable {α β : Type}

/-- A text with the stretches of its slots, signed by an author. -/
def signed (author : Expr) (f : α → List Stretch) : Template α → List Stretch
  | [] => []
  | .chars text :: rest => ⟨some author, text⟩ :: signed author f rest
  | .slot a :: rest => f a ++ signed author f rest

variable {e x : Expr} {f : α → List Stretch}

theorem joined_signed (e : Expr) (f : α → List Stretch) (t : Template α) :
    joined (t.signed e f) = t.fill fun a => joined (f a) := by
  induction t with
  | nil => rfl
  | cons p t ih =>
    cases p with
    | chars text =>
      rw [signed, fill, ← ih]
      simp [joined]
    | slot a => rw [signed, fill, joined_append, ih]

theorem signed_bind (e : Expr) (f : α → Template β) (g : β → List Stretch) (t : Template α) :
    (t.bind f).signed e g = t.signed e fun a => (f a).signed e g := by
  have happend (t u : Template β) : signed e g (t ++ u) = signed e g t ++ signed e g u := by
    induction t with
    | nil => rfl
    | cons p t ih => cases p <;> simp [signed, ih]
  induction t with
  | nil => rfl
  | cons p t ih => cases p <;> simp [signed, bind, ih, happend]

/-- Other authors only come in through the slots. -/
theorem authored_signed_of_ne (h : x ≠ e) (t : Template α) :
    authored x (t.signed e f) = t.slots.flatMap fun a => authored x (f a) := by
  induction t with
  | nil => rfl
  | cons p t ih =>
    cases p with
    | chars text =>
      rw [signed, slots, ← ih, authored, List.filter_cons_of_neg (by simpa using h.symm)]
      rfl
    | slot a => rw [signed, slots, authored_append, ih, List.flatMap_cons]

theorem authored_signed_self {t : Template α} (h : ∀ a ∈ t.slots, authored e (f a) = []) :
    authored e (t.signed e f) = t.signed e fun _ => [] := by
  induction t with
  | nil => rfl
  | cons p t ih =>
    cases p with
    | chars text =>
      rw [signed, signed, authored, List.filter_cons_of_pos (by simp)]
      exact congrArg _ (ih h)
    | slot a =>
      rw [slots, List.forall_mem_cons] at h
      rw [signed, signed, authored_append, h.1, ih h.2]

theorem mem_slots_of_mem_signed {s : Stretch} {t : Template α} (hs : s ∈ t.signed e f)
    (hauthor : s.author = none) : ∃ a ∈ t.slots, s ∈ f a := by
  induction t with
  | nil => cases hs
  | cons p t ih =>
    cases p with
    | chars text =>
      rcases List.mem_cons.1 hs with rfl | hs
      · cases hauthor
      · exact ih hs
    | slot a =>
      rcases List.mem_append.1 hs with hs | hs
      · exact ⟨a, List.mem_cons_self, hs⟩
      · obtain ⟨b, hb, hsb⟩ := ih hs
        exact ⟨b, List.mem_cons_of_mem a hb, hsb⟩

end Template

namespace SharedText

open ShaderAlgebra.Expr

/-- What the rule of a node writes itself. -/
def own (e : Expr) : List Stretch := e.node.template.signed e fun _ => []

/-- The stretches at a place of a node. -/
def placeStretches (roots : List Expr) (e : Expr) : List Stretch :=
  e.fold fun e n =>
    match (bound roots).idxOf? e with
    | some k => [⟨none, bindingName k⟩]
    | none => n.template.signed e fun ss => ss

def bodyStretches (roots : List Expr) (e : Expr) : List Stretch :=
  e.node.template.signed e (placeStretches roots)

/-- What stands before the text of a node in its binding. -/
def opening (k : Nat) (e : Expr) : String :=
  "let " ++ bindingName k ++ ": " ++ e.type.name ++ " = "

def bindingStretches (roots : List Expr) (k : Nat) (e : Expr) : List Stretch :=
  ⟨none, opening k e⟩ :: bodyStretches roots e ++ [⟨none, ";"⟩]

def lineStretches (roots : List Expr) : List (List Stretch) :=
  (bound roots).mapIdx (bindingStretches roots) ++ roots.map (placeStretches roots)

variable {roots es : List Expr} {e x : Expr}

theorem placeStretches_eq (roots : List Expr) (e : Expr) :
    placeStretches roots e =
      match (bound roots).idxOf? e with
      | some k => [⟨none, bindingName k⟩]
      | none => bodyStretches roots e := by
  rw [placeStretches, fold_eq, Node.template_map, Template.signed_bind]
  simp only [Template.signed, List.append_nil]
  rfl

theorem joined_bodyStretches_of_operands
    (h : ∀ a ∈ e.operands, joined (placeStretches roots a) = shared roots a) :
    joined (bodyStretches roots e) = body roots e := by
  rw [bodyStretches, body, Template.joined_signed, ← Node.text_map]
  exact congrArg Node.text (Node.map_congr_operands h)

theorem joined_placeStretches (roots : List Expr) (e : Expr) :
    joined (placeStretches roots e) = shared roots e := by
  induction e using induction_on_operands with
  | step e ih =>
    rw [placeStretches_eq, shared_eq]
    cases (bound roots).idxOf? e with
    | some k => simp [joined]
    | none => exact joined_bodyStretches_of_operands ih

theorem joined_bodyStretches (roots : List Expr) (e : Expr) :
    joined (bodyStretches roots e) = body roots e :=
  joined_bodyStretches_of_operands fun a _ => joined_placeStretches roots a

theorem joined_bindingStretches (roots : List Expr) (k : Nat) (e : Expr) :
    joined (bindingStretches roots k e) = bindingText k e.type (body roots e) := by
  rw [bindingStretches, List.cons_append, ← joined_bodyStretches, bindingText]
  simp [joined, opening, String.append_assoc]

/-- The lines of a rendering are cut into their stretches. -/
theorem lines_render (h : Coherent roots) :
    (render roots).lines = (lineStretches roots).map joined := by
  have hbindings : ((bound roots).mapIdx (bindingStretches roots)).map joined =
      (bound roots).mapIdx fun k e => bindingText k e.type (body roots e) := by
    simp [List.mapIdx_eq_zipIdx_map, joined_bindingStretches]
  have hroots : (roots.map (placeStretches roots)).map joined = roots.map (shared roots) := by
    simp [joined_placeStretches]
  rw [render_eq h, lines, lineStretches, List.map_append, hbindings, hroots]

/-- The texts of no author: the names and the frames of bindings. -/
inductive Unsigned : String → Prop
  | name (k : Nat) : Unsigned (bindingName k)
  | opening (k : Nat) (e : Expr) : Unsigned (opening k e)
  | closing : Unsigned ";"

theorem unsigned_of_mem_placeStretches {s : Stretch} (hs : s ∈ placeStretches roots e)
    (hauthor : s.author = none) : Unsigned s.text := by
  induction e using induction_on_operands with
  | step e ih =>
    rw [placeStretches_eq] at hs
    cases hk : (bound roots).idxOf? e with
    | some k =>
      rw [hk] at hs
      obtain rfl := List.mem_singleton.1 hs
      exact .name k
    | none =>
      rw [hk] at hs
      obtain ⟨a, ha, hsa⟩ := Template.mem_slots_of_mem_signed hs hauthor
      rw [Node.slots_template] at ha
      exact ih a ha hsa

theorem unsigned_of_mem_lineStretches {s : Stretch} (hs : s ∈ (lineStretches roots).flatten)
    (hauthor : s.author = none) : Unsigned s.text := by
  obtain ⟨line, hline, hs⟩ := List.mem_flatten.1 hs
  rcases List.mem_append.1 hline with hline | hline
  · obtain ⟨k, hk, rfl⟩ := List.mem_mapIdx.1 hline
    simp only [bindingStretches, List.cons_append, List.mem_cons, List.mem_append,
      List.not_mem_nil, or_false] at hs
    rcases hs with rfl | hs | rfl
    · exact .opening k _
    · obtain ⟨a, -, hsa⟩ := Template.mem_slots_of_mem_signed hs hauthor
      exact unsigned_of_mem_placeStretches hsa hauthor
    · exact .closing
  · obtain ⟨r, -, rfl⟩ := List.mem_map.1 hline
    exact unsigned_of_mem_placeStretches hs hauthor

/-- The nodes whose rules are written at a place of a node. -/
def writtenAt (roots : List Expr) (e : Expr) : List Expr :=
  e.fold fun e n => if e ∈ bound roots then [] else n.operands.flatten ++ [e]

/-- The nodes whose rules are written in the text of a node's binding. -/
def writtenInBody (roots : List Expr) (e : Expr) : List Expr :=
  e.operands.flatMap (writtenAt roots) ++ [e]

/-- The nodes whose rules are written, once for each time. -/
def written (roots : List Expr) : List Expr :=
  (bound roots).flatMap (writtenInBody roots) ++ roots.flatMap (writtenAt roots)

theorem writtenAt_eq (roots : List Expr) (e : Expr) :
    writtenAt roots e = if e ∈ bound roots then [] else writtenInBody roots e := by
  rw [writtenAt, fold_eq, Node.operands_map]
  rfl

theorem writtenInBody_subset_of_operands (h : ∀ a ∈ e.operands, writtenAt roots a ⊆ a.nodes) :
    writtenInBody roots e ⊆ e.nodes := by
  intro x hx
  rw [writtenInBody, List.mem_append, List.mem_flatMap, List.mem_singleton] at hx
  rcases hx with ⟨a, ha, hxa⟩ | rfl
  · exact mem_nodes_of_operand ha (h a ha hxa)
  · exact self_mem_nodes x

theorem writtenAt_subset (roots : List Expr) (e : Expr) : writtenAt roots e ⊆ e.nodes := by
  induction e using induction_on_operands with
  | step e ih =>
    rw [writtenAt_eq]
    split
    · exact List.nil_subset _
    · exact writtenInBody_subset_of_operands ih

theorem writtenInBody_subset (roots : List Expr) (e : Expr) : writtenInBody roots e ⊆ e.nodes :=
  writtenInBody_subset_of_operands fun a _ => writtenAt_subset roots a

theorem written_subset (h : Coherent roots) : written roots ⊆ graph roots := by
  intro x hx
  rw [written, List.mem_append, List.mem_flatMap, List.mem_flatMap] at hx
  rcases hx with ⟨b, hb, hxb⟩ | ⟨r, hr, hxr⟩
  · exact mem_graph_of_mem_nodes ((mem_bound h).1 hb).1 (writtenInBody_subset roots b hxb)
  · exact mem_graph_of_mem_nodes (root_mem_graph hr) (writtenAt_subset roots r hxr)

theorem not_mem_writtenAt_operand {a : Expr} (ha : a ∈ e.operands) : e ∉ writtenAt roots a :=
  fun he => not_mem_nodes_operand ha (writtenAt_subset roots a he)

/-- What a list of nodes writes of one author, if it is on the list `n` times. -/
def copies (x : Expr) (n : Nat) : List Stretch := (List.replicate n (own x)).flatten

theorem copies_add (x : Expr) (m n : Nat) : copies x (m + n) = copies x m ++ copies x n := by
  rw [copies, List.replicate_add, List.flatten_append]
  rfl

theorem flatMap_copies {α : Type} (x : Expr) (as : List α) (f : α → List Expr) :
    (as.flatMap fun a => copies x ((f a).count x)) = copies x ((as.flatMap f).count x) := by
  induction as with
  | nil => rfl
  | cons a as ih =>
    rw [List.flatMap_cons, List.flatMap_cons, ih, List.count_append, copies_add]

theorem authored_bodyStretches_of_operands
    (h : ∀ a ∈ e.operands,
      authored x (placeStretches roots a) = copies x ((writtenAt roots a).count x)) :
    authored x (bodyStretches roots e) = copies x ((writtenInBody roots e).count x) := by
  rw [bodyStretches, writtenInBody, List.count_append]
  by_cases hx : x = e
  · subst hx
    have hzero : ∀ a ∈ x.operands, (writtenAt roots a).count x = 0 := fun a ha =>
      List.count_eq_zero.2 (not_mem_writtenAt_operand ha)
    have hnone : (x.operands.flatMap (writtenAt roots)).count x = 0 := by
      rw [List.count_eq_zero, List.mem_flatMap]
      rintro ⟨a, ha, hxa⟩
      exact not_mem_writtenAt_operand ha hxa
    rw [hnone, List.count_singleton_self, Template.authored_signed_self]
    · exact (List.append_nil _).symm
    · intro a ha
      rw [Node.slots_template] at ha
      rw [h a ha, hzero a ha]
      rfl
  · rw [Template.authored_signed_of_ne hx, Node.slots_template, List.count_singleton,
      if_neg (by simpa using Ne.symm hx), Nat.add_zero, ← flatMap_copies]
    exact List.flatMap_congr h

/-- The author of a stretch has been written, and has written all that his rule writes. -/
theorem authored_placeStretches (roots : List Expr) (x e : Expr) :
    authored x (placeStretches roots e) = copies x ((writtenAt roots e).count x) := by
  induction e using induction_on_operands with
  | step e ih =>
    rw [placeStretches_eq, writtenAt_eq]
    cases hk : (bound roots).idxOf? e with
    | some k =>
      rw [if_pos (List.isSome_idxOf?.1 (by rw [hk]; rfl))]
      rfl
    | none =>
      rw [if_neg (List.idxOf?_eq_none_iff.1 hk)]
      exact authored_bodyStretches_of_operands ih

theorem authored_bindingStretches (roots : List Expr) (k : Nat) (x e : Expr) :
    authored x (bindingStretches roots k e) = copies x ((writtenInBody roots e).count x) := by
  have hbody : authored x (bodyStretches roots e) = copies x ((writtenInBody roots e).count x) :=
    authored_bodyStretches_of_operands fun a _ => authored_placeStretches roots x a
  rw [bindingStretches, List.cons_append, authored, List.filter_cons_of_neg (by simp),
    List.filter_append, ← authored, hbody]
  simp

theorem flatMap_mapIdx {α β γ : Type} {f : Nat → α → β} {g : β → List γ} {g' : α → List γ}
    (h : ∀ k a, g (f k a) = g' a) (as : List α) : (as.mapIdx f).flatMap g = as.flatMap g' := by
  conv_rhs => rw [← List.zipIdx_map_fst 0 as, List.flatMap_map]
  rw [List.mapIdx_eq_zipIdx_map, List.flatMap_map]
  exact List.flatMap_congr fun p _ => h p.2 p.1

theorem authored_lineStretches (roots : List Expr) (x : Expr) :
    authored x (lineStretches roots).flatten = copies x ((written roots).count x) := by
  have hbindings : ((bound roots).mapIdx (bindingStretches roots)).flatMap (authored x) =
      (bound roots).flatMap fun e => copies x ((writtenInBody roots e).count x) :=
    flatMap_mapIdx (fun k e => authored_bindingStretches roots k x e) _
  have hroots : (roots.map (placeStretches roots)).flatMap (authored x) =
      roots.flatMap fun e => copies x ((writtenAt roots e).count x) := by
    rw [List.flatMap_map]
    exact List.flatMap_congr fun e _ => authored_placeStretches roots x e
  rw [← List.flatMap_id, authored_flatMap, lineStretches, List.flatMap_append, written,
    List.count_append, copies_add, ← flatMap_copies, ← flatMap_copies]
  exact congrArg₂ _ hbindings hroots

section Counting

/-- Counting along a list what is counted at each member. -/
theorem count_flatMap_of {f g : Expr → List Expr}
    (h : ∀ a ∈ es, (f a).count x = [a].count x + (g a).count x) :
    (es.flatMap f).count x = es.count x + (es.flatMap g).count x := by
  induction es with
  | nil => rfl
  | cons a es ih =>
    rw [List.forall_mem_cons] at h
    have hcons : ([a] ++ es).count x = [a].count x + es.count x := List.count_append
    rw [List.singleton_append] at hcons
    rw [List.flatMap_cons, List.flatMap_cons, List.count_append, List.count_append, h.1, ih h.2,
      hcons]
    omega

theorem count_writtenInBody_of_operands (h : ∀ a ∈ e.operands, (writtenAt roots a).count x =
      [a].count x + ((writtenAt roots a).flatMap operands).count x) :
    (writtenInBody roots e).count x =
      [e].count x + ((writtenInBody roots e).flatMap operands).count x := by
  have hoperands := count_flatMap_of h
  rw [writtenInBody, List.count_append, List.flatMap_append, List.flatMap_singleton,
    List.count_append, List.flatMap_assoc, hoperands]
  omega

/-- A node that is not bound is written at a place if the place is its own, and as often as
the nodes written there refer to it. -/
theorem count_writtenAt (hx : x ∉ bound roots) (e : Expr) :
    (writtenAt roots e).count x = [e].count x + ((writtenAt roots e).flatMap operands).count x := by
  induction e using induction_on_operands with
  | step e ih =>
    rw [writtenAt_eq]
    by_cases he : e ∈ bound roots
    · have hne : e ≠ x := fun hex => hx (hex ▸ he)
      rw [if_pos he, List.count_singleton, if_neg (by simpa using hne)]
      rfl
    · rw [if_neg he]
      exact count_writtenInBody_of_operands ih

/-- A node that is not bound is written as often as roots and written nodes refer to it. -/
theorem count_written (hx : x ∉ bound roots) :
    (written roots).count x = roots.count x + ((written roots).flatMap operands).count x := by
  have hbody (e : Expr) : (writtenInBody roots e).count x =
      [e].count x + ((writtenInBody roots e).flatMap operands).count x :=
    count_writtenInBody_of_operands fun a _ => count_writtenAt hx a
  have hbodies := count_flatMap_of fun e (_ : e ∈ bound roots) => hbody e
  have hroots := count_flatMap_of fun e (_ : e ∈ roots) => count_writtenAt hx e
  rw [List.count_eq_zero.2 hx] at hbodies
  rw [written, List.count_append, List.flatMap_append, List.count_append, List.flatMap_assoc,
    List.flatMap_assoc, hbodies, hroots]
  omega

theorem not_mem_writtenAt_of_bound (hx : x ∈ bound roots) (e : Expr) : x ∉ writtenAt roots e := by
  induction e using induction_on_operands with
  | step e ih =>
    rw [writtenAt_eq]
    by_cases he : e ∈ bound roots
    · rw [if_pos he]
      exact List.not_mem_nil
    · rw [if_neg he, writtenInBody, List.mem_append, List.mem_flatMap, List.mem_singleton]
      rintro (⟨a, ha, hxa⟩ | rfl)
      · exact ih a ha hxa
      · exact he hx

/-- A bound node is written in its binding only. -/
theorem count_written_of_bound (h : Coherent roots) (hx : x ∈ bound roots) :
    (written roots).count x = 1 := by
  have hwrittenAt (a : Expr) : (writtenAt roots a).count x = 0 :=
    List.count_eq_zero.2 (not_mem_writtenAt_of_bound hx a)
  have hnone (es : List Expr) : (es.flatMap (writtenAt roots)).count x = 0 := by
    simp [List.count_flatMap, Function.comp_def, hwrittenAt]
  have hbody (e : Expr) : (writtenInBody roots e).count x = [e].count x := by
    rw [writtenInBody, List.count_append, hnone, Nat.zero_add]
  have hbodies := count_flatMap_of (g := fun _ => []) fun e (_ : e ∈ bound roots) => hbody e
  rw [written, List.count_append, hnone, hbodies, List.count_eq_one_of_mem (bound_nodup h) hx,
    List.flatMap_eq_nil_iff.2 fun _ _ => rfl]
  rfl

/-- Induction from the users of a node to the node, over the nodes of a graph. -/
theorem induction_on_users {motive : Expr → Prop}
    (step : ∀ x ∈ graph roots, (∀ p ∈ graph roots, x ∈ p.operands → motive p) → motive x)
    (hx : x ∈ graph roots) : motive x := by
  have hle (y : Expr) (hy : y ∈ graph roots) : y.nodes.length ≤ (graph roots).length := by
    obtain ⟨r, hr, hyr⟩ := List.mem_flatMap.1 hy
    have hnodes : r.nodes.Sublist (graph roots) :=
      List.sublist_flatten_of_mem (List.mem_map_of_mem hr)
    exact ((nodes_sublist hyr).trans hnodes).length_le
  -- The induction is on how much of the graph's tree is not below the node.
  induction hn : (graph roots).length - x.nodes.length using Nat.strongRecOn generalizing x with
  | ind n ih =>
    refine step x hx fun p hp hxp => ih _ ?_ hp rfl
    have hshort := (nodes_operand_sublist hxp).length_le
    have hlong := hle p hp
    rw [List.length_append, List.length_singleton] at hshort
    omega

theorem exists_user (hx : x ∈ e.nodes) : x = e ∨ ∃ p ∈ e.nodes, x ∈ p.operands := by
  induction e using induction_on_operands with
  | step e ih =>
    rcases mem_nodes.1 hx with rfl | ⟨a, ha, hxa⟩
    · exact .inl rfl
    · rcases ih a ha hxa with rfl | ⟨p, hp, hxp⟩
      · exact .inr ⟨e, self_mem_nodes e, ha⟩
      · exact .inr ⟨p, mem_nodes_of_operand ha hp, hxp⟩

theorem references_pos (hx : x ∈ graph roots) : 0 < references roots x := by
  obtain ⟨r, hr, hxr⟩ := List.mem_flatMap.1 hx
  rcases exists_user hxr with rfl | ⟨p, hp, hxp⟩
  · exact Nat.add_pos_left (List.count_pos_iff.2 hr) _
  · have hmem : p ∈ (graph roots).dedup :=
      List.mem_dedup.2 (List.mem_flatMap.2 ⟨r, hr, hp⟩)
    exact Nat.add_pos_right _ (List.count_pos_iff.2 (List.mem_flatMap.2 ⟨p, hmem, hxp⟩))

theorem count_flatMap_operands (es : List Expr) (x : Expr) :
    (es.flatMap operands).count x =
      ((es.filter fun p => x ∈ p.operands).flatMap operands).count x := by
  induction es with
  | nil => rfl
  | cons p es ih =>
    by_cases hp : x ∈ p.operands
    · rw [List.filter_cons_of_pos (by simpa using hp), List.flatMap_cons, List.flatMap_cons,
        List.count_append, List.count_append, ih]
    · rw [List.filter_cons_of_neg (by simpa using hp), List.flatMap_cons, List.count_append,
        List.count_eq_zero.2 hp, Nat.zero_add, ih]

/-- If each user of a node is written once, the node is referred to by written nodes as often
as by the nodes of the graph. -/
theorem count_operands_written (h : Coherent roots)
    (husers : ∀ p ∈ graph roots, x ∈ p.operands → (written roots).count p = 1) :
    ((written roots).flatMap operands).count x =
      ((graph roots).dedup.flatMap operands).count x := by
  have hperm : ((written roots).filter fun p => x ∈ p.operands).Perm
      ((graph roots).dedup.filter fun p => x ∈ p.operands) := by
    refine List.perm_iff_count.2 fun p => ?_
    by_cases hp : x ∈ p.operands
    · rw [List.count_filter (by simpa using hp), List.count_filter (by simpa using hp)]
      by_cases hmem : p ∈ graph roots
      · rw [husers p hmem hp,
          List.count_eq_one_of_mem (List.nodup_dedup _) (List.mem_dedup.2 hmem)]
      · rw [List.count_eq_zero.2 fun hw => hmem (written_subset h hw),
          List.count_eq_zero.2 fun hd => hmem (List.mem_dedup.1 hd)]
    · rw [List.count_eq_zero.2 (by simp [hp]), List.count_eq_zero.2 (by simp [hp])]
  rw [count_flatMap_operands, (hperm.flatMap_right operands).count_eq,
    ← count_flatMap_operands]

theorem isLeaf_eq_false_of_operand {a : Expr} (ha : a ∈ e.operands) : e.isLeaf = false := by
  cases e with
  | leaf i l => cases ha
  | _ => rfl

/-- A leaf is written once for each reference to it, and every other node once. -/
theorem count_written_eq (h : Coherent roots) (hx : x ∈ graph roots) :
    (written roots).count x = if x.isLeaf then references roots x else 1 := by
  refine induction_on_users
    (motive := fun x => (written roots).count x = if x.isLeaf then references roots x else 1)
    (fun x hx ih => ?_) hx
  by_cases hbound : x ∈ bound roots
  · rw [count_written_of_bound h hbound, ((mem_bound h).1 hbound).2.2]
    rfl
  · have hcount : (written roots).count x = references roots x := by
      rw [count_written hbound, references, count_operands_written h]
      intro p hp hxp
      rw [ih p hp hxp, isLeaf_eq_false_of_operand hxp]
      rfl
    cases hleaf : x.isLeaf with
    | true => rw [hcount, if_pos rfl]
    | false =>
      have hle : ¬ 1 < references roots x := fun hlt =>
        hbound ((mem_bound h).2 ⟨hx, hlt, hleaf⟩)
      have hpos := references_pos hx
      rw [hcount, if_neg (by decide)]
      omega

end Counting

end SharedText

end ShaderAlgebra
