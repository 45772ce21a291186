import Mathlib.Data.List.Induction
import ShaderAlgebra.Expr.Basic

/-!
# Expressions as graphs

The places of an expression are the nodes of its tree, each with everything
below it. Places with one identity stand for one node of the graph, so a list of
roots describes a graph when identities are coherent: one identity, one node.
A node of a coherent graph is never below itself.

`finished` lists the nodes of a graph in the order in which a depth-first search
finishes them. It holds each node once, and every operand before its user.
-/

namespace ShaderAlgebra

deriving instance DecidableEq for Expr

namespace Node

variable {α β γ : Type}

theorem map_congr_operands {f g : α → β} {n : Node α} (h : ∀ a ∈ n.operands, f a = g a) :
    n.map f = n.map g := by
  cases n <;> simp_all [map, operands]

@[simp] theorem map_map (f : α → β) (g : β → γ) (n : Node α) :
    (n.map f).map g = n.map (g ∘ f) := by
  cases n <;> rfl

/-- Layers that agree under `f` agree under any function that `f` determines on their
operands. -/
theorem map_eq_map_of_factor {f : α → β} {g : α → γ} {m n : Node α} (h : m.map f = n.map f)
    (hg : ∀ a ∈ m.operands, ∀ b ∈ n.operands, f a = f b → g a = g b) : m.map g = n.map g := by
  cases m <;> cases n <;> simp_all [map, operands]

end Node

namespace Expr

/-- Induction along operands, whatever the kind of a node. -/
theorem induction_on_operands {motive : Expr → Prop}
    (step : ∀ e : Expr, (∀ a ∈ e.operands, motive a) → motive e) (e : Expr) : motive e := by
  induction e with
  | leaf i l => exact step _ (by simp [operands, node, Node.operands])
  | unary i op a ha => exact step _ (by simp [operands, node, Node.operands, ha])
  | binary i op a b ha hb => exact step _ (by simp [operands, node, Node.operands, ha, hb])
  | vec2 i x y hx hy => exact step _ (by simp [operands, node, Node.operands, hx, hy])
  | vec3 i x y z hx hy hz => exact step _ (by simp [operands, node, Node.operands, hx, hy, hz])
  | vec4 i x y z w hx hy hz hw =>
    exact step _ (by simp [operands, node, Node.operands, hx, hy, hz, hw])

/-- The nodes at all places of an expression, operands before their user. -/
def nodes (e : Expr) : List Expr := e.fold fun e n => n.operands.flatten ++ [e]

theorem nodes_eq (e : Expr) : e.nodes = e.operands.flatMap nodes ++ [e] := by
  rw [nodes, fold_eq, Node.operands_map]
  rfl

theorem mem_nodes {x e : Expr} : x ∈ e.nodes ↔ x = e ∨ ∃ a ∈ e.operands, x ∈ a.nodes := by
  rw [nodes_eq]
  simp [or_comm]

theorem self_mem_nodes (e : Expr) : e ∈ e.nodes := mem_nodes.2 (.inl rfl)

theorem mem_nodes_of_operand {x a e : Expr} (ha : a ∈ e.operands) (hx : x ∈ a.nodes) :
    x ∈ e.nodes :=
  mem_nodes.2 (.inr ⟨a, ha, hx⟩)

theorem nodes_operand_sublist {a e : Expr} (ha : a ∈ e.operands) :
    (a.nodes ++ [e]).Sublist e.nodes := by
  rw [nodes_eq e]
  exact (List.sublist_flatten_of_mem (List.mem_map_of_mem ha)).append_right [e]

theorem nodes_sublist {x e : Expr} (hx : x ∈ e.nodes) : x.nodes.Sublist e.nodes := by
  induction e using induction_on_operands with
  | step e ih =>
    rcases mem_nodes.1 hx with rfl | ⟨a, ha, hxa⟩
    · exact List.Sublist.refl _
    · have hae : a.nodes.Sublist e.nodes :=
        (List.sublist_append_left _ _).trans (nodes_operand_sublist ha)
      exact (ih a ha hxa).trans hae

theorem mem_nodes_trans {x y e : Expr} (hx : x ∈ y.nodes) (hy : y ∈ e.nodes) : x ∈ e.nodes :=
  (nodes_sublist hy).subset hx

theorem operand_mem_nodes {a e : Expr} (ha : a ∈ e.operands) : a ∈ e.nodes :=
  mem_nodes_of_operand ha (self_mem_nodes a)

/-- No expression is a place of its own operands. -/
theorem not_mem_nodes_operand {a e : Expr} (ha : a ∈ e.operands) : e ∉ a.nodes := by
  intro he
  have hshort := (nodes_operand_sublist ha).length_le
  have hlong := (nodes_sublist he).length_le
  simp only [List.length_append, List.length_singleton] at hshort
  omega

abbrev ids (es : List Expr) : List Nat := es.map id

theorem ids_append (es es' : List Expr) : ids (es ++ es') = ids es ++ ids es' :=
  List.map_append

/-- All nodes of the expressions of a list, at all their places. -/
abbrev graph (roots : List Expr) : List Expr := roots.flatMap nodes

/-- Nodes with one identity are one node. -/
def Coherent (roots : List Expr) : Prop :=
  ∀ x ∈ graph roots, ∀ y ∈ graph roots, x.id = y.id → x = y

instance (roots : List Expr) : Decidable (Coherent roots) :=
  inferInstanceAs (Decidable (∀ x ∈ graph roots, ∀ y ∈ graph roots, x.id = y.id → x = y))

section Graph

variable {roots done : List Expr} {e x a : Expr}

theorem mem_graph_of_mem_nodes (he : e ∈ graph roots) (hx : x ∈ e.nodes) : x ∈ graph roots := by
  obtain ⟨r, hr, her⟩ := List.mem_flatMap.1 he
  exact List.mem_flatMap.2 ⟨r, hr, mem_nodes_trans hx her⟩

theorem root_mem_graph (he : e ∈ roots) : e ∈ graph roots :=
  List.mem_flatMap.2 ⟨e, he, self_mem_nodes e⟩

theorem operand_mem_graph (he : e ∈ graph roots) (ha : a ∈ e.operands) : a ∈ graph roots :=
  mem_graph_of_mem_nodes he (operand_mem_nodes ha)

/-- A coherent graph has no cycle. -/
theorem Coherent.id_ne (h : Coherent roots) (he : e ∈ graph roots) (ha : a ∈ e.operands)
    (hx : x ∈ a.nodes) : x.id ≠ e.id := by
  intro hid
  have hxe : x = e := h x (mem_graph_of_mem_nodes he (mem_nodes_of_operand ha hx)) e he hid
  exact not_mem_nodes_operand ha (hxe ▸ hx)

theorem Coherent.mem_of_id_mem (h : Coherent roots) (hd : ∀ y ∈ done, y ∈ graph roots)
    (hx : x ∈ graph roots) (hid : x.id ∈ ids done) : x ∈ done := by
  obtain ⟨y, hy, hyx⟩ := List.mem_map.1 hid
  rwa [← h y (hd y hy) x hx hyx]

end Graph

section Search

/-- The depth-first search from a node: it appends the nodes that are not finished yet,
each after its operands. -/
def search (e : Expr) : List Expr → List Expr :=
  e.fold fun e n done =>
    if e.id ∈ ids done then done
    else n.operands.foldl (fun done visit => visit done) done ++ [e]

abbrev searchAll (es : List Expr) (done : List Expr) : List Expr :=
  es.foldl (fun done e => e.search done) done

/-- The nodes of a graph in the order in which the search finishes them. -/
def finished (roots : List Expr) : List Expr := searchAll roots []

variable {roots done : List Expr} {e x a : Expr}

theorem search_eq (e : Expr) (done : List Expr) :
    e.search done =
      if e.id ∈ ids done then done else searchAll e.operands done ++ [e] := by
  rw [search, fold_eq, Node.operands_map, List.foldl_map]
  rfl

theorem search_of_mem (h : e.id ∈ ids done) : e.search done = done := by
  rw [search_eq, if_pos h]

theorem search_of_not_mem (h : e.id ∉ ids done) :
    e.search done = searchAll e.operands done ++ [e] := by
  rw [search_eq, if_neg h]

theorem searchAll_of_mem {es : List Expr} (h : ∀ e ∈ es, e.id ∈ ids done) :
    searchAll es done = done := by
  induction es with
  | nil => rfl
  | cons e es ih =>
    rw [searchAll, List.foldl_cons, search_of_mem (h e (by simp))]
    exact ih fun a ha => h a (List.mem_cons_of_mem e ha)

/-- What the search from a list adds, if each search from a member adds only its nodes. -/
theorem searchAll_extends {es : List Expr}
    (h : ∀ e ∈ es, ∀ done, ∃ new, e.search done = done ++ new ∧ new ⊆ e.nodes)
    (done : List Expr) :
    ∃ new, searchAll es done = done ++ new ∧ new ⊆ graph es := by
  induction es generalizing done with
  | nil => exact ⟨[], by simp, by simp⟩
  | cons e es ih =>
    obtain ⟨first, hfirst, hfirstNodes⟩ := h e (by simp) done
    obtain ⟨rest, hrest, hrestNodes⟩ :=
      ih (fun a ha => h a (List.mem_cons_of_mem e ha)) (done ++ first)
    refine ⟨first ++ rest, ?_, ?_⟩
    · rw [searchAll, List.foldl_cons, hfirst, ← List.append_assoc]
      exact hrest
    · rw [graph, List.flatMap_cons]
      exact List.append_subset.2 ⟨fun x hx => List.mem_append_left _ (hfirstNodes hx),
        fun x hx => List.mem_append_right _ (hrestNodes hx)⟩

theorem search_extends (e : Expr) (done : List Expr) :
    ∃ new, e.search done = done ++ new ∧ new ⊆ e.nodes := by
  induction e using induction_on_operands generalizing done with
  | step e ih =>
    by_cases hid : e.id ∈ ids done
    · exact ⟨[], by simp [search_of_mem hid], by simp⟩
    · obtain ⟨new, hnew, hnodes⟩ := searchAll_extends ih done
      refine ⟨new ++ [e], by rw [search_of_not_mem hid, hnew, List.append_assoc], ?_⟩
      rw [nodes_eq]
      exact List.append_subset.2 ⟨fun x hx => List.mem_append_left _ (hnodes hx), by simp⟩

theorem prefix_search (e : Expr) (done : List Expr) : done <+: e.search done := by
  obtain ⟨new, hnew, -⟩ := search_extends e done
  exact ⟨new, hnew.symm⟩

theorem prefix_searchAll (es done : List Expr) : done <+: searchAll es done := by
  obtain ⟨new, hnew, -⟩ := searchAll_extends (fun e _ => search_extends e) done
  exact ⟨new, hnew.symm⟩

theorem id_mem_search (e : Expr) (done : List Expr) : e.id ∈ ids (e.search done) := by
  rw [search_eq]
  split
  · assumption
  · simp

theorem id_mem_searchAll {es : List Expr} (he : e ∈ es) (done : List Expr) :
    e.id ∈ ids (searchAll es done) := by
  induction es generalizing done with
  | nil => cases he
  | cons b es ih =>
    rcases List.mem_cons.1 he with rfl | he
    · exact ((prefix_searchAll es _).map id).subset (id_mem_search e done)
    · exact ih he (b.search done)

/-- Any stage of a search: distinct nodes of the graph, every operand before its user. -/
structure Stage (roots done : List Expr) : Prop where
  mem : ∀ x ∈ done, x ∈ graph roots
  nodup : (ids done).Nodup
  ordered : ∀ before x after, done = before ++ x :: after → ∀ a ∈ x.operands, a.id ∈ ids before

theorem Stage.nil (roots : List Expr) : Stage roots [] :=
  ⟨by simp, by simp, by simp⟩

theorem Stage.snoc (hd : Stage roots done) (he : e ∈ graph roots) (hid : e.id ∉ ids done)
    (hops : ∀ a ∈ e.operands, a.id ∈ ids done) : Stage roots (done ++ [e]) where
  mem x hx := by
    rcases List.mem_append.1 hx with hx | hx
    · exact hd.mem x hx
    · rwa [List.mem_singleton.1 hx]
  nodup := by
    rw [ids_append, List.nodup_append]
    refine ⟨hd.nodup, by simp, ?_⟩
    rintro i hi j hj rfl
    have hie : i = e.id := by simpa using hj
    exact hid (hie ▸ hi)
  ordered before x after hsplit a ha := by
    rcases List.eq_nil_or_concat after with rfl | ⟨after, last, rfl⟩
    · obtain ⟨rfl, hx⟩ := List.append_inj' hsplit rfl
      have hxe : e = x := by simpa using hx
      exact hops a (hxe ▸ ha)
    · have hsplit : done ++ [e] = (before ++ x :: after) ++ [last] := by simpa using hsplit
      exact hd.ordered before x after (List.append_inj' hsplit rfl).1 a ha

theorem Stage.operand_id_mem (hd : Stage roots done) (hx : x ∈ done) (ha : a ∈ x.operands) :
    a.id ∈ ids done := by
  obtain ⟨before, after, rfl⟩ := List.append_of_mem hx
  have hbefore := hd.ordered before x after rfl a ha
  rw [ids_append]
  exact List.mem_append_left _ hbefore

/-- Whatever is below a finished node is finished. -/
theorem Stage.mem_of_mem_nodes (hd : Stage roots done) (h : Coherent roots) (he : e ∈ done)
    (hx : x ∈ e.nodes) : x ∈ done := by
  induction e using induction_on_operands with
  | step e ih =>
    rcases mem_nodes.1 hx with rfl | ⟨a, ha, hxa⟩
    · exact he
    · have had : a ∈ done :=
        h.mem_of_id_mem hd.mem (operand_mem_graph (hd.mem e he) ha) (hd.operand_id_mem he ha)
      exact ih a ha had hxa

theorem Stage.of_append {later : List Expr} (hd : Stage roots (done ++ later)) :
    Stage roots done where
  mem x hx := hd.mem x (List.mem_append_left later hx)
  nodup := by
    have hnodup := hd.nodup
    rw [ids_append] at hnodup
    exact (List.nodup_append.1 hnodup).1
  ordered before x after hsplit a ha :=
    hd.ordered before x (after ++ later) (by rw [hsplit, List.append_assoc]; rfl) a ha

theorem Stage.not_mem_of_concat (hd : Stage roots (done ++ [e])) : e ∉ done := by
  intro he
  have hnodup := hd.nodup
  rw [ids_append, List.nodup_append] at hnodup
  exact hnodup.2.2 e.id (List.mem_map_of_mem he) e.id (by simp) rfl

/-- No node that is finished later is below one that is finished earlier. -/
theorem Stage.pairwise (hd : Stage roots done) (h : Coherent roots) :
    done.Pairwise fun x y => y ∉ x.nodes := by
  induction done using List.reverseRecOn with
  | nil => exact List.Pairwise.nil
  | append_singleton done e ih =>
    refine List.pairwise_append.2 ⟨ih hd.of_append, List.pairwise_singleton _ _, ?_⟩
    intro x hx y hy hyx
    obtain rfl : y = e := by simpa using hy
    exact hd.not_mem_of_concat (hd.of_append.mem_of_mem_nodes h hx hyx)

theorem Stage.searchAll {es : List Expr} (hes : ∀ e ∈ es, ∀ done, Stage roots done →
      Stage roots (e.search done)) (hd : Stage roots done) : Stage roots (searchAll es done) := by
  induction es generalizing done with
  | nil => exact hd
  | cons e es ih =>
    exact ih (fun a ha => hes a (List.mem_cons_of_mem e ha)) (hes e (by simp) done hd)

theorem Stage.search (h : Coherent roots) (he : e ∈ graph roots) (hd : Stage roots done) :
    Stage roots (e.search done) := by
  induction e using induction_on_operands generalizing done with
  | step e ih =>
    by_cases hid : e.id ∈ ids done
    · rwa [search_of_mem hid]
    · rw [search_of_not_mem hid]
      have hops : Stage roots (Expr.searchAll e.operands done) :=
        Stage.searchAll (fun a ha _ => ih a ha (operand_mem_graph he ha)) hd
      refine hops.snoc he ?_ fun a ha => id_mem_searchAll ha done
      -- The search below `e` adds nodes below `e` only, and `e` is none of these.
      obtain ⟨new, hnew, hnodes⟩ := searchAll_extends (fun a _ => search_extends a) done
      rw [hnew, ids_append, List.mem_append]
      rintro (hold | hfresh)
      · exact hid hold
      · obtain ⟨x, hx, hxe⟩ := List.mem_map.1 hfresh
        obtain ⟨a, ha, hxa⟩ := List.mem_flatMap.1 (hnodes hx)
        exact h.id_ne he ha hxa hxe

theorem finished_stage (h : Coherent roots) : Stage roots (finished roots) :=
  Stage.searchAll (fun _ he _ hd => hd.search h (root_mem_graph he)) (Stage.nil roots)

/-- The search finds exactly the nodes of the graph. -/
theorem mem_finished (h : Coherent roots) : x ∈ finished roots ↔ x ∈ graph roots := by
  have hstage := finished_stage h
  refine ⟨hstage.mem x, fun hx => ?_⟩
  obtain ⟨r, hr, hxr⟩ := List.mem_flatMap.1 hx
  have hroot : r ∈ finished roots :=
    h.mem_of_id_mem hstage.mem (root_mem_graph hr) (id_mem_searchAll hr [])
  exact hstage.mem_of_mem_nodes h hroot hxr

end Search

end Expr

end ShaderAlgebra
