import Mathlib.Tactic.ByContra
import ShaderAlgebra.Proofs.Expr.Traversal
import ShaderAlgebra.Proofs.SharedText.Binding

/-!
# Counting uses

Counting goes below a node at its first use, and a search goes below a node that
is not finished. Both meet the same nodes: the two only differ on nodes that are
being visited, which have a use and are not finished, and as a graph has no
cycle none of these is met again from its own operands. So the uses of a node
are its references.
-/

namespace ShaderAlgebra

namespace SharedText

open ShaderAlgebra.Expr

def countFrom (uses : Uses) (e : Expr) : Uses := ((countUses e).run uses).2

theorem countFrom_eq (uses : Uses) (e : Expr) :
    countFrom uses e =
      if uses.getD e.id 0 = 0 then
        e.operands.foldl countFrom (uses.insert e.id (uses.getD e.id 0 + 1))
      else uses.insert e.id (uses.getD e.id 0 + 1) := by
  unfold countFrom countUses
  by_cases hfirst : uses.getD e.id 0 = 0
  · rw [if_pos hfirst]
    refine (congrArg Prod.snd (run_walk_unknown ?_)).trans
      (Node.traverse_state countUses e.node _)
    change (if uses.getD e.id 0 = 0 then none else some (), _) = _
    rw [if_pos hfirst]
  · rw [if_neg hfirst]
    refine congrArg Prod.snd (run_walk_known (?_ : _ = (some (), _)))
    change (if uses.getD e.id 0 = 0 then none else some (), _) = _
    rw [if_neg hfirst]
    rfl

theorem run_forM_countUses (roots : List Expr) (uses : Uses) :
    ((roots.forM countUses).run uses).2 = roots.foldl countFrom uses := by
  induction roots generalizing uses with
  | nil => rfl
  | cons e roots ih => exact ih (countFrom uses e)

/-- How many of the nodes of a list have a given identity. -/
def countId (i : Nat) (es : List Expr) : Nat := es.countP fun x => x.id == i

theorem countId_append (i : Nat) (es es' : List Expr) :
    countId i (es ++ es') = countId i es + countId i es' :=
  List.countP_append

theorem countId_singleton (i : Nat) (e : Expr) : countId i [e] = if e.id = i then 1 else 0 := by
  simp [countId, List.countP_singleton]

/-- From `uses` to `uses'`, the nodes of `used` are counted, and the operand slots of the
nodes of `new`; these are the nodes that have their first use. -/
structure Counted (uses uses' : Uses) (used new : List Expr) : Prop where
  getD i : uses'.getD i 0 = uses.getD i 0 + countId i used + countId i (new.flatMap operands)
  first i : uses'.getD i 0 = 0 ↔ uses.getD i 0 = 0 ∧ i ∉ ids new

theorem Counted.trans {uses uses' uses'' : Uses} {used used' new new' : List Expr}
    (h : Counted uses uses' used new) (h' : Counted uses' uses'' used' new') :
    Counted uses uses'' (used ++ used') (new ++ new') where
  getD i := by
    rw [h'.getD, h.getD, List.flatMap_append, countId_append, countId_append]
    omega
  first i := by
    rw [h'.first, h.first, ids_append, List.mem_append, not_or, and_assoc]

variable {roots done : List Expr} {uses : Uses} {e : Expr}

/-- A node has a use exactly if the search has finished it. -/
def Agree (uses : Uses) (done : List Expr) (x : Expr) : Prop :=
  uses.getD x.id 0 = 0 ↔ x.id ∉ ids done

theorem Agree.of_counted {uses' : Uses} {used new : List Expr} {x : Expr}
    (hx : Agree uses done x) (h : Counted uses uses' used new) :
    Agree uses' (done ++ new) x := by
  unfold Agree at hx ⊢
  rw [h.first, hx, ids_append, List.mem_append, not_or]

theorem counted_searchAll {es : List Expr}
    (hes : ∀ e ∈ es, ∀ uses done, (∀ x ∈ e.nodes, Agree uses done x) →
      ∃ new, e.search done = done ++ new ∧ Counted uses (countFrom uses e) [e] new)
    (hagree : ∀ x ∈ graph es, Agree uses done x) :
    ∃ new, searchAll es done = done ++ new ∧ Counted uses (es.foldl countFrom uses) es new := by
  induction es generalizing uses done with
  | nil => exact ⟨[], by simp, fun i => by simp [countId], fun i => by simp⟩
  | cons e es ih =>
    obtain ⟨new, hnew, hcounted⟩ :=
      hes e (by simp) uses done fun x hx => hagree x (by simp [graph, hx])
    have hrest : ∀ x ∈ graph es, Agree (countFrom uses e) (done ++ new) x := by
      intro x hx
      have hmem : x ∈ graph (e :: es) := by
        rw [graph, List.flatMap_cons]
        exact List.mem_append_right _ hx
      exact (hagree x hmem).of_counted hcounted
    obtain ⟨later, hlater, hcountedLater⟩ :=
      ih (fun a ha => hes a (List.mem_cons_of_mem e ha)) hrest
    refine ⟨new ++ later, ?_, hcounted.trans hcountedLater⟩
    rw [searchAll, List.foldl_cons, hnew, ← List.append_assoc]
    exact hlater

theorem getD_insert_use (uses : Uses) (e : Expr) (i : Nat) :
    (uses.insert e.id (uses.getD e.id 0 + 1)).getD i 0 = uses.getD i 0 + countId i [e] := by
  rw [Std.HashMap.getD_insert, countId_singleton]
  by_cases hi : e.id = i
  · subst hi
    simp
  · simp [hi]

/-- Counting from a node gives a use to the node and to the operand slots of the nodes that
the search from it finishes. -/
theorem counted_search (h : Coherent roots) (he : e ∈ graph roots)
    (hagree : ∀ x ∈ e.nodes, Agree uses done x) :
    ∃ new, e.search done = done ++ new ∧ Counted uses (countFrom uses e) [e] new := by
  induction e using induction_on_operands generalizing uses done with
  | step e ih =>
    have hself : uses.getD e.id 0 = 0 ↔ e.id ∉ ids done := hagree e (self_mem_nodes e)
    have huse := getD_insert_use uses e
    rw [countFrom_eq]
    by_cases hfirst : uses.getD e.id 0 = 0
    · rw [if_pos hfirst, search_of_not_mem (hself.1 hfirst)]
      -- The node now has a use before it is finished, but it is none of the nodes below it.
      have hbelow : ∀ x ∈ graph e.operands,
          Agree (uses.insert e.id (uses.getD e.id 0 + 1)) done x := by
        intro x hx
        obtain ⟨a, ha, hxa⟩ := List.mem_flatMap.1 hx
        have hne : e.id ≠ x.id := (h.id_ne he ha hxa).symm
        rw [Agree, huse, countId_singleton, if_neg hne, Nat.add_zero]
        exact hagree x (mem_nodes_of_operand ha hxa)
      obtain ⟨new, hnew, hcounted⟩ := counted_searchAll
        (fun a ha _ _ => ih a ha (operand_mem_graph he ha)) hbelow
      refine ⟨new ++ [e], by rw [hnew, List.append_assoc], fun i => ?_, fun i => ?_⟩
      · rw [hcounted.getD, huse, List.flatMap_append, countId_append, List.flatMap_singleton]
        omega
      · rw [hcounted.first, huse, countId_singleton, ids_append, List.mem_append, not_or]
        by_cases hi : e.id = i
        · simp [hi]
        · simp [hi, Ne.symm hi]
    · have hid : e.id ∈ ids done := by
        by_contra hid
        exact hfirst (hself.2 hid)
      rw [if_neg hfirst]
      refine ⟨[], by rw [search_of_mem hid, List.append_nil], huse, fun i => ?_⟩
      rw [huse, countId_singleton]
      by_cases hi : e.id = i
      · subst hi
        simp [hfirst]
      · simp [hi]

/-- The count of each identity after all roots. -/
theorem getD_countUses (h : Coherent roots) (i : Nat) :
    (((roots.forM countUses).run ∅).2).getD i 0 =
      countId i roots + countId i ((finished roots).flatMap operands) := by
  have hempty : ∀ x ∈ graph roots, Agree ∅ [] x := by
    intro x _
    simp [Agree]
  obtain ⟨new, hnew, hcounted⟩ :=
    counted_searchAll (fun e he _ _ => counted_search h (root_mem_graph he)) hempty
  rw [run_forM_countUses, hcounted.getD, finished, hnew]
  simp

theorem countId_eq_count {es : List Expr} (h : Coherent roots) (hes : es ⊆ graph roots)
    (he : e ∈ graph roots) : countId e.id es = es.count e := by
  refine List.countP_congr fun x hx => ?_
  constructor
  · intro hid
    rw [h x (hes hx) e he (by simpa using hid)]
    exact beq_self_eq_true e
  · intro hxe
    rw [eq_of_beq hxe]
    exact beq_self_eq_true e.id

theorem finished_perm (h : Coherent roots) : (finished roots).Perm (graph roots).dedup := by
  refine (List.perm_ext_iff_of_nodup ?_ (List.nodup_dedup _)).2 fun x => ?_
  · exact (finished_stage h).nodup.of_map
  · rw [mem_finished h, List.mem_dedup]

/-- The use count of a node of the graph is the number of its references. -/
theorem getD_countUses_eq_references (h : Coherent roots) (he : e ∈ graph roots) :
    (((roots.forM countUses).run ∅).2).getD e.id 0 = references roots e := by
  have hroots : roots ⊆ graph roots := fun _ => root_mem_graph
  have hslots : (finished roots).flatMap operands ⊆ graph roots := by
    intro x hx
    obtain ⟨y, hy, hxy⟩ := List.mem_flatMap.1 hx
    exact operand_mem_graph ((mem_finished h).1 hy) hxy
  rw [getD_countUses h, countId_eq_count h hroots he, countId_eq_count h hslots he, references,
    ((finished_perm h).flatMap_right operands).count_eq]

end SharedText

end ShaderAlgebra
