import ShaderAlgebra.Proofs.SharedText.Uses

/-!
# Rendering binds every shared node once

The renderer's state is followed along the depth-first search: behind the nodes
finished so far it holds a number and a binding for each bound one among them,
in their order, and nothing else.
-/

namespace ShaderAlgebra

namespace SharedText

open ShaderAlgebra.Expr

section Index

variable {es es' : List Expr} {e x : Expr} {k : Nat}

theorem idxOf?_append (es es' : List Expr) (e : Expr) :
    (es ++ es').idxOf? e = (es.idxOf? e).or ((es'.idxOf? e).map (· + es.length)) :=
  List.findIdx?_append

theorem idxOf?_concat_self (h : e ∉ es) : (es ++ [e]).idxOf? e = some es.length := by
  rw [idxOf?_append, List.idxOf?_eq_none_iff.2 h]
  simp

theorem idxOf?_concat_of_ne (h : x ≠ e) : (es ++ [e]).idxOf? x = es.idxOf? x := by
  rw [idxOf?_append, List.idxOf?_singleton, if_neg (by simpa using h.symm)]
  simp

theorem idxOf?_of_isPrefix (h : es <+: es') (hk : es.idxOf? e = some k) :
    es'.idxOf? e = some k := by
  obtain ⟨later, rfl⟩ := h
  rw [idxOf?_append, hk]
  rfl

end Index

variable {roots done : List Expr} {uses : Uses} {s : Bound} {e x : Expr}

abbrev boundOf (roots done : List Expr) : List Expr := done.filter (isBound roots)

/-- The state of the renderer behind the finished nodes. -/
structure Written (roots done : List Expr) (s : Bound) : Prop where
  stage : Stage roots done
  numbers : ∀ e ∈ graph roots, s.numbers[e.id]? = (boundOf roots done).idxOf? e
  bindings : s.bindings.toList =
    (boundOf roots done).mapIdx fun k e => bindingText k e.type (body roots e)

theorem Written.empty (roots : List Expr) : Written roots [] {} where
  stage := Stage.nil roots
  numbers _ _ := Std.HashMap.getElem?_empty
  bindings := rfl

theorem Written.size_bindings (hs : Written roots done s) :
    s.bindings.size = (boundOf roots done).length := by
  rw [← Array.length_toList, hs.bindings, List.length_mapIdx]

theorem boundOf_concat_of_isBound (h : isBound roots e = true) :
    boundOf roots (done ++ [e]) = boundOf roots done ++ [e] := by
  rw [boundOf, List.filter_append, List.filter_singleton, h]
  rfl

theorem boundOf_concat_of_not_isBound (h : isBound roots e = false) :
    boundOf roots (done ++ [e]) = boundOf roots done := by
  rw [boundOf, List.filter_append, List.filter_singleton, h]
  simp

/-- Finishing a node that is not bound leaves the state alone. -/
theorem Written.pass (hs : Written roots done s) (hstage : Stage roots (done ++ [e]))
    (hbound : isBound roots e = false) : Written roots (done ++ [e]) s where
  stage := hstage
  numbers := by
    rw [boundOf_concat_of_not_isBound hbound]
    exact hs.numbers
  bindings := by
    rw [boundOf_concat_of_not_isBound hbound]
    exact hs.bindings

/-- Finishing a bound node gives it the next number and writes its binding. -/
theorem Written.push (h : Coherent roots) (hs : Written roots done s)
    (hstage : Stage roots (done ++ [e])) (hbound : isBound roots e = true) :
    Written roots (done ++ [e])
      { numbers := s.numbers.insert e.id s.bindings.size
        bindings := s.bindings.push (bindingText s.bindings.size e.type (body roots e)) } where
  stage := hstage
  numbers x hx := by
    rw [Std.HashMap.getElem?_insert, boundOf_concat_of_isBound hbound, hs.size_bindings]
    by_cases hxe : x = e
    · subst hxe
      have hfresh : x ∉ boundOf roots done :=
        fun hx => hstage.not_mem_of_concat (List.mem_of_mem_filter hx)
      rw [if_pos (beq_self_eq_true x.id), idxOf?_concat_self hfresh]
    · have hid : ¬ (e.id == x.id) = true := by
        intro hid
        exact hxe (h x hx e (hstage.mem e (by simp)) (eq_of_beq hid).symm)
      rw [if_neg hid, idxOf?_concat_of_ne hxe, hs.numbers x hx]
  bindings := by
    rw [boundOf_concat_of_isBound hbound, List.mapIdx_append, Array.toList_push, hs.bindings,
      hs.size_bindings]
    simp

theorem finish_of_isBound (huses : uses.getD e.id 0 = references roots e)
    (hbound : isBound roots e = true) (n : Node String) :
    (finish uses e n).run s =
      (bindingName s.bindings.size,
        { numbers := s.numbers.insert e.id s.bindings.size
          bindings := s.bindings.push (bindingText s.bindings.size e.type n.text) }) := by
  unfold finish
  rw [huses, if_pos (by exact hbound)]
  rfl

theorem finish_of_not_isBound (huses : uses.getD e.id 0 = references roots e)
    (hbound : isBound roots e = false) (n : Node String) :
    (finish uses e n).run s = (n.text, s) := by
  unfold finish
  rw [huses, if_neg (by simpa [isBound] using hbound)]
  rfl

theorem shared_of_boundOf {k : Nat} (hdone : done <+: finished roots)
    (hk : (boundOf roots done).idxOf? e = some k) : shared roots e = bindingName k := by
  rw [shared_eq, bound, idxOf?_of_isPrefix (hdone.filter _) hk]

theorem shared_of_not_isBound (h : isBound roots e = false) : shared roots e = body roots e := by
  have hnone : (bound roots).idxOf? e = none := by
    rw [List.idxOf?_eq_none_iff, bound, List.mem_filter]
    simp [h]
  rw [shared_eq, hnone]

/-- Writing a node gives its text and takes the state from behind the nodes finished before
to behind those that the search from it finishes. -/
theorem write_tracks (h : Coherent roots)
    (huses : ∀ e ∈ graph roots, uses.getD e.id 0 = references roots e) (he : e ∈ graph roots) :
    Tracks (· <+: finished roots) (Written roots) (fun done e => e.search done) (shared roots)
      (write uses) e := by
  refine walk_tracks (fun s e => s.numbers[e.id]?.map bindingName) (· ∈ graph roots)
    (fun _ _ => rfl) (fun done e => (prefix_search e done).trans)
    (fun e he a ha => operand_mem_graph he ha) ?known ?finish he
  case known =>
    intro e done s name he hdone hs hname
    rw [hs.numbers e he] at hname
    obtain ⟨k, hk, rfl⟩ := Option.map_eq_some_iff.1 hname
    have hmem : e ∈ done :=
      List.mem_of_mem_filter (List.isSome_idxOf?.1 (by rw [hk]; rfl))
    rw [search_of_mem (List.mem_map_of_mem hmem)] at hdone ⊢
    exact ⟨(shared_of_boundOf hdone hk).symm, hs⟩
  case finish =>
    intro e done s he hdone hs hname
    have hnew : e ∉ boundOf roots done := by
      rw [hs.numbers e he, Option.map_eq_none_iff] at hname
      exact List.idxOf?_eq_none_iff.1 hname
    by_cases hid : e.id ∈ ids done
    · -- The node was finished before, and is not bound: it is written once more.
      have hmem : e ∈ done := h.mem_of_id_mem hs.stage.mem he hid
      have hops : searchAll e.operands done = done :=
        searchAll_of_mem fun a ha => hs.stage.operand_id_mem hmem ha
      have hbound : isBound roots e = false := by
        simpa [List.mem_filter, hmem] using hnew
      rw [search_of_mem hid] at hdone ⊢
      change searchAll e.operands done <+: finished roots ∧
        ∀ s', Written roots (searchAll e.operands done) s' → _
      rw [hops]
      refine ⟨hdone, fun s' hs' => ?_⟩
      rw [finish_of_not_isBound (huses e he) hbound]
      exact ⟨(shared_of_not_isBound hbound).symm, hs'⟩
    · -- The node is finished now, behind everything that its operands finish.
      have hstage : Stage roots (e.search done) := hs.stage.search h he
      rw [search_of_not_mem hid] at hstage hdone ⊢
      refine ⟨(List.prefix_append _ _).trans hdone, fun s' hs' => ?_⟩
      cases hbound : isBound roots e with
      | true =>
        rw [finish_of_isBound (huses e he) hbound]
        have hpush := hs'.push h hstage hbound
        refine ⟨(shared_of_boundOf hdone ?_).symm, hpush⟩
        rw [← hpush.numbers e he]
        exact Std.HashMap.getElem?_insert_self
      | false =>
        rw [finish_of_not_isBound (huses e he) hbound]
        exact ⟨(shared_of_not_isBound hbound).symm, hs'.pass hstage hbound⟩

/-- The renderer gives each root its text and binds the bound nodes in their order. -/
theorem render_eq (h : Coherent roots) :
    render roots =
      ⟨(bound roots).mapIdx fun k e => bindingText k e.type (body roots e),
        roots.map (shared roots)⟩ := by
  have huses : ∀ e ∈ graph roots,
      (((roots.forM countUses).run ∅).2).getD e.id 0 = references roots e :=
    fun e he => getD_countUses_eq_references h he
  obtain ⟨htexts, hwritten⟩ := Tracks.mapM (fun done e => (prefix_search e done).trans)
    (fun e he => write_tracks h huses (root_mem_graph he))
    (List.prefix_refl (finished roots)) (Written.empty roots)
  unfold render
  rw [← htexts]
  exact congrArg (SharedText.mk · _) hwritten.bindings

/-- Rendering binds exactly the nodes that are referenced more than once and are not leaves,
each once, in the order in which a depth-first search of the roots finishes them, and writes
their names at all their places. A binding refers to earlier ones only, and replacing every
reference by the body of its binding leaves the nested text of each root. -/
theorem render_binds_shared_nodes_once (roots : List Expr) (h : Coherent roots) :
    render roots =
      ⟨(bound roots).mapIdx fun k e => bindingText k e.type (body roots e),
        roots.map (shared roots)⟩ ∧
    (bound roots).Nodup ∧
    (∀ e, e ∈ bound roots ↔ e ∈ graph roots ∧ 1 < references roots e ∧ e.isLeaf = false) ∧
    (∀ e, (bodyOutline roots e).fill bindingName = body roots e ∧
      (outline roots e).fill bindingName = shared roots e) ∧
    (∀ k e, (bound roots)[k]? = some e → ∀ j ∈ (bodyOutline roots e).slots, j < k) ∧
    ∀ r ∈ roots, ∀ s, Expands (outlines roots) (outline roots r) s ↔ s = r.text := by
  refine ⟨render_eq h, bound_nodup h, fun e => mem_bound h, ?_, ?_, ?_⟩
  · intro e
    exact ⟨fill_bodyOutline roots e, fill_outline roots e⟩
  · intro k e he j hj
    exact lt_of_mem_slots_bodyOutline h he hj
  · intro r _ s
    exact expands_outline_iff

/-- A square that is a root of its own, and its double, which is a root twice. -/
def doubledSquare : List Expr :=
  let x := Expr.leaf 0 (.input .float "x")
  let square := Expr.binary 1 .mul x x
  let double := Expr.binary 2 .add square square
  [double, square, double]

theorem render_doubledSquare :
    Coherent doubledSquare ∧
      render doubledSquare =
        ⟨["let t0: float = (x * x);", "let t1: float = (t0 + t0);"], ["t1", "t0", "t1"]⟩ := by
  have h : Coherent doubledSquare := by decide
  exact ⟨h, (render_binds_shared_nodes_once doubledSquare h).1.trans rfl⟩

end SharedText

end ShaderAlgebra
