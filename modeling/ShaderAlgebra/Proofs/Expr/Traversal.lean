import ShaderAlgebra.Proofs.Expr.Graph

/-!
# Stateful walks

A walk runs one action on each operand of a layer, from left to right. Over a
state, a whole layer is then settled by what the action does at one operand:
the value that it gives, and how it moves a view of the state. `Tracks` says
that an action does both, at every view that leads to an admitted one.
-/

namespace ShaderAlgebra

section Tracks

variable {α β σ τ : Type}

/-- At `a`, and at any view `t` of the state from which `next t a` is admitted, the action
gives `value a` and moves the view to `next t a`. -/
def Tracks (admitted : τ → Prop) (view : τ → σ → Prop) (next : τ → α → τ) (value : α → β)
    (act : α → StateM σ β) (a : α) : Prop :=
  ∀ t s, admitted (next t a) → view t s →
    ((act a).run s).1 = value a ∧ view (next t a) ((act a).run s).2

variable {admitted : τ → Prop} {view : τ → σ → Prop} {next : τ → α → τ} {value : α → β}
  {act : α → StateM σ β}

theorem admitted_of_foldl (hadmitted : ∀ t a, admitted (next t a) → admitted t) (as : List α)
    (t : τ) (h : admitted (as.foldl next t)) : admitted t := by
  induction as generalizing t with
  | nil => exact h
  | cons a as ih => exact hadmitted t a (ih (next t a) h)

/-- An action that tracks a view at each member of a list tracks it along the list. -/
theorem Tracks.mapM (hadmitted : ∀ t a, admitted (next t a) → admitted t) {as : List α}
    (h : ∀ a ∈ as, Tracks admitted view next value act a) {t : τ} {s : σ}
    (ht : admitted (as.foldl next t)) (hs : view t s) :
    ((as.mapM act).run s).1 = as.map value ∧
      view (as.foldl next t) ((as.mapM act).run s).2 := by
  induction as generalizing t s with
  | nil => exact ⟨rfl, hs⟩
  | cons a as ih =>
    obtain ⟨hvalue, hview⟩ := h a (by simp) t s (admitted_of_foldl hadmitted as _ ht) hs
    obtain ⟨hvalues, hviews⟩ := ih (fun b hb => h b (List.mem_cons_of_mem a hb)) ht hview
    rw [List.mapM_cons]
    refine ⟨?_, hviews⟩
    change ((act a).run s).1 :: ((as.mapM act).run ((act a).run s).2).1 = _
    rw [hvalue, hvalues, List.map_cons]

end Tracks

namespace Node

variable {α β σ τ : Type}

/-- The layer of the results of an action on the operands, run from left to right. -/
def traverse {m : Type → Type} [Monad m] (act : α → m β) : Node α → m (Node β)
  | leaf l => return leaf l
  | unary op a => return unary op (← act a)
  | binary op a b => return binary op (← act a) (← act b)
  | vec2 x y => return vec2 (← act x) (← act y)
  | vec3 x y z => return vec3 (← act x) (← act y) (← act z)
  | vec4 x y z w => return vec4 (← act x) (← act y) (← act z) (← act w)

theorem traverse_state (act : α → StateM σ β) (n : Node α) (s : σ) :
    ((n.traverse act).run s).2 = n.operands.foldl (fun s a => ((act a).run s).2) s := by
  cases n <;> rfl

theorem run_traverse (act : α → StateM σ β) (n : Node α) (s : σ) :
    ((n.traverse act).run s).1.operands = ((n.operands.mapM act).run s).1 ∧
      ((n.traverse act).run s).2 = ((n.operands.mapM act).run s).2 := by
  cases n <;> exact ⟨rfl, rfl⟩

/-- A traversal keeps everything of a layer but its operands. -/
theorem kind_traverse (act : α → StateM σ β) (n : Node α) (s : σ) :
    ((n.traverse act).run s).1.map (fun _ => ()) = n.map fun _ => () := by
  cases n <;> rfl

theorem eq_of_kind {m n : Node α} (hkind : (m.map fun _ => ()) = n.map fun _ => ())
    (hoperands : m.operands = n.operands) : m = n := by
  cases m <;> cases n <;> simp_all [map, operands]

end Node

theorem Tracks.traverse {α β σ τ : Type} {admitted : τ → Prop} {view : τ → σ → Prop}
    {next : τ → α → τ} {value : α → β} {act : α → StateM σ β}
    (hadmitted : ∀ t a, admitted (next t a) → admitted t)
    {n : Node α} (h : ∀ a ∈ n.operands, Tracks admitted view next value act a) {t : τ} {s : σ}
    (ht : admitted (n.operands.foldl next t)) (hs : view t s) :
    ((n.traverse act).run s).1 = n.map value ∧
      view (n.operands.foldl next t) ((n.traverse act).run s).2 := by
  obtain ⟨hvalues, hview⟩ := Tracks.mapM hadmitted h ht hs
  obtain ⟨hoperands, hstate⟩ := Node.run_traverse act n s
  refine ⟨Node.eq_of_kind ?_ ?_, hstate ▸ hview⟩
  · rw [Node.kind_traverse, Node.map_map]
  · rw [hoperands, hvalues, Node.operands_map]

namespace Expr

variable {β σ τ : Type}

theorem walk_eq {m : Type → Type} [Monad m] [LawfulMonad m] (known : Expr → m (Option β))
    (finish : Expr → Node β → m β) (e : Expr) :
    e.walk known finish = (known e >>= fun
      | some result => pure result
      | none => e.node.traverse (walk known finish) >>= finish e) := by
  cases e <;> rw [walk] <;> refine bind_congr fun result => ?_ <;> cases result <;>
    simp only [node, Node.traverse, bind_assoc, pure_bind]

variable {known : Expr → StateM σ (Option β)} {finish : Expr → Node β → StateM σ β} {e : Expr}
  {s s' : σ}

theorem run_walk_known {result : β} (h : (known e).run s = (some result, s')) :
    (e.walk known finish).run s = (result, s') := by
  rw [walk_eq, StateT.run_bind, h]
  rfl

theorem run_walk_unknown (h : (known e).run s = (none, s')) :
    (e.walk known finish).run s =
      (finish e ((e.node.traverse (walk known finish)).run s').1).run
        ((e.node.traverse (walk known finish)).run s').2 := by
  rw [walk_eq, StateT.run_bind, h]
  rfl

/-- A walk that only reads the state when it asks for a known result tracks a view of it,
if known results are right and finishing a node takes the view from behind its operands to
behind the node. -/
theorem walk_tracks {admitted : τ → Prop} {view : τ → σ → Prop} {next : τ → Expr → τ}
    {value : Expr → β} (look : σ → Expr → Option β) (good : Expr → Prop)
    (hlook : ∀ e s, (known e).run s = (look s e, s))
    (hadmitted : ∀ t a, admitted (next t a) → admitted t)
    (hgood : ∀ e, good e → ∀ a ∈ e.operands, good a)
    (hknown : ∀ e t s result, good e → admitted (next t e) → view t s →
      look s e = some result → result = value e ∧ view (next t e) s)
    (hfinish : ∀ e t s, good e → admitted (next t e) → view t s → look s e = none →
      admitted (e.operands.foldl next t) ∧ ∀ s', view (e.operands.foldl next t) s' →
        ((finish e (e.node.map value)).run s').1 = value e ∧
          view (next t e) ((finish e (e.node.map value)).run s').2)
    (he : good e) : Tracks admitted view next value (walk known finish) e := by
  induction e using induction_on_operands with
  | step e ih =>
    intro t s ht hs
    cases hl : look s e with
    | some result =>
      obtain ⟨hvalue, hview⟩ := hknown e t s result he ht hs hl
      rw [run_walk_known ((hlook e s).trans (by rw [hl]))]
      exact ⟨hvalue, hview⟩
    | none =>
      obtain ⟨hoperands, hnode⟩ := hfinish e t s he ht hs hl
      obtain ⟨hvalues, hview⟩ :=
        Tracks.traverse hadmitted (fun a ha => ih a ha (hgood e he a ha)) hoperands hs
      rw [run_walk_unknown ((hlook e s).trans (by rw [hl])), hvalues]
      exact hnode _ hview

end Expr

end ShaderAlgebra
