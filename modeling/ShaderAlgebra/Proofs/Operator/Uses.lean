import ShaderAlgebra.Proofs.Build.Store
import ShaderAlgebra.Proofs.Operator.Typing

/-!
# No operator ignores an operand

Every result of an accepted call uses every operand. Operators look at types
alone, so an operand is used where a named value of its type is used, and on one
type, or on a single operand, there are finitely many cases to run.
-/

namespace ShaderAlgebra

namespace Expr

/-- The expression has all the given ones as nodes. -/
def Covers (e : Expr) (xs : List Expr) : Prop := ∀ x ∈ xs, x ∈ e.nodes

instance (e : Expr) (xs : List Expr) : Decidable (e.Covers xs) :=
  inferInstanceAs (Decidable (∀ x ∈ xs, x ∈ e.nodes))

end Expr

namespace Operator

open ShaderAlgebra.Expr Build Formula Correspondence ValueType

variable {op : Operator} {xs outs : List Expr} {e e' : Expr}

section Correspondence

/-- Named values of given types, with their places as identities. -/
def standIns (types : List ValueType) : List Expr := types.mapIdx fun i t => .leaf i (.input t "")

/-- Where the second expression uses a named value, the first one uses the expression at the
place that the identity tells. -/
def Keeps (xs : List Expr) (e e' : Expr) : Prop :=
  ∀ i t name, .leaf i (.input t name) ∈ e'.nodes → ∀ x, xs[i]? = some x → x ∈ e.nodes

/-- A run on operands, beside a run on what stands for them. -/
def keeping (xs : List Expr) : Correspondence Unit where
  Reached _ _ _ := True
  Related _ e e' := e.type = e'.type ∧ Keeps xs e e'
  mono _ h := h
  type_eq h := h.1
  literal _ l t := by
    refine ⟨rfl, fun i s name hmem => ?_⟩
    cases Store.mem_nodes_literal.1 hmem
  node := by
    rintro _ i j m n - hnamed hrel
    refine ⟨(), le_refl _, trivial, hrel.type_eq (fun _ _ h => h.1) i j, ?_⟩
    intro k t name hmem x hx
    rcases mem_nodes.1 hmem with hself | ⟨b, hb, hmem⟩
    · -- The new node is no named value.
      have hn : n = .leaf (.input t name) := by
        rw [← node_ofNode j n, ← hself]
        rfl
      subst hn
      cases hrel with
      | leaf => cases hnamed
    · rw [operands, node_ofNode] at hb
      obtain ⟨a, ha, hab⟩ := exists_of_mem_forall₂ hrel.operands hb
      refine mem_nodes_of_operand ?_ (hab.2 k t name hmem x hx)
      rwa [operands, node_ofNode]

theorem keeping_standIns (xs : List Expr) :
    List.Forall₂ ((keeping xs).Related ()) xs (standIns (xs.map (·.type))) := by
  refine List.forall₂_iff_get.2 ⟨by simp [standIns], fun i hi hi' => ?_⟩
  simp only [standIns, List.get_eq_getElem, List.getElem_mapIdx, List.getElem_map]
  refine ⟨rfl, fun k t name hmem x hx => ?_⟩
  have hsame : (.leaf k (.input t name) : Expr) = .leaf i (.input xs[i].type "") := by
    rcases mem_nodes.1 hmem with hself | ⟨a, ha, -⟩
    · exact hself
    · cases ha
  injection hsame with hk
  rw [hk, List.getElem?_eq_getElem hi] at hx
  rw [← Option.some.inj hx]
  exact self_mem_nodes _

/-- What is made of operands uses them, if what is made of their stand-ins uses these. -/
theorem Covers.of_related (h : (keeping xs).Related () e e')
    (hcovers : e'.Covers (standIns (xs.map (·.type)))) : e.Covers xs := by
  intro x hx
  obtain ⟨i, hi, rfl⟩ := List.getElem_of_mem hx
  have hstand : Expr.leaf i (.input xs[i].type "") ∈ standIns (xs.map (·.type)) := by
    refine List.mem_mapIdx.2 ⟨i, by simpa using hi, ?_⟩
    simp
  exact h.2 i _ _ (hcovers _ hstand) _ (List.getElem?_eq_getElem hi)

end Correspondence

section Runs

/-- All results of a run that succeeds use the given expressions. -/
def AllCover (xs : List Expr) : Except Failure (List Expr) → Prop
  | .ok outs => ∀ out ∈ outs, out.Covers xs
  | .error _ => True

instance (xs : List Expr) : (outcome : Except Failure (List Expr)) →
    Decidable (AllCover xs outcome)
  | .ok outs => inferInstanceAs (Decidable (∀ out ∈ outs, out.Covers xs))
  | .error _ => inferInstanceAs (Decidable True)

theorem meets_covers {step step' : Build (List Expr)}
    (h : (keeping xs).Simulates () step step' fun _ => List.Forall₂ ((keeping xs).Related ()))
    (hcover : AllCover (standIns (xs.map (·.type))) (step'.runFrom 0).1) :
    Meets (fun _ => True) step fun outs => ∀ out ∈ outs, out.Covers xs := by
  intro next
  obtain ⟨_, -, -, hagree⟩ := h next 0 trivial
  generalize (step.runFrom next).1 = outcome at hagree ⊢
  generalize (step'.runFrom 0).1 = outcome' at hagree hcover
  cases hagree with
  | error failure => trivial
  | ok houts =>
    intro out hout
    obtain ⟨out', hout', hrelated⟩ := exists_of_mem_forall₂ houts.flip hout
    exact Covers.of_related hrelated (hcover out' hout')

theorem allCover_of_not_unifies {types : List ValueType} (h : op.unifies = false)
    (hcount : types.length = op.arity) :
    AllCover (standIns types) ((op.apply (standIns types)).runFrom 0).1 := by
  refine cases_of_not_unifies ?_ ?_ ?_ ?_ h hcount
  · intro t lo hi
    cases t <;> cases lo <;> cases hi <;> decide
  · intro theta r
    cases theta <;> cases r <;> decide
  · intro theta phi r
    cases theta <;> cases phi <;> cases r <;> decide
  · -- Some formulas repeat the operand at many places of the tree.
    intro op hop t
    cases op <;> first | exact absurd hop (by decide) | (cases t <;> decide +kernel)

/-- On operands of one type there are six cases for each operator. -/
theorem allCover_of_unifies (h : op.unifies = true) (t : ValueType) :
    AllCover (standIns (List.replicate op.arity t))
      ((op.build (standIns (List.replicate op.arity t))).runFrom 0).1 := by
  cases op with
  | log | lerp | fit | modulo | smoothstep | discretize | dot | distance | sqrDistance
  | cylinderVolume | coneVolume | torusVolume | signedDistanceToPlane => cases t <;> decide
  | _ => cases h

/-- A conversion uses what it converts. -/
theorem cast_covers (e : Expr) (t : ValueType) :
    Meets (fun _ => True) (cast e t 0) fun c => e ∈ c.nodes := by
  have hside : (keeping [e]).Simulates () (do return [← cast e t 0])
      (do return [← cast (.leaf 0 (.input e.type "")) t 0])
      fun _ => List.Forall₂ ((keeping [e]).Related ()) := by
    obtain _ | ⟨hrelated, -⟩ := keeping_standIns [e]
    exact single_simulates (cast_simulates hrelated)
  have hcover : AllCover (standIns [e.type])
      ((do return [← cast (.leaf 0 (.input e.type "")) t 0] : Build (List Expr)).runFrom 0).1 := by
    cases e.type <;> cases t <;> decide
  intro next
  have hmeets := meets_covers hside hcover next
  rw [runFrom_bind] at hmeets
  generalize (cast e t 0).runFrom next = run at hmeets ⊢
  obtain ⟨outcome, later⟩ := run
  cases outcome with
  | error failure => trivial
  | ok c => exact hmeets c List.mem_cons_self e List.mem_cons_self

/-- A widened list of operands uses each of them at its place. -/
theorem widen_covers (xs : List Expr) :
    Meets (fun _ => True) (widen xs 0) (List.Forall₂ (fun x w => x ∈ w.nodes) xs) := by
  have hself : List.Forall₂ (fun x w : Expr => x ∈ w.nodes) xs xs :=
    List.forall₂_same.2 fun x _ => self_mem_nodes x
  unfold widen
  split
  · split
    · exact Meets.pure hself
    · refine Meets.mapM_forall₂ fun x _ => ?_
      split
      · exact cast_covers x _
      · exact Meets.pure (self_mem_nodes x)
  · exact Meets.pure hself

theorem build_covers {t : ValueType} (h : op.unifies = true) (hcount : xs.length = op.arity)
    (htypes : ∀ x ∈ xs, x.type = t) :
    Meets (fun _ => True) (op.build xs) fun outs => ∀ out ∈ outs, out.Covers xs := by
  have hsame : xs.map (·.type) = List.replicate op.arity t := by
    rw [← hcount, List.eq_replicate_iff]
    exact ⟨List.length_map .., by simpa using htypes⟩
  refine meets_covers (build_simulates (keeping_standIns xs)) ?_
  rw [hsame]
  exact allCover_of_unifies h t

/-- Every result of a call uses all operands. -/
theorem apply_covers (op : Operator) (xs : List Expr) :
    Meets (fun _ => True) (op.apply xs) fun outs => ∀ out ∈ outs, out.Covers xs := by
  by_cases hcount : xs.length = op.arity
  · cases hunifies : op.unifies with
    | false =>
      refine meets_covers (apply_simulates op (keeping_standIns xs)) ?_
      exact allCover_of_not_unifies hunifies (by simpa using hcount)
    | true =>
      unfold Operator.apply
      rw [if_neg (not_not.2 hcount), if_pos hunifies]
      unfold unify
      apply (widen_covers xs).bind
      intro ws hws
      dsimp only
      rw [commonType_eq]
      cases hagreed : agreed (ws.map (·.type)) with
      | error e => exact Meets.refuse trivial
      | ok t =>
        obtain ⟨-, hsame⟩ := agreed_eq_ok_iff.1 hagreed
        refine (build_covers (t := t) hunifies (hws.length_eq ▸ hcount) (by simpa using hsame)).imp ?_
        intro outs houts out hout x hx
        obtain ⟨w, hw, hxw⟩ := exists_of_mem_forall₂ hws.flip hx
        exact mem_nodes_trans hxw (houts out hout w hw)
  · unfold Operator.apply
    rw [if_pos hcount]
    exact Meets.refuse trivial

end Runs

end Operator

end ShaderAlgebra
