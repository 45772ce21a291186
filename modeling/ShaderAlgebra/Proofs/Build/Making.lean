import Mathlib.Data.Nat.Basic
import ShaderAlgebra.Proofs.Build.Simulation

/-!
# Nodes that a step makes

The counter of identities tells whether a step made nodes, also when the step
failed. A step that checks first has made none when it fails. A step that makes
a node before its last check has made it in vain when it fails.
-/

namespace ShaderAlgebra.Build

variable {α β : Type} {step : Build α} {post : α → Prop}

/-- The counter never goes back. -/
def Grows (step : Build α) : Prop := ∀ next, next ≤ (step.runFrom next).2

def MakesNode (step : Build α) : Prop := ∀ next, next < (step.runFrom next).2

/-- A failing run has made no node. -/
def FailsFirst (step : Build α) : Prop :=
  ∀ next failure, (step.runFrom next).1 = .error failure → (step.runFrom next).2 = next

/-- A failing run has made a node. -/
def FailsLate (step : Build α) : Prop :=
  ∀ next failure, (step.runFrom next).1 = .error failure → next < (step.runFrom next).2

theorem MakesNode.failsLate (h : MakesNode step) : FailsLate step := fun next _ _ => h next

theorem makesNode_node (n : Node Expr) : MakesNode (node n) := Nat.lt_succ_self

/-- The counters of two runs on operands of the same types go side by side. -/
def byType : Correspondence Nat where
  Reached w i j := i = w ∧ j = w
  Related _ a b := a.type = b.type
  mono _ h := h
  type_eq h := h
  literal _ _ _ := rfl
  node := by
    rintro w i j m n ⟨rfl, rfl⟩ - hrel
    exact ⟨_, Nat.le_succ _, ⟨rfl, rfl⟩, hrel.type_eq (fun _ _ h => h) _ _⟩

theorem alike_of_byType {step' : Build β} {post : Nat → α → β → Prop}
    (h : ∀ w, byType.Simulates w step step' post) (next : Nat) :
    (step.runFrom next).2 = (step'.runFrom next).2 ∧
      ∀ failure, (step.runFrom next).1 = .error failure ↔
        (step'.runFrom next).1 = .error failure := by
  obtain ⟨w, -, ⟨hcount, hcount'⟩, hagree⟩ := h next next next ⟨rfl, rfl⟩
  refine ⟨hcount.trans hcount'.symm, fun failure => ?_⟩
  generalize (step.runFrom next).1 = outcome at hagree
  generalize (step'.runFrom next).1 = outcome' at hagree
  cases hagree with
  | ok _ => simp
  | error _ => simp

theorem FailsFirst.of_byType {step' : Build β} {post : Nat → α → β → Prop}
    (h : FailsFirst step') (hside : ∀ w, byType.Simulates w step step' post) :
    FailsFirst step := by
  intro next failure hfailure
  obtain ⟨hcount, hfails⟩ := alike_of_byType hside next
  rw [hcount, h next failure ((hfails failure).1 hfailure)]

theorem FailsLate.of_byType {step' : Build β} {post : Nat → α → β → Prop}
    (h : FailsLate step') (hside : ∀ w, byType.Simulates w step step' post) :
    FailsLate step := by
  intro next failure hfailure
  obtain ⟨hcount, hfails⟩ := alike_of_byType hside next
  rw [hcount]
  exact h next failure ((hfails failure).1 hfailure)

/-- When it is known which failing runs have made a node. -/
theorem makes_iff {made : Prop} (hlate : made → FailsLate step) (hfirst : ¬made → FailsFirst step)
    {next : Nat} {failure : Failure} (h : (step.runFrom next).1 = .error failure) :
    next ≤ (step.runFrom next).2 ∧ (next < (step.runFrom next).2 ↔ made) := by
  by_cases hmade : made
  · have hlt := hlate hmade next failure h
    exact ⟨Nat.le_of_lt hlt, fun _ => hmade, fun _ => hlt⟩
  · have heq := hfirst hmade next failure h
    exact ⟨Nat.le_of_eq heq.symm, fun hlt => absurd heq (Nat.ne_of_gt hlt),
      fun h => absurd h hmade⟩

theorem grows_of_byType {post : Nat → α → α → Prop}
    (h : ∀ w, byType.Simulates w step step post) : Grows step := by
  intro next
  obtain ⟨w, hle, ⟨hcount, -⟩, -⟩ := h next next next ⟨rfl, rfl⟩
  rw [hcount]
  exact hle

theorem Grows.bind {f : α → Build β} (h : Grows step) (hf : ∀ a, Grows (f a)) :
    Grows (step >>= f) := by
  intro next
  have hstep := h next
  rw [runFrom_bind]
  rcases hrun : step.runFrom next with ⟨outcome, later⟩
  rw [hrun] at hstep
  cases outcome with
  | ok a => exact Nat.le_trans hstep (hf a later)
  | error failure => exact hstep

theorem Grows.pure (a : α) : Grows (pure a : Build α) := Nat.le_refl

theorem Grows.mapM {f : α → Build β} {as : List α} (h : ∀ a ∈ as, Grows (f a)) :
    Grows (as.mapM f) := by
  induction as with
  | nil => exact Grows.pure []
  | cons a as ih =>
    rw [List.mapM_cons]
    apply (h a List.mem_cons_self).bind
    intro b
    apply (ih fun x hx => h x (List.mem_cons_of_mem a hx)).bind
    intro bs
    exact Grows.pure _

theorem MakesNode.bind {f : α → Build β} (h : MakesNode step) (hf : ∀ a, Grows (f a)) :
    MakesNode (step >>= f) := by
  intro next
  have hstep := h next
  rw [runFrom_bind]
  rcases hrun : step.runFrom next with ⟨outcome, later⟩
  rw [hrun] at hstep
  cases outcome with
  | ok a => exact Nat.lt_of_lt_of_le hstep (hf a later)
  | error failure => exact hstep

/-- After a step that cannot fail, a step that makes a node. -/
theorem Grows.bind_makesNode {f : α → Build β} (h : Grows step)
    (hstep : Meets (fun _ => False) step post) (hf : ∀ a, MakesNode (f a)) :
    MakesNode (step >>= f) := by
  intro next
  have hgrows := h next
  obtain ⟨a, ha, -⟩ := hstep.exists_ok next
  rw [runFrom_bind]
  rcases hrun : step.runFrom next with ⟨outcome, later⟩
  rw [hrun] at hgrows ha
  obtain rfl : outcome = .ok a := ha
  exact Nat.lt_of_le_of_lt hgrows (hf a later)

/-- Steps that cannot fail make a node if one of them does. -/
theorem MakesNode.mapM {f : α → Build β} {P : β → Prop} {as : List α}
    (hgrows : ∀ a ∈ as, Grows (f a)) (hmeets : ∀ a ∈ as, Meets (fun _ => False) (f a) P)
    (hmakes : ∃ a ∈ as, MakesNode (f a)) : MakesNode (as.mapM f) := by
  induction as with
  | nil => simp at hmakes
  | cons a as ih =>
    rw [List.forall_mem_cons] at hgrows hmeets
    rw [List.mapM_cons]
    have hrest : Grows (as.mapM f) := Grows.mapM hgrows.2
    rcases (List.exists_mem_cons_iff ..).1 hmakes with ha | has
    · exact ha.bind fun b => hrest.bind fun bs => Grows.pure _
    · exact hgrows.1.bind_makesNode hmeets.1 fun b =>
        (ih hgrows.2 hmeets.2 has).bind fun bs => Grows.pure _

theorem failsFirst_refuse (e : Error) : FailsFirst (refuse e : Build α) := fun _ _ _ => rfl

/-- A step that cannot fail. -/
theorem Meets.failsFirst (h : Meets (fun _ => False) step post) : FailsFirst step := by
  intro next failure hfailure
  obtain ⟨a, ha, -⟩ := h.exists_ok next
  rw [ha] at hfailure
  cases hfailure

/-- What becomes of the result does not matter to failing runs. -/
theorem error_of_return {f : α → β} {next : Nat} {failure : Failure}
    (h : ((do return f (← step) : Build β).runFrom next).1 = .error failure) :
    (step.runFrom next).1 = .error failure ∧
      ((do return f (← step) : Build β).runFrom next).2 = (step.runFrom next).2 := by
  rw [runFrom_bind] at h ⊢
  rcases hrun : step.runFrom next with ⟨outcome, later⟩
  rw [hrun] at h
  cases outcome with
  | ok a => cases h
  | error error =>
    cases h
    exact ⟨rfl, rfl⟩

theorem FailsFirst.return {f : α → β} (h : FailsFirst step) :
    FailsFirst (do return f (← step)) := by
  intro next failure hfailure
  obtain ⟨hstep, hafter⟩ := error_of_return hfailure
  rw [hafter, h next failure hstep]

theorem FailsLate.return {f : α → β} (h : FailsLate step) :
    FailsLate (do return f (← step)) := by
  intro next failure hfailure
  obtain ⟨hstep, hafter⟩ := error_of_return hfailure
  rw [hafter]
  exact h next failure hstep

/-- A step that either is a refusal or cannot fail. -/
theorem failsFirst_of_refuses {cond : Prop} (hrefuse : cond → ∃ e, step = refuse e)
    (hmeets : Meets (fun _ => cond) step post) : FailsFirst step := by
  by_cases hcond : cond
  · obtain ⟨e, rfl⟩ := hrefuse hcond
    exact failsFirst_refuse e
  · have hnever : Meets (fun _ => False) step post := by simpa [hcond] using hmeets
    exact hnever.failsFirst

end ShaderAlgebra.Build
