import Mathlib.Data.List.Forall2
import ShaderAlgebra.Expr.Build

/-!
# Outcomes of building steps

`Meets fails step post` says of a building step that from any fresh identity on
it gives a result with the property `post`, or ends in one of the failures in
`fails`. A step that meets every `fails` cannot fail at all.
-/

namespace ShaderAlgebra

namespace Build

section Lists

variable {α β : Type} {R : α → β → Prop} {as : List α} {bs : List β}

theorem forall₂_one (h : List.Forall₂ R as bs) (hlength : bs.length = 1) :
    ∃ a b, as = [a] ∧ bs = [b] ∧ R a b := by
  obtain ⟨b, rfl⟩ := List.length_eq_one_iff.1 hlength
  obtain _ | ⟨ha, ⟨⟩⟩ := h
  exact ⟨_, b, rfl, rfl, ha⟩

theorem forall₂_two (h : List.Forall₂ R as bs) (hlength : bs.length = 2) :
    ∃ a₁ a₂ b₁ b₂, as = [a₁, a₂] ∧ bs = [b₁, b₂] ∧ R a₁ b₁ ∧ R a₂ b₂ := by
  match bs, hlength with
  | [b₁, b₂], _ =>
    obtain _ | ⟨h₁, _ | ⟨h₂, ⟨⟩⟩⟩ := h
    exact ⟨_, _, b₁, b₂, rfl, rfl, h₁, h₂⟩

theorem forall₂_three (h : List.Forall₂ R as bs) (hlength : bs.length = 3) :
    ∃ a₁ a₂ a₃ b₁ b₂ b₃, as = [a₁, a₂, a₃] ∧ bs = [b₁, b₂, b₃] ∧ R a₁ b₁ ∧ R a₂ b₂ ∧ R a₃ b₃ := by
  match bs, hlength with
  | [b₁, b₂, b₃], _ =>
    obtain _ | ⟨h₁, _ | ⟨h₂, _ | ⟨h₃, ⟨⟩⟩⟩⟩ := h
    exact ⟨_, _, _, b₁, b₂, b₃, rfl, rfl, h₁, h₂, h₃⟩

theorem exists_of_mem_forall₂ {b : β} (h : List.Forall₂ R as bs) (hb : b ∈ bs) :
    ∃ a ∈ as, R a b := by
  induction h with
  | nil => cases hb
  | cons ha _ ih =>
    rcases List.mem_cons.1 hb with rfl | hb
    · exact ⟨_, List.mem_cons_self, ha⟩
    · obtain ⟨a, has, hab⟩ := ih hb
      exact ⟨a, List.mem_cons_of_mem _ has, hab⟩

end Lists

variable {α β : Type} {fails : Failure → Prop} {post : α → Prop} {step : Build α} {next : Nat}

def Meets (fails : Failure → Prop) (step : Build α) (post : α → Prop) : Prop :=
  ∀ next, match (step.runFrom next).1 with
    | .ok a => post a
    | .error failure => fails failure

theorem runFrom_bind (step : Build α) (f : α → Build β) (next : Nat) :
    (step >>= f).runFrom next =
      match step.runFrom next with
      | (.ok a, next) => (f a).runFrom next
      | (.error failure, next) => (.error failure, next) := by
  unfold runFrom
  rw [ExceptT.run_bind, StateT.run_bind]
  rcases (ExceptT.run step).run next with ⟨outcome, after⟩
  cases outcome <;> rfl

theorem Meets.pure {a : α} (h : post a) : Meets fails (pure a) post := fun _ => h

theorem Meets.refuse {e : Error} (h : fails (.refused e)) : Meets fails (refuse e) post :=
  fun _ => h

theorem Meets.bind {f : α → Build β} {after : β → Prop} (h : Meets fails step post)
    (hf : ∀ a, post a → Meets fails (f a) after) : Meets fails (step >>= f) after := by
  intro next
  have hstep := h next
  rw [runFrom_bind]
  rcases hrun : step.runFrom next with ⟨outcome, later⟩
  rw [hrun] at hstep
  cases outcome with
  | ok a => exact hf a hstep later
  | error failure => exact hstep

theorem Meets.imp {post' : α → Prop} (h : Meets fails step post)
    (himp : ∀ a, post a → post' a) : Meets fails step post' := by
  intro next
  have hstep := h next
  cases hrun : (step.runFrom next).1 with
  | ok a =>
    rw [hrun] at hstep
    exact himp a hstep
  | error failure =>
    rw [hrun] at hstep
    exact hstep

theorem Meets.and {post' : α → Prop} (h : Meets fails step post) (h' : Meets fails step post') :
    Meets fails step fun a => post a ∧ post' a := by
  intro next
  have hstep := h next
  have hstep' := h' next
  cases hrun : (step.runFrom next).1 with
  | ok a =>
    rw [hrun] at hstep hstep'
    exact ⟨hstep, hstep'⟩
  | error failure =>
    rw [hrun] at hstep
    exact hstep

theorem Meets.and_forall {ι : Type*} {posts : ι → α → Prop} (h : Meets fails step post)
    (hposts : ∀ i, Meets fails step (posts i)) :
    Meets fails step fun a => post a ∧ ∀ i, posts i a := by
  intro next
  have hstep := h next
  have hsteps := fun i => hposts i next
  cases hrun : (step.runFrom next).1 with
  | ok a =>
    simp only [hrun] at hstep hsteps
    exact ⟨hstep, hsteps⟩
  | error failure =>
    rw [hrun] at hstep
    exact hstep

theorem Meets.map {f : α → β} {after : β → Prop} (h : Meets fails step post)
    (hf : ∀ a, post a → after (f a)) : Meets fails (f <$> step) after := by
  rw [map_eq_pure_bind]
  exact h.bind fun a ha => Meets.pure (hf a ha)

/-- A result has the property that its step meets. -/
theorem Meets.of_ok {a : α} (h : Meets fails step post) (hrun : (step.runFrom next).1 = .ok a) :
    post a := by
  have hnext := h next
  rwa [hrun] at hnext

/-- A step that meets no failure gives a result. -/
theorem Meets.exists_ok (h : Meets (fun _ => False) step post) (next : Nat) :
    ∃ a, (step.runFrom next).1 = .ok a ∧ post a := by
  have hnext := h next
  cases hrun : (step.runFrom next).1 with
  | ok a =>
    rw [hrun] at hnext
    exact ⟨a, rfl, hnext⟩
  | error failure =>
    rw [hrun] at hnext
    exact hnext.elim

/-- Steps along a list give as many results, each with the property that its step has. -/
theorem Meets.mapM {f : α → Build β} {after : β → Prop} {as : List α}
    (h : ∀ a ∈ as, Meets fails (f a) after) :
    Meets fails (as.mapM f) fun bs => bs.length = as.length ∧ ∀ b ∈ bs, after b := by
  induction as with
  | nil => exact Meets.pure ⟨rfl, by simp⟩
  | cons a as ih =>
    rw [List.mapM_cons]
    apply (h a (by simp)).bind
    intro b hb
    apply (ih fun x hx => h x (List.mem_cons_of_mem a hx)).bind
    intro bs hbs
    refine Meets.pure ⟨by simp [hbs.1], ?_⟩
    intro x hx
    rcases List.mem_cons.1 hx with rfl | hx
    · exact hb
    · exact hbs.2 x hx

/-- Steps along a list give results that are related to the elements one by one. -/
theorem Meets.mapM_forall₂ {f : α → Build β} {R : α → β → Prop} {as : List α}
    (h : ∀ a ∈ as, Meets fails (f a) (R a)) : Meets fails (as.mapM f) (List.Forall₂ R as) := by
  induction as with
  | nil => exact Meets.pure .nil
  | cons a as ih =>
    rw [List.mapM_cons]
    apply (h a List.mem_cons_self).bind
    intro b hb
    apply (ih fun x hx => h x (List.mem_cons_of_mem a hx)).bind
    intro bs hbs
    exact Meets.pure (.cons hb hbs)

theorem mapM_eq_pure {f : α → Build α} {as : List α} (h : ∀ a ∈ as, f a = pure a) :
    as.mapM f = pure as := by
  induction as with
  | nil => rfl
  | cons a as ih =>
    rw [List.mapM_cons, h a List.mem_cons_self, ih fun x hx => h x (List.mem_cons_of_mem a hx)]
    rfl

/-- Steps along a list keep up with a fold without steps. -/
theorem Meets.foldlM_foldl {γ : Type} {f : β → α → Build β} {g : γ → α → γ} {R : β → γ → Prop}
    {as : List α} (h : ∀ a ∈ as, ∀ b c, R b c → Meets fails (f b a) fun b' => R b' (g c a)) {b : β}
    {c : γ} (hb : R b c) : Meets fails (as.foldlM f b) fun b' => R b' (as.foldl g c) := by
  induction as generalizing b c with
  | nil => exact Meets.pure hb
  | cons a as ih =>
    rw [List.foldlM_cons]
    apply (h a (by simp) b c hb).bind
    intro b' hb'
    exact ih (fun x hx => h x (List.mem_cons_of_mem a hx)) hb'

/-- What each step of a fold preserves, the fold preserves. -/
theorem Meets.foldlM {f : β → α → Build β} {inv : β → Prop} {as : List α}
    (h : ∀ a ∈ as, ∀ b, inv b → Meets fails (f b a) inv) {b : β} (hb : inv b) :
    Meets fails (as.foldlM f b) inv :=
  Meets.foldlM_foldl (g := fun c _ => c) (c := ()) (fun a ha b _ => h a ha b) hb

theorem Meets.node {n : Node Expr} {post : Expr → Prop}
    (h : ∀ i, post (Expr.ofNode i n)) : Meets fails (node n) post :=
  fun i => h i

/-- Leaves that are made one after another have identities in a row. -/
theorem runFrom_mapM_leaf (f : α → Leaf) (as : List α) (next : Nat) :
    (as.mapM fun a => node (.leaf (f a))).runFrom next =
      (.ok (as.mapIdx fun i a => .leaf (next + i) (f a)), next + as.length) := by
  induction as generalizing next with
  | nil => rfl
  | cons a as ih =>
    have hhead : (node (.leaf (f a))).runFrom next = (.ok (.leaf next (f a)), next + 1) := rfl
    rw [List.mapM_cons, runFrom_bind, hhead]
    dsimp only
    rw [runFrom_bind, ih, List.mapIdx_cons, List.length_cons]
    simp only [Nat.add_assoc, Nat.add_comm 1]
    rfl

end Build

end ShaderAlgebra
