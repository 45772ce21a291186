import Mathlib.Order.Basic
import ShaderAlgebra.Proofs.Build.Outcome

/-!
# Runs side by side

A formula is run twice, on operands that correspond to each other. What the
correspondence means is left open: it only has to respect types and to be kept
by the making of nodes. It may grow while nodes are made, so it is indexed by
how far both runs have come. `Simulates` says that two steps end in the same
failure, or in results that correspond.
-/

namespace ShaderAlgebra

/-- The same layer over related operands. -/
inductive Node.Rel {α β : Type} (R : α → β → Prop) : Node α → Node β → Prop
  | leaf (l : Leaf) : Rel R (.leaf l) (.leaf l)
  | unary (op : UnaryOp) {a : α} {b : β} : R a b → Rel R (.unary op a) (.unary op b)
  | binary (op : BinaryOp) {a₁ a₂ : α} {b₁ b₂ : β} :
      R a₁ b₁ → R a₂ b₂ → Rel R (.binary op a₁ a₂) (.binary op b₁ b₂)
  | vec2 {a₁ a₂ : α} {b₁ b₂ : β} : R a₁ b₁ → R a₂ b₂ → Rel R (.vec2 a₁ a₂) (.vec2 b₁ b₂)
  | vec3 {a₁ a₂ a₃ : α} {b₁ b₂ b₃ : β} :
      R a₁ b₁ → R a₂ b₂ → R a₃ b₃ → Rel R (.vec3 a₁ a₂ a₃) (.vec3 b₁ b₂ b₃)
  | vec4 {a₁ a₂ a₃ a₄ : α} {b₁ b₂ b₃ b₄ : β} :
      R a₁ b₁ → R a₂ b₂ → R a₃ b₃ → R a₄ b₄ → Rel R (.vec4 a₁ a₂ a₃ a₄) (.vec4 b₁ b₂ b₃ b₄)

theorem Node.Rel.eq {α : Type} {R : α → α → Prop} {m n : Node α} (h : m.Rel R n)
    (hR : ∀ a b, R a b → a = b) : m = n := by
  cases h with
  | leaf => rfl
  | unary _ h => rw [hR _ _ h]
  | binary _ h₁ h₂ | vec2 h₁ h₂ => rw [hR _ _ h₁, hR _ _ h₂]
  | vec3 h₁ h₂ h₃ => rw [hR _ _ h₁, hR _ _ h₂, hR _ _ h₃]
  | vec4 h₁ h₂ h₃ h₄ => rw [hR _ _ h₁, hR _ _ h₂, hR _ _ h₃, hR _ _ h₄]

theorem Node.Rel.operands {α β : Type} {R : α → β → Prop} {m : Node α} {n : Node β}
    (h : m.Rel R n) : List.Forall₂ R m.operands n.operands := by
  cases h with
  | leaf => exact .nil
  | unary _ h => exact .cons h .nil
  | binary _ h₁ h₂ | vec2 h₁ h₂ => exact .cons h₁ (.cons h₂ .nil)
  | vec3 h₁ h₂ h₃ => exact .cons h₁ (.cons h₂ (.cons h₃ .nil))
  | vec4 h₁ h₂ h₃ h₄ => exact .cons h₁ (.cons h₂ (.cons h₃ (.cons h₄ .nil)))

/-- A node's type is known from the types of its operands. -/
theorem Node.Rel.type_eq {R : Expr → Expr → Prop} {m n : Node Expr} (h : m.Rel R n)
    (hR : ∀ a b, R a b → a.type = b.type) (i j : Nat) :
    (Expr.ofNode i m).type = (Expr.ofNode j n).type := by
  cases h with
  | unary op h => exact congrArg op.resultType (hR _ _ h)
  | @binary op a _ b _ h _ => exact hR a b h
  | leaf | vec2 | vec3 | vec4 => rfl

/-- Whether a node is a named value, which no formula makes. -/
def Node.isNamed {α : Type} : Node α → Bool
  | .leaf (.input _ _) => true
  | _ => false

/-- Which expressions of two runs correspond, at each stage of the runs. -/
structure Correspondence (W : Type) [Preorder W] where
  /-- The next fresh identities of both runs at a stage. -/
  Reached : W → Nat → Nat → Prop
  Related : W → Expr → Expr → Prop
  mono {w w' : W} {a b : Expr} : w ≤ w' → Related w a b → Related w' a b
  type_eq {w : W} {a b : Expr} : Related w a b → a.type = b.type
  literal (w : W) (l : Literal) (t : ValueType) : Related w (l.node t) (l.node t)
  node {w : W} {i j : Nat} {m n : Node Expr} : Reached w i j → m.isNamed = false →
    m.Rel (Related w) n →
    ∃ w', w ≤ w' ∧ Reached w' (i + 1) (j + 1) ∧ Related w' (.ofNode i m) (.ofNode j n)

/-- Outcomes of two runs: the same failure, or corresponding results. -/
inductive Agree {α β : Type} (R : α → β → Prop) : Except Failure α → Except Failure β → Prop
  | ok {a : α} {b : β} : R a b → Agree R (.ok a) (.ok b)
  | error (failure : Failure) : Agree R (.error failure) (.error failure)

theorem Agree.imp {α β : Type} {R R' : α → β → Prop} {x : Except Failure α} {y : Except Failure β}
    (h : Agree R x y) (hR : ∀ a b, x = .ok a → y = .ok b → R a b → R' a b) : Agree R' x y := by
  cases h with
  | ok hab => exact .ok (hR _ _ rfl rfl hab)
  | error failure => exact .error failure

namespace Correspondence

open Build

/-- A correspondence that stays the same in the course of the runs has one stage. -/
scoped instance oneStage : Preorder Unit := PUnit.instLinearOrder.toPreorder

variable {W : Type} [Preorder W] {C : Correspondence W} {w : W} {α β α' β' : Type}
  {step : Build α} {step' : Build β} {post : W → α → β → Prop} {a a' b b' e e' : Expr}

/-- Two steps from one stage on end at a later stage, with the same failure or with results
that satisfy `post` there. -/
def Simulates (C : Correspondence W) (w : W) (step : Build α) (step' : Build β)
    (post : W → α → β → Prop) : Prop :=
  ∀ i j, C.Reached w i j → ∃ w', w ≤ w' ∧
    C.Reached w' (step.runFrom i).2 (step'.runFrom j).2 ∧
    Agree (post w') (step.runFrom i).1 (step'.runFrom j).1

theorem Simulates.pure {a : α} {b : β} (h : post w a b) :
    C.Simulates w (pure a) (pure b) post :=
  fun _ _ hreached => ⟨w, le_refl w, hreached, .ok h⟩

theorem Simulates.refuse {error : Error} :
    C.Simulates w (Build.refuse error) (Build.refuse error) post :=
  fun _ _ hreached => ⟨w, le_refl w, hreached, .error _⟩

theorem Simulates.bind {f : α → Build α'} {f' : β → Build β'} {after : W → α' → β' → Prop}
    (h : C.Simulates w step step' post)
    (hf : ∀ w', w ≤ w' → ∀ a b, post w' a b → C.Simulates w' (f a) (f' b) after) :
    C.Simulates w (step >>= f) (step' >>= f') after := by
  intro i j hreached
  obtain ⟨w', hle, hreached', hagree⟩ := h i j hreached
  rw [runFrom_bind, runFrom_bind]
  rcases hrun : step.runFrom i with ⟨outcome, i'⟩
  rcases hrun' : step'.runFrom j with ⟨outcome', j'⟩
  rw [hrun, hrun'] at hreached' hagree
  cases hagree with
  | ok hpost =>
    obtain ⟨w'', hle', hreached'', hagree'⟩ := hf w' hle _ _ hpost i' j' hreached'
    exact ⟨w'', le_trans hle hle', hreached'', hagree'⟩
  | error failure => exact ⟨w', hle, hreached', .error failure⟩

theorem Simulates.map {f : α → α'} {f' : β → β'} {after : W → α' → β' → Prop}
    (h : C.Simulates w step step' post)
    (hf : ∀ w' a b, post w' a b → after w' (f a) (f' b)) :
    C.Simulates w (f <$> step) (f' <$> step') after := by
  rw [map_eq_pure_bind, map_eq_pure_bind]
  exact h.bind fun w' _ a b hab => Simulates.pure (hf w' a b hab)

/-- Corresponding steps along two lists give corresponding lists. -/
theorem Simulates.mapM {f : α → Build Expr} {f' : β → Build Expr} {R : α → β → Prop}
    {as : List α} {bs : List β} (hlists : List.Forall₂ R as bs)
    (h : ∀ w', w ≤ w' → ∀ a b, R a b → C.Simulates w' (f a) (f' b) C.Related) :
    C.Simulates w (as.mapM f) (bs.mapM f') fun w => List.Forall₂ (C.Related w) := by
  induction hlists generalizing w with
  | nil => exact Simulates.pure .nil
  | cons hab _ ih =>
    rw [List.mapM_cons, List.mapM_cons]
    apply (h w (le_refl w) _ _ hab).bind
    intro w₁ h₁ x y hxy
    apply (ih fun w' hle => h w' (le_trans h₁ hle)).bind
    intro w₂ h₂ xs ys hxys
    exact Simulates.pure (.cons (C.mono h₂ hxy) hxys)

/-- What corresponding steps of two folds preserve, the folds preserve. -/
theorem Simulates.foldlM {f : Expr → α → Build Expr} {f' : Expr → β → Build Expr}
    {R : α → β → Prop} {as : List α} {bs : List β} (hlists : List.Forall₂ R as bs)
    (h : ∀ w', w ≤ w' → ∀ a b, R a b → ∀ e e', C.Related w' e e' →
      C.Simulates w' (f e a) (f' e' b) C.Related) (he : C.Related w e e') :
    C.Simulates w (as.foldlM f e) (bs.foldlM f' e') C.Related := by
  induction hlists generalizing w e e' with
  | nil => exact Simulates.pure he
  | cons hab _ ih =>
    rw [List.foldlM_cons, List.foldlM_cons]
    apply (h w (le_refl w) _ _ hab e e' he).bind
    intro w₁ h₁ x y hxy
    exact ih (fun w' hle => h w' (le_trans h₁ hle)) hxy

section Primitives

theorem node_simulates {m n : Node Expr} (hnamed : m.isNamed = false)
    (hrel : m.Rel (C.Related w) n) :
    C.Simulates w (Build.node m) (Build.node n) C.Related := by
  intro i j hreached
  obtain ⟨w', hle, hreached', hrelated⟩ := C.node hreached hnamed hrel
  exact ⟨w', hle, hreached', .ok hrelated⟩

theorem constant_simulates (c : Constant) :
    C.Simulates w (constant c) (constant c) C.Related :=
  node_simulates rfl (.leaf _)

theorem splat_simulates (x : Single) (t : ValueType) :
    C.Simulates w (splat x t) (splat x t) C.Related :=
  constant_simulates _

theorem systemSeed_simulates : C.Simulates w systemSeed systemSeed C.Related :=
  node_simulates rfl (.leaf _)

theorem unary_simulates {op : UnaryOp} (ha : C.Related w a a') :
    C.Simulates w (unary op a) (unary op a') C.Related :=
  node_simulates rfl (.unary op ha)

theorem binary_simulates {op : BinaryOp} (ha : C.Related w a a') (hb : C.Related w b b') :
    C.Simulates w (binary op a b) (binary op a' b') C.Related := by
  unfold binary
  rw [C.type_eq ha, C.type_eq hb]
  split
  · exact node_simulates rfl (.binary op ha hb)
  · intro i j hreached
    exact ⟨w, le_refl w, hreached, .error _⟩

theorem channel_simulates {i : Nat} (he : C.Related w e e') :
    C.Simulates w (channel e i) (channel e' i) C.Related := by
  have htype := C.type_eq he
  unfold channel
  by_cases hi : i < e.type.components
  · rw [dif_pos hi, dif_pos (htype ▸ hi)]
    exact unary_simulates he
  · rw [dif_neg hi, dif_neg (htype ▸ hi), htype]
    intro k j hreached
    exact ⟨w, le_refl w, hreached, .error _⟩

theorem shift_simulates {op : BinaryOp} {bits : UInt32} (he : C.Related w e e') :
    C.Simulates w (shift op e bits) (shift op e' bits) C.Related := by
  unfold shift
  apply (constant_simulates _).bind
  intro w₁ h₁ amount amount' hamount
  exact binary_simulates (C.mono h₁ he) hamount

/-- A search by types finds operands of one type in both runs. -/
theorem find?_type_eq {es es' : List Expr} (h : List.Forall₂ (C.Related w) es es')
    (p : ValueType → Bool) :
    (es.find? (p ·.type)).map (·.type) = (es'.find? (p ·.type)).map (·.type) := by
  induction h with
  | nil => rfl
  | cons hxy _ ih =>
    rw [List.find?_cons, List.find?_cons, C.type_eq hxy]
    split
    · exact congrArg some (C.type_eq hxy)
    · exact ih

theorem combine_simulates {es es' : List Expr} (h : List.Forall₂ (C.Related w) es es') :
    C.Simulates w (combine es) (combine es') C.Related := by
  have hfind := find?_type_eq h (· != .float)
  unfold combine
  cases hbad : es.find? (·.type != .float) with
  | some bad =>
    cases hbad' : es'.find? (·.type != .float) with
    | some bad' =>
      have hbadType : bad.type = bad'.type := by simpa [hbad, hbad'] using hfind
      dsimp only
      rw [hbadType]
      exact Simulates.refuse
    | none => simp [hbad, hbad'] at hfind
  | none =>
    cases hbad' : es'.find? (·.type != .float) with
    | some bad' => simp [hbad, hbad'] at hfind
    | none =>
      obtain _ | ⟨h₁, _ | ⟨h₂, _ | ⟨h₃, _ | ⟨h₄, _ | ⟨h₅, hrest⟩⟩⟩⟩⟩ := h
      · exact Simulates.refuse
      · exact Simulates.refuse
      · exact node_simulates rfl (.vec2 h₁ h₂)
      · exact node_simulates rfl (.vec3 h₁ h₂ h₃)
      · exact node_simulates rfl (.vec4 h₁ h₂ h₃ h₄)
      · simp only [List.length_cons, hrest.length_eq]
        exact Simulates.refuse

end Primitives

end Correspondence

end ShaderAlgebra
