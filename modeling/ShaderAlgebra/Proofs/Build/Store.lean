import ShaderAlgebra.Proofs.Build.Simulation
import ShaderAlgebra.Proofs.Expr.Graph

/-!
# The expressions of a session

A store holds the expressions that a session was given or has made, and the
nodes of the literals. It is sound when identities are below the counter, one
identity stands for one node, and every named value has a permitted name. A new
node over held operands keeps a store sound. So two runs of one formula from one
store correspond by equality, and what they give is held by a sound store.
-/

namespace ShaderAlgebra

structure Store where
  Holds : Expr → Prop
  holds_literal (l : Literal) (t : ValueType) : Holds (l.node t)

namespace Store

open ShaderAlgebra.Expr

variable {Permitted : ValueType → String → Prop} {S : Store} {next : Nat} {e x : Expr}

instance : Preorder Store where
  le S T := ∀ e, S.Holds e → T.Holds e
  le_refl _ _ h := h
  le_trans _ _ _ h₁ h₂ e h := h₂ e (h₁ e h)

structure Sound (Permitted : ValueType → String → Prop) (S : Store) (next : Nat) : Prop where
  id_lt : ∀ e, S.Holds e → ∀ x ∈ e.nodes, x.id < next
  coherent : ∀ e, S.Holds e → ∀ e', S.Holds e' → ∀ x ∈ e.nodes, ∀ y ∈ e'.nodes,
    x.id = y.id → x = y
  permitted : ∀ e, S.Holds e → ∀ i t name, .leaf i (.input t name) ∈ e.nodes → Permitted t name

/-- Expressions that a sound store holds make up a graph. -/
theorem Sound.coherent_list (h : S.Sound Permitted next) {es : List Expr}
    (hes : ∀ e ∈ es, S.Holds e) : Coherent es := by
  intro x hx y hy hid
  obtain ⟨e, he, hxe⟩ := List.mem_flatMap.1 hx
  obtain ⟨e', he', hye'⟩ := List.mem_flatMap.1 hy
  exact h.coherent e (hes e he) e' (hes e' he') x hxe y hye' hid

def literals : Store where
  Holds e := ∃ l t, e = Literal.node l t
  holds_literal l t := ⟨l, t, rfl⟩

theorem mem_nodes_literal {l : Literal} {t : ValueType} : x ∈ (l.node t).nodes ↔ x = l.node t := by
  rw [mem_nodes]
  constructor
  · rintro (hx | ⟨a, ha, -⟩)
    · exact hx
    · cases ha
  · exact .inl

theorem sound_literals (h : Literal.identities ≤ next) : literals.Sound Permitted next where
  id_lt := by
    rintro _ ⟨l, t, rfl⟩ x hx
    rw [mem_nodes_literal.1 hx, Literal.id_node]
    exact Nat.lt_of_lt_of_le (l.identity_lt t) h
  coherent := by
    rintro _ ⟨l, t, rfl⟩ _ ⟨k, s, rfl⟩ x hx y hy hid
    rw [mem_nodes_literal.1 hx, mem_nodes_literal.1 hy] at hid ⊢
    obtain ⟨rfl, rfl⟩ := Literal.identity_injective hid
    rfl
  permitted := by
    rintro _ ⟨l, t, rfl⟩ i s name hx
    cases mem_nodes_literal.1 hx

def insert (S : Store) (e : Expr) : Store where
  Holds x := x = e ∨ S.Holds x
  holds_literal l t := .inr (S.holds_literal l t)

theorem le_insert (S : Store) (e : Expr) : S ≤ S.insert e := fun _ => .inr

section Insert

variable {n : Node Expr}

/-- All nodes of a store with a new node over held operands are old, but the new one. -/
theorem mem_nodes_insert (hoperands : ∀ a ∈ n.operands, S.Holds a)
    (he : (S.insert (.ofNode next n)).Holds e) (hx : x ∈ e.nodes) :
    x = .ofNode next n ∨ ∃ y, S.Holds y ∧ x ∈ y.nodes := by
  rcases he with rfl | he
  · rcases mem_nodes.1 hx with rfl | ⟨a, ha, hxa⟩
    · exact .inl rfl
    · rw [operands, node_ofNode] at ha
      exact .inr ⟨a, hoperands a ha, hxa⟩
  · exact .inr ⟨e, he, hx⟩

theorem Sound.insert (h : S.Sound Permitted next) (hoperands : ∀ a ∈ n.operands, S.Holds a)
    (hname : ∀ t name, n = .leaf (.input t name) → Permitted t name) :
    (S.insert (.ofNode next n)).Sound Permitted (next + 1) where
  id_lt e he x hx := by
    rcases mem_nodes_insert hoperands he hx with rfl | ⟨y, hy, hxy⟩
    · rw [id_ofNode]
      omega
    · have hlt := h.id_lt y hy x hxy
      omega
  coherent e he e' he' x hx y hy hid := by
    rcases mem_nodes_insert hoperands he hx with rfl | ⟨z, hz, hxz⟩
    · rcases mem_nodes_insert hoperands he' hy with rfl | ⟨z', hz', hyz'⟩
      · rfl
      · have hlt := h.id_lt z' hz' y hyz'
        rw [id_ofNode] at hid
        omega
    · rcases mem_nodes_insert hoperands he' hy with rfl | ⟨z', hz', hyz'⟩
      · have hlt := h.id_lt z hz x hxz
        rw [id_ofNode] at hid
        omega
      · exact h.coherent z hz z' hz' x hxz y hyz' hid
  permitted e he i t name hx := by
    rcases mem_nodes_insert hoperands he hx with hnew | ⟨y, hy, hxy⟩
    · have hnode : n = .leaf (.input t name) := by
        rw [← node_ofNode next n, ← hnew]
        rfl
      exact hname t name hnode
    · exact h.permitted y hy i t name hxy

end Insert

def withNodes (S : Store) : Store where
  Holds x := ∃ e, S.Holds e ∧ x ∈ e.nodes
  holds_literal l t := ⟨_, S.holds_literal l t, self_mem_nodes _⟩

theorem le_withNodes (S : Store) : S ≤ S.withNodes := fun e he => ⟨e, he, self_mem_nodes e⟩

theorem Sound.withNodes (h : S.Sound Permitted next) : S.withNodes.Sound Permitted next where
  id_lt := by
    rintro e ⟨a, ha, hea⟩ x hx
    exact h.id_lt a ha x (mem_nodes_trans hx hea)
  coherent := by
    rintro e ⟨a, ha, hea⟩ e' ⟨b, hb, heb⟩ x hx y hy hid
    exact h.coherent a ha b hb x (mem_nodes_trans hx hea) y (mem_nodes_trans hy heb) hid
  permitted := by
    rintro e ⟨a, ha, hea⟩ i t name hx
    exact h.permitted a ha i t name (mem_nodes_trans hx hea)

end Store

namespace Correspondence

open Build

/-- Two runs from one store on, of which both make the same nodes. -/
def within (Permitted : ValueType → String → Prop) : Correspondence Store where
  Reached S i j := i = j ∧ S.Sound Permitted i
  Related S a b := a = b ∧ S.Holds a
  mono hle h := ⟨h.1, hle _ h.2⟩
  type_eq h := congrArg Expr.type h.1
  literal S l t := ⟨rfl, S.holds_literal l t⟩
  node := by
    rintro S i _ m n ⟨rfl, hsound⟩ hnamed hrel
    have hname : ∀ t name, m = .leaf (.input t name) → Permitted t name := by
      rintro t name rfl
      cases hnamed
    obtain rfl : m = n := hrel.eq fun a b hab => hab.1
    have hholds : ∀ a ∈ m.operands, S.Holds a := by
      intro a ha
      obtain ⟨b, -, hba⟩ := exists_of_mem_forall₂ hrel.operands ha
      exact hba.1 ▸ hba.2
    exact ⟨_, S.le_insert _, ⟨rfl, hsound.insert hholds hname⟩, rfl, .inl rfl⟩

variable {Permitted : ValueType → String → Prop} {S : Store}

/-- A named value may be made where its name is permitted. -/
theorem leaf_within {l : Leaf} (h : ∀ t name, l = .input t name → Permitted t name) :
    (within Permitted).Simulates S (Build.node (.leaf l)) (Build.node (.leaf l))
      (within Permitted).Related := by
  rintro i _ ⟨rfl, hsound⟩
  have hname : ∀ t name, (.leaf l : Node Expr) = .leaf (.input t name) → Permitted t name :=
    fun t name hsame => h t name (Node.leaf.inj hsame)
  have hnone : ∀ a ∈ (.leaf l : Node Expr).operands, S.Holds a := by simp [Node.operands]
  exact ⟨_, S.le_insert _, ⟨rfl, hsound.insert hnone hname⟩, .ok ⟨rfl, .inl rfl⟩⟩

/-- What a run gives is held by a sound store. -/
theorem exists_store {step : Build (List Expr)} {next : Nat} {es : List Expr}
    (h : (within Permitted).Simulates S step step
      fun S => List.Forall₂ ((within Permitted).Related S))
    (hsound : S.Sound Permitted next) (hrun : (step.runFrom next).1 = .ok es) :
    ∃ T : Store, S ≤ T ∧ T.Sound Permitted (step.runFrom next).2 ∧ ∀ e ∈ es, T.Holds e := by
  obtain ⟨T, hle, ⟨-, hsound⟩, hagree⟩ := h next next ⟨rfl, hsound⟩
  rw [hrun] at hagree
  cases hagree with
  | ok hes =>
    refine ⟨T, hle, hsound, fun e he => ?_⟩
    obtain ⟨a, -, hae⟩ := exists_of_mem_forall₂ hes he
    exact hae.1 ▸ hae.2

end Correspondence

end ShaderAlgebra
