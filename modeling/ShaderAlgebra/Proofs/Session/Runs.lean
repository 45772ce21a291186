import ShaderAlgebra.Proofs.Session.Calls

/-!
# Sessions

A session is a run of calls in any order: literals are looked up, operands of nodes are read,
and expressions are constructed from what earlier calls gave. Some calls fail. All identities
that are taken are below the counter, and each stands for one node. So nodes of literals are
told from all others by their identities, throughout the session.
-/

namespace ShaderAlgebra

open ShaderAlgebra.Expr Build Correspondence

inductive Call
  | lookup (l : Literal) (t : ValueType)
  /-- The operands of a node at hand. -/
  | inspect (e : Expr)
  | construct (c : Construction)

namespace Call

def handed : Call → List Expr
  | lookup .. => []
  | inspect e => [e]
  | construct c => c.handed

def run : Call → Build (List Expr)
  | lookup l t => return [l.node t]
  | inspect e => return e.operands
  | construct c => c.run

variable {c : Call} {S : Store} {next : Nat}

/-- What a call gives is held by a sound store, and a call that fails leaves a sound one. -/
theorem exists_store (c : Call) (hsound : S.Sound (fun _ _ => True) next)
    (hhanded : ∀ e ∈ c.handed, S.Holds e) :
    ∃ T : Store, S ≤ T ∧ T.Sound (fun _ _ => True) (c.run.runFrom next).2 ∧
      ∀ es, (c.run.runFrom next).1 = .ok es → ∀ e ∈ es, T.Holds e := by
  cases c with
  | lookup l t =>
    refine ⟨S, le_refl S, hsound, fun es hes e he => ?_⟩
    cases hes
    obtain rfl := List.mem_singleton.1 he
    exact S.holds_literal l t
  | inspect a =>
    refine ⟨S.withNodes, S.le_withNodes, hsound.withNodes, fun es hes e he => ?_⟩
    cases hes
    exact ⟨a, hhanded a List.mem_cons_self, operand_mem_nodes he⟩
  | construct c =>
    have hsides := c.run_simulates (C := within fun _ _ => True) (w := S)
      (fun _ _ => leaf_within fun _ _ _ => trivial) fun e he => ⟨rfl, hhanded e he⟩
    obtain ⟨T, hle, ⟨-, hsound'⟩, hagree⟩ := hsides next next ⟨rfl, hsound⟩
    refine ⟨T, hle, hsound', fun es hes e he => ?_⟩
    change (c.run.runFrom next).1 = .ok es at hes
    rw [hes] at hagree
    cases hagree with
    | ok hrelated =>
      obtain ⟨a, -, hae⟩ := exists_of_mem_forall₂ hrelated he
      exact hae.1 ▸ hae.2

end Call

/-- The expressions that calls have given so far, and the next fresh identity. -/
structure Session where
  held : List Expr
  next : Nat

structure Event where
  call : Call
  outcome : Except Failure (List Expr)

namespace Session

def start : Session := ⟨[], Literal.identities⟩

/-- The tables of all literals, made before anything is called. The table of a literal is found
at its place, and holds the literal's nodes. -/
theorem runFrom_literalTables :
    ∃ tables, (Literal.all.mapM fun l => splatTable l.value).runFrom 0 = (.ok tables, start.next) ∧
      ∀ l : Literal, tables[l.index]? = some l.node := by
  refine ⟨Literal.all.map Literal.node, rfl, fun l => ?_⟩
  cases l <;> rfl

def step (s : Session) (c : Call) : Except Failure (List Expr) × Session :=
  match c.run.runFrom s.next with
  | (.ok es, next) => (.ok es, ⟨es ++ s.held, next⟩)
  | (.error failure, next) => (.error failure, ⟨s.held, next⟩)

/-- The calls of a session in order. Each is handed what earlier calls gave. -/
inductive Reaches : List Event → Session → Prop
  | start : Reaches [] start
  | call {events : List Event} {s : Session} (c : Call) : Reaches events s →
      (∀ e ∈ c.handed, e ∈ s.held) → Reaches (events ++ [⟨c, (s.step c).1⟩]) (s.step c).2

variable {s : Session} {c : Call} {events : List Event}

/-! ### One call -/

/-- Identities below the counter stand for one node each, also for the nodes of literals. -/
def Sound (s : Session) : Prop :=
  ∃ S : Store, S.Sound (fun _ _ => True) s.next ∧ ∀ e ∈ s.held, S.Holds e

theorem sound_start : start.Sound :=
  ⟨Store.literals, Store.sound_literals (Nat.le_refl _), by simp [start]⟩

theorem outcome_step (s : Session) (c : Call) : (s.step c).1 = (c.run.runFrom s.next).1 := by
  unfold step
  split <;> simp_all

theorem Sound.step (h : s.Sound) (hhanded : ∀ e ∈ c.handed, e ∈ s.held) : (s.step c).2.Sound := by
  obtain ⟨S, hsound, hheld⟩ := h
  obtain ⟨T, hle, hsound', hresults⟩ :=
    c.exists_store hsound fun e he => hheld e (hhanded e he)
  unfold Session.step
  split
  · rename_i es next hrun
    rw [hrun] at hsound' hresults
    refine ⟨T, hsound', fun e he => ?_⟩
    rcases List.mem_append.1 he with hnew | hold
    · exact hresults es rfl e hnew
    · exact hle e (hheld e hold)
  · rename_i failure next hrun
    rw [hrun] at hsound'
    exact ⟨T, hsound', fun e he => hle e (hheld e he)⟩

/-- An identity of a literal's node belongs to no other node. -/
theorem Sound.eq_literal (h : s.Sound) {e x : Expr} {l : Literal} {t : ValueType}
    (he : e ∈ s.held) (hx : x ∈ e.nodes) (hid : x.id = (l.node t).id) : x = l.node t := by
  obtain ⟨S, hsound, hheld⟩ := h
  exact hsound.coherent e (hheld e he) (l.node t) (S.holds_literal l t) x hx _
    (self_mem_nodes _) hid

theorem Sound.literal_lt (h : s.Sound) (l : Literal) (t : ValueType) : (l.node t).id < s.next := by
  obtain ⟨S, hsound, -⟩ := h
  exact hsound.id_lt (l.node t) (S.holds_literal l t) _ (self_mem_nodes _)

/-- What the outcome of a call says of the nodes of literals. -/
def KeepsLiterals : Event → Prop
  | ⟨.lookup l t, outcome⟩ => outcome = .ok [l.node t]
  | ⟨.construct c, .ok es⟩ =>
    ∀ e ∈ es, ∀ l t, e.id = (Literal.node l t).id → e = l.node t ∧ e ∈ c.handed
  | _ => True

theorem Sound.keepsLiterals (h : s.Sound) (hhanded : ∀ e ∈ c.handed, e ∈ s.held) :
    KeepsLiterals ⟨c, (s.step c).1⟩ := by
  rw [outcome_step]
  cases c with
  | lookup l t => rfl
  | inspect e => trivial
  | construct c =>
    change KeepsLiterals ⟨.construct c, (c.run.runFrom s.next).1⟩
    cases hrun : (c.run.runFrom s.next).1 with
    | error failure => trivial
    | ok es =>
      intro e he l t hid
      have hlt := h.literal_lt l t
      rcases Construction.result_cases hrun he with hold | hnew
      · exact ⟨h.eq_literal (hhanded e hold) (self_mem_nodes e) hid, hold⟩
      · omega

/-! ### Runs -/

theorem Reaches.sound (h : Reaches events s) : s.Sound := by
  induction h with
  | start => exact sound_start
  | call c _ hhanded ih => exact ih.step hhanded

theorem Reaches.keepsLiterals (h : Reaches events s) : ∀ ev ∈ events, KeepsLiterals ev := by
  induction h with
  | start => simp
  | call c hbefore hhanded ih =>
    intro ev hev
    rcases List.mem_append.1 hev with hold | hnew
    · exact ih ev hold
    · rw [List.mem_singleton.1 hnew]
      exact hbefore.sound.keepsLiterals hhanded

/-- Throughout a session a literal of a type is looked up as one node, its constant in the table
of the literal. Nodes of different literals or types are different, no other node at hand has the
identity of one of them, and a construction gives one of them only if it is handed over. -/
theorem literal_nodes_kept (h : Reaches events s) :
    (∀ l t outcome, (⟨.lookup l t, outcome⟩ : Event) ∈ events → outcome = .ok [l.node t]) ∧
      (∀ c es, (⟨.construct c, .ok es⟩ : Event) ∈ events → ∀ e ∈ es, ∀ l t,
        e.id = (Literal.node l t).id → e = l.node t ∧ e ∈ c.handed) ∧
      (∀ e ∈ s.held, ∀ x ∈ e.nodes, ∀ l t, x.id = (Literal.node l t).id → x = l.node t) ∧
      (∃ tables, (Literal.all.mapM fun l => splatTable l.value).runFrom 0 =
          (.ok tables, start.next) ∧ ∀ l : Literal, tables[l.index]? = some l.node) ∧
      ∀ l t, (Literal.node l t).node = .leaf (.constant (.splat l.value t)) ∧
        ∀ k u, (l.node t).id = (Literal.node k u).id ↔ l = k ∧ t = u := by
  refine ⟨fun l t outcome hev => h.keepsLiterals _ hev, fun c es hev => h.keepsLiterals _ hev,
    fun e he x hx l t => h.sound.eq_literal he hx, runFrom_literalTables,
    fun l t => ⟨rfl, fun k u => ?_⟩⟩
  constructor
  · exact Literal.identity_injective
  · rintro ⟨rfl, rfl⟩
    rfl

/-- The number pi, and a constant of the same value, in a session with a failing call. -/
theorem literal_nodes_kept_pi :
    let pi := Literal.pi.node .float
    let minusOne := Literal.minusOne.node .float
    let negated := Expr.binary 54 .mul minusOne pi
    let equal := Expr.leaf 55 (.constant (.float Literal.pi.value))
    Reaches
      [⟨.lookup .pi .float, .ok [pi]⟩,
        ⟨.construct (.apply .negate [pi, pi]),
          .error (.refused (.invalidArgument (.operandCount .negate 2)))⟩,
        ⟨.construct (.apply .negate [pi]), .ok [negated]⟩,
        ⟨.inspect negated, .ok [minusOne, pi]⟩,
        ⟨.construct (.constant (.float Literal.pi.value)), .ok [equal]⟩,
        ⟨.lookup .pi .float, .ok [pi]⟩]
      ⟨[pi, equal, minusOne, pi, negated, pi], 56⟩ ∧
    ∀ l t, equal.id ≠ (Literal.node l t).id := by
  intro pi minusOne negated equal
  have h₁ : Reaches _ ⟨[pi], 54⟩ := Reaches.start.call (.lookup .pi .float) (by simp [Call.handed])
  have h₂ : Reaches _ ⟨[pi], 54⟩ :=
    h₁.call (.construct (.apply .negate [pi, pi])) (by simp [Call.handed, Construction.handed])
  have h₃ : Reaches _ ⟨[negated, pi], 55⟩ :=
    h₂.call (.construct (.apply .negate [pi])) (by simp [Call.handed, Construction.handed])
  have h₄ : Reaches _ ⟨[minusOne, pi, negated, pi], 55⟩ :=
    h₃.call (.inspect negated) (by simp [Call.handed])
  have h₅ : Reaches _ ⟨[equal, minusOne, pi, negated, pi], 56⟩ :=
    h₄.call (.construct (.constant (.float Literal.pi.value)))
      (by simp [Call.handed, Construction.handed])
  have h : Reaches _ ⟨[pi, equal, minusOne, pi, negated, pi], 56⟩ :=
    h₅.call (.lookup .pi .float) (by simp [Call.handed])
  refine ⟨h, fun l t hid => ?_⟩
  obtain ⟨-, hhanded⟩ :=
    (literal_nodes_kept h).2.1 (.constant (.float Literal.pi.value)) [equal]
      (List.mem_append_left _ (List.mem_append_right _ List.mem_cons_self)) equal
      List.mem_cons_self l t hid
  cases hhanded

end Session

end ShaderAlgebra
