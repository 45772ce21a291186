import ShaderAlgebra.Proofs.Operator.Composite
import ShaderAlgebra.Proofs.Request.Names

/-!
# Calls that make expressions

A construction is handed expressions, and gives some of them back or makes new ones. It uses
the nodes of literals, but does not give one away: a result that it was not handed has an
identity that was fresh when the call began.
-/

namespace ShaderAlgebra

open ShaderAlgebra.Expr Build Correspondence

/-- A call that makes expressions. A formula of the caller's own over unified operands is a call
of `widen`, and then the calls that the formula consists of. -/
inductive Construction
  | constant (c : Constant)
  | splat (x : Single) (t : ValueType)
  | table (x : Single)
  | input (name : String) (t : ValueType)
  | systemSeed
  | unary (op : UnaryOp) (e : Expr)
  | binary (op : BinaryOp) (a b : Expr)
  | channel (e : Expr) (i : Nat)
  | shift (op : BinaryOp) (e : Expr) (bits : UInt32)
  | combine (es : List Expr)
  | channels (e : Expr)
  | sum (es : List Expr)
  | cast (e : Expr) (t : ValueType) (filler : Single)
  | widen (es : List Expr) (filler : Single)
  | commonType (es : List Expr)
  /-- The formula of an operator, on operands as they are. -/
  | formula (op : Operator) (es : List Expr)
  | apply (op : Operator) (es : List Expr)
  | operand (position : Nat) (o : Request.Operand)
  | operands (r : Request)
  | request (r : Request)

namespace Construction

/-- The expressions that the caller hands over. -/
def handed : Construction → List Expr
  | constant _ | splat .. | table _ | input .. | systemSeed | operand .. | operands _
  | request _ => []
  | unary _ e | channel e _ | shift _ e _ | channels e | cast e .. => [e]
  | binary _ a b => [a, b]
  | combine es | sum es | widen es _ | commonType es | formula _ es | apply _ es => es

/-- The expressions that the caller gets. -/
def run : Construction → Build (List Expr)
  | constant c => do return [← Build.constant c]
  | splat x t => do return [← Build.splat x t]
  | table x => do return ValueType.all.map (← Build.splatTable x)
  | input name t => do return [← Build.input name t]
  | systemSeed => do return [← Build.systemSeed]
  | unary op e => do return [← Build.unary op e]
  | binary op a b => do return [← Build.binary op a b]
  | channel e i => do return [← Build.channel e i]
  | shift op e bits => do return [← Build.shift op e bits]
  | combine es => do return [← Build.combine es]
  | channels e => Formula.channels e
  | sum es => do return (← Formula.sum es).toList
  | cast e t filler => do return [← Formula.cast e t filler]
  | widen es filler => Formula.widen es filler
  | commonType es => do
    let _ ← Formula.commonType es
    return []
  | formula op es => op.build es
  | apply op es => op.apply es
  | operand position o => do return [← o.build position]
  | operands r => r.operands
  | request r => r.build

variable {W : Type} [Preorder W] {C : Correspondence W} {w : W} {c : Construction} {start : Nat}
  {es : List Expr} {e : Expr}

/-! ### Correspondences -/

/-- A table has the nodes that are made in the order of the types. -/
theorem run_table (x : Single) : (table x).run = ValueType.all.mapM (Build.splat x) := rfl

theorem runFrom_splats (x : Single) (start : Nat) :
    (ValueType.all.mapM (Build.splat x)).runFrom start =
      (.ok (ValueType.all.mapIdx fun i t => .leaf (start + i) (.constant (.splat x t))),
        start + ValueType.all.length) :=
  runFrom_mapM_leaf (fun t => .constant (.splat x t)) _ start

/-- Two runs of a construction correspond, if they do where leaves are made. -/
theorem run_simulates (c : Construction)
    (hleaf : ∀ (w' : W) (l : Leaf),
      C.Simulates w' (Build.node (.leaf l)) (Build.node (.leaf l)) C.Related)
    (hhanded : ∀ e ∈ c.handed, C.Related w e e) :
    C.Simulates w c.run c.run fun w => List.Forall₂ (C.Related w) := by
  have hsame {es : List Expr} (h : ∀ e ∈ es, C.Related w e e) :
      List.Forall₂ (C.Related w) es es := List.forall₂_same.2 h
  cases c with
  | constant c => exact Operator.single_simulates (hleaf w _)
  | splat x t => exact Operator.single_simulates (hleaf w _)
  | table x =>
    rw [run_table]
    refine Simulates.mapM (Formula.forall₂_eq _) ?_
    rintro w' _ t _ rfl
    exact hleaf w' _
  | input name t => exact Operator.single_simulates (hleaf w _)
  | systemSeed => exact Operator.single_simulates (hleaf w _)
  | unary op e => exact Operator.single_simulates (unary_simulates (hhanded e List.mem_cons_self))
  | binary op a b =>
    exact Operator.single_simulates
      (binary_simulates (hhanded a List.mem_cons_self)
        (hhanded b (List.mem_cons_of_mem a List.mem_cons_self)))
  | channel e i =>
    exact Operator.single_simulates (channel_simulates (hhanded e List.mem_cons_self))
  | shift op e bits =>
    exact Operator.single_simulates (shift_simulates (hhanded e List.mem_cons_self))
  | combine es => exact Operator.single_simulates (combine_simulates (hsame hhanded))
  | channels e => exact Formula.channels_simulates (hhanded e List.mem_cons_self)
  | sum es =>
    refine (Formula.sum_simulates (hsame hhanded)).map fun w' total total' htotal => ?_
    cases htotal with
    | none => exact .nil
    | some h => exact .cons h .nil
  | cast e t filler =>
    exact Operator.single_simulates (Formula.cast_simulates (hhanded e List.mem_cons_self))
  | widen es filler => exact Formula.widen_simulates (hsame hhanded)
  | commonType es =>
    exact (Formula.commonType_simulates (hsame hhanded)).bind fun _ _ _ _ _ => Simulates.pure .nil
  | formula op es => exact Operator.build_simulates (hsame hhanded)
  | apply op es => exact Operator.apply_simulates op (hsame hhanded)
  | operand position o =>
    refine Operator.single_simulates ?_
    unfold Request.Operand.build
    cases o.leaf position with
    | error error => exact Simulates.refuse
    | ok l => exact hleaf w l
  | operands r => exact r.operands_simulates fun w' _ _ l _ _ => hleaf w' l
  | request r => exact r.build_simulates fun w' _ _ l _ _ => hleaf w' l

/-! ### Results -/

/-- Runs in which everything was at hand, is a literal's node, or was made from `start` on. -/
def since (start : Nat) (xs : List Expr) : Correspondence Unit where
  Reached _ i j := i = j ∧ start ≤ i
  Related _ a b := a = b ∧ (a ∈ xs ∨ (∃ l t, a = Literal.node l t) ∨ start ≤ a.id)
  mono _ h := h
  type_eq h := congrArg Expr.type h.1
  literal _ l t := ⟨rfl, .inr (.inl ⟨l, t, rfl⟩)⟩
  node := by
    rintro _ i _ m n ⟨rfl, hstart⟩ - hrel
    obtain rfl : m = n := hrel.eq fun _ _ h => h.1
    refine ⟨(), le_refl _, ⟨rfl, Nat.le_succ_of_le hstart⟩, rfl, .inr (.inr ?_)⟩
    rwa [id_ofNode]

theorem leaf_since (xs : List Expr) (l : Leaf) :
    (since start xs).Simulates () (Build.node (.leaf l)) (Build.node (.leaf l))
      (since start xs).Related := by
  rintro i _ ⟨rfl, hstart⟩
  exact ⟨(), le_refl _, ⟨rfl, Nat.le_succ_of_le hstart⟩, .ok ⟨rfl, .inr (.inr hstart)⟩⟩

/-- A result was handed over, is a literal's node, or is new. -/
theorem mem_run (hrun : (c.run.runFrom start).1 = .ok es) (he : e ∈ es) :
    e ∈ c.handed ∨ (∃ l t, e = Literal.node l t) ∨ start ≤ e.id := by
  have hsince := c.run_simulates (C := since start c.handed) (w := ())
    (fun _ l => leaf_since _ l) fun e he => ⟨rfl, .inl he⟩
  obtain ⟨_, -, -, hagree⟩ := hsince start start ⟨rfl, Nat.le_refl start⟩
  rw [hrun] at hagree
  cases hagree with
  | ok hes =>
    obtain ⟨a, -, hae⟩ := exists_of_mem_forall₂ hes he
    exact hae.1 ▸ hae.2

/-- No other leaves than the given ones are among the results. -/
def LeavesAmong (xs : List Expr) (step : Build (List Expr)) : Prop :=
  Meets (fun _ => True) step fun es => ∀ e ∈ es, e.isLeaf = true → e ∈ xs

section Leaves

variable {xs : List Expr} {x : Expr}

theorem leavesAmong_of_composite {step : Build (List Expr)}
    (h : Meets (fun _ => True) step fun es => ∀ e ∈ es, e.isLeaf = false) :
    LeavesAmong xs step := by
  refine h.imp fun es hes e he hleaf => ?_
  rw [hes e he] at hleaf
  cases hleaf

theorem leavesAmong_single {step : Build Expr} (h : Composite step) :
    LeavesAmong xs (do return [← step]) :=
  leavesAmong_of_composite (Operator.single_composite h)

theorem mem_of_composite (hx : x.isLeaf = false) : x.isLeaf = true → x ∈ xs := by
  simp [hx]

theorem leavesAmong_channels : LeavesAmong [x] (channels x).run :=
  (Formula.channels_keep (fun _ => mem_of_composite) fun _ => List.mem_singleton_self x).imp
    fun _ hcs => hcs.2

theorem leavesAmong_sum : LeavesAmong xs (sum xs).run :=
  (Formula.sum_keep (fun _ => mem_of_composite) fun _ hx _ => hx).map
    fun total htotal => by simpa using htotal

theorem leavesAmong_cast {t : ValueType} {filler : Single} :
    LeavesAmong [x] (cast x t filler).run :=
  (Formula.cast_keep (fun _ => mem_of_composite) fun _ => List.mem_singleton_self x).bind
    fun y hy => Meets.pure (by simpa using hy)

theorem leavesAmong_widen {filler : Single} : LeavesAmong xs (widen xs filler).run :=
  Formula.widen_keep (fun _ => mem_of_composite) fun _ hx _ => hx

theorem leavesAmong_commonType : LeavesAmong xs (commonType xs).run :=
  (meets_true _).bind fun _ _ => Meets.pure (by simp)

theorem leavesAmong_request {r : Request} : LeavesAmong [] (request r).run :=
  leavesAmong_of_composite <|
    (meets_true r.operands).bind fun operands _ => r.operator.apply_composite operands

/-- Leaves in a row are new. -/
theorem le_id_of_mem_row {α : Type} {f : α → Leaf} {as : List α}
    (h : e ∈ as.mapIdx fun i a => Expr.leaf (start + i) (f a)) : start ≤ e.id := by
  obtain ⟨i, hi, rfl⟩ := List.mem_mapIdx.1 h
  exact Nat.le_add_right start i

end Leaves

/-- A leaf is a result if it is handed over or made as such. -/
theorem leaf_cases (hrun : (c.run.runFrom start).1 = .ok es) (he : e ∈ es)
    (hleaf : e.isLeaf = true) : e ∈ c.handed ∨ start ≤ e.id := by
  have hhanded (h : LeavesAmong c.handed c.run) : e ∈ c.handed ∨ start ≤ e.id :=
    .inl (h.of_ok hrun e he hleaf)
  cases c with
  | constant | splat | input | systemSeed =>
    cases hrun
    obtain rfl := List.mem_singleton.1 he
    exact .inr (Nat.le_refl start)
  | table x =>
    rw [run_table, runFrom_splats] at hrun
    cases hrun
    exact .inr (le_id_of_mem_row he)
  | unary => exact hhanded (leavesAmong_single composite_unary)
  | binary => exact hhanded (leavesAmong_single composite_binary)
  | channel => exact hhanded (leavesAmong_single composite_channel)
  | shift => exact hhanded (leavesAmong_single composite_shift)
  | combine => exact hhanded (leavesAmong_single composite_combine)
  | channels => exact hhanded leavesAmong_channels
  | sum => exact hhanded leavesAmong_sum
  | cast => exact hhanded leavesAmong_cast
  | widen => exact hhanded leavesAmong_widen
  | commonType => exact hhanded leavesAmong_commonType
  | formula op xs => exact hhanded (leavesAmong_of_composite (op.build_composite xs))
  | apply op xs => exact hhanded (leavesAmong_of_composite (op.apply_composite xs))
  | operand position o =>
    rw [run, Request.Operand.build] at hrun
    cases hl : o.leaf position with
    | error error =>
      rw [hl] at hrun
      cases hrun
    | ok l =>
      rw [hl] at hrun
      cases hrun
      obtain rfl := List.mem_singleton.1 he
      exact .inr (Nat.le_refl start)
  | operands r =>
    obtain ⟨ls, hls⟩ := Request.exists_leaves hrun
    rw [run, Request.runFrom_operands hls] at hrun
    cases hrun
    exact .inr (le_id_of_mem_row (f := fun l => l) he)
  | request r => exact hhanded leavesAmong_request

/-- A result that was not handed over is new. -/
theorem result_cases (hrun : (c.run.runFrom start).1 = .ok es) (he : e ∈ es) :
    e ∈ c.handed ∨ start ≤ e.id := by
  rcases mem_run hrun he with hhanded | ⟨l, t, rfl⟩ | hnew
  · exact .inl hhanded
  · exact leaf_cases hrun he rfl
  · exact .inr hnew

end Construction

end ShaderAlgebra
