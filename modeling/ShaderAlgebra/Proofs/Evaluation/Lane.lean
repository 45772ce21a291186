import ShaderAlgebra.Proofs.Expr.WellFormed

/-!
# Evaluation lane by lane

A graph is evaluated over any scalar domain: each lane of a node is a scalar.
Primitives act on each lane alone by one function of the domain, a channel is a
lane of its operand, and a vector lists the only lanes of its operands. Lanes
beyond the type of a node have some value that nothing asks for.
-/

namespace ShaderAlgebra

/-- The numbers of a scalar domain, and a function for each primitive. -/
structure Primitives (D : Type) where
  number : Single → D
  int : Int32 → D
  uint : UInt32 → D
  unary : UnaryOp → D → D
  binary : BinaryOp → D → D → D

/-- What is supplied from outside: each lane of the named values, and the seed. -/
structure Environment (D : Type) where
  input : ValueType → String → Nat → D
  seed : D

variable {D : Type}

def Primitives.unit : Primitives Unit :=
  ⟨fun _ => (), fun _ => (), fun _ => (), fun _ _ => (), fun _ _ _ => ()⟩

def Environment.unit : Environment Unit := ⟨fun _ _ _ => (), ()⟩

namespace Primitives

def constant (P : Primitives D) : Constant → Nat → D
  | .int n, _ => P.int n
  | .uint n, _ => P.uint n
  | c, i => P.number (c.floats.getD i 0)

/-- The only value that the lanes of a splatted scalar have. -/
def scalar (P : Primitives D) (t : ValueType) (x : Single) : D := P.constant (.splat x t) 0

theorem scalar_of_isFloat {P : Primitives D} {t : ValueType} (h : t.isFloat = true) :
    P.scalar t = P.number := by
  funext x
  cases t with
  | float | float2 | float3 | float4 => rfl
  | int | uint => cases h

theorem constant_of_isFloat {P : Primitives D} {c : Constant} (h : c.type.isFloat = true)
    (i : Nat) : P.constant c i = P.number (c.floats.getD i 0) := by
  cases c with
  | float | float2 | float3 | float4 => rfl
  | int | uint => cases h

theorem floats_splat (x : Single) {t : ValueType} (h : t.isFloat = true) :
    (Constant.splat x t).floats = List.replicate t.components x := by
  cases t with
  | float | float2 | float3 | float4 => rfl
  | int | uint => cases h

theorem constant_splat (P : Primitives D) (x : Single) {t : ValueType} {i : Nat}
    (hi : i < t.components) : P.constant (.splat x t) i = P.scalar t x := by
  cases h : t.isFloat with
  | true =>
    rw [scalar_of_isFloat h, constant_of_isFloat (by rwa [Constant.type_splat]), floats_splat x h,
      List.getD_eq_getElem?_getD, List.getElem?_replicate, if_pos hi, Option.getD_some]
  | false =>
    cases t with
    | float | float2 | float3 | float4 => cases h
    | int | uint => rfl

end Primitives

namespace Expr

def lane (P : Primitives D) (env : Environment D) : Expr → Nat → D
  | leaf _ (.constant c), i => P.constant c i
  | leaf _ (.input t name), i => env.input t name i
  | leaf _ .systemSeed, _ => env.seed
  | unary _ (.channel c) a, _ => a.lane P env c
  | unary _ op a, i => P.unary op (a.lane P env i)
  | binary _ op a b, i => P.binary op (a.lane P env i) (b.lane P env i)
  | vec2 _ x y, i => if i = 0 then x.lane P env 0 else y.lane P env 0
  | vec3 _ x y z, i =>
    if i = 0 then x.lane P env 0 else if i = 1 then y.lane P env 0 else z.lane P env 0
  | vec4 _ x y z w, i =>
    if i = 0 then x.lane P env 0 else if i = 1 then y.lane P env 0
    else if i = 2 then z.lane P env 0 else w.lane P env 0

/-- A node of the type `t` whose lanes have the values `f`. -/
def HasLanes (P : Primitives D) (env : Environment D) (t : ValueType) (f : Nat → D) (e : Expr) :
    Prop :=
  e.type = t ∧ ∀ i < t.components, e.lane P env i = f i

theorem hasLanes_lane (P : Primitives D) (env : Environment D) (e : Expr) :
    HasLanes P env e.type (e.lane P env) e :=
  ⟨rfl, fun _ _ => rfl⟩

theorem HasLanes.congr {P : Primitives D} {env : Environment D} {t : ValueType} {f g : Nat → D}
    {e : Expr} (h : HasLanes P env t f e) (hfg : ∀ i < t.components, f i = g i) :
    HasLanes P env t g e :=
  ⟨h.1, fun i hi => (h.2 i hi).trans (hfg i hi)⟩

end Expr

namespace Build

open ShaderAlgebra.Expr

variable {P : Primitives D} {env : Environment D} {fails : Failure → Prop} {a b e x : Expr}
  {t : ValueType} {f g : Nat → D}

/-- What a step meets in each domain, it meets in all domains at once. -/
theorem Meets.forall_domains {α : Type} {step : Build α}
    {post : (D : Type) → Primitives D → Environment D → α → Prop}
    (h : ∀ D P env, Meets fails step (post D P env)) :
    Meets fails step fun r => ∀ D P env, post D P env r := by
  apply ((h Unit .unit .unit).and_forall fun i : Σ D, Primitives D × Environment D =>
    h i.1 i.2.1 i.2.2).imp
  rintro r ⟨-, hr⟩ D P env
  exact hr ⟨D, P, env⟩

theorem hasLanes_literal (l : Literal) (t : ValueType) :
    HasLanes P env t (fun _ => P.scalar t l.value) (l.node t) :=
  ⟨l.type_node t, fun _ hi => P.constant_splat l.value hi⟩

theorem constant_lanes (c : Constant) :
    Meets fails (constant c) (HasLanes P env c.type (P.constant c)) :=
  Meets.node fun _ => ⟨rfl, fun _ _ => rfl⟩

theorem splat_lanes (y : Single) (t : ValueType) :
    Meets fails (splat y t) (HasLanes P env t fun _ => P.scalar t y) :=
  Meets.node fun _ => ⟨Constant.type_splat y t, fun _ hi => P.constant_splat y hi⟩

theorem unary_lanes {op : UnaryOp} (hop : op.isElementwise = true) (ha : HasLanes P env t f a) :
    Meets fails (unary op a) (HasLanes P env t fun i => P.unary op (f i)) := by
  refine Meets.node fun _ => ⟨?_, fun i hi => ?_⟩
  · cases op with
    | floor | log2 | sin | cos | asin => exact ha.1
    | toFloat | channel | random => cases hop
  · cases op with
    | floor | log2 | sin | cos | asin => exact congrArg (P.unary _) (ha.2 i hi)
    | toFloat | channel | random => cases hop

theorem binary_lanes {op : BinaryOp} (ha : HasLanes P env t f a) (hb : HasLanes P env t g b) :
    Meets fails (binary op a b) (HasLanes P env t fun i => P.binary op (f i) (g i)) := by
  unfold binary
  rw [if_pos (by simp [ha.1, hb.1])]
  refine Meets.node fun _ => ⟨ha.1, fun i hi => ?_⟩
  change P.binary op (a.lane P env i) (b.lane P env i) = _
  rw [ha.2 i hi, hb.2 i hi]

theorem channel_lanes {i : Nat} (he : HasLanes P env t f e) (hi : i < t.components) :
    Meets fails (channel e i) (HasLanes P env .float fun _ => f i) := by
  unfold channel
  rw [dif_pos (by rwa [he.1])]
  exact Meets.node fun _ => ⟨rfl, fun _ _ => he.2 i hi⟩

/-- The lanes of a list of scalars, in order. -/
def ListsLanes (P : Primitives D) (env : Environment D) (n : Nat) (f : Nat → D)
    (cs : List Expr) : Prop :=
  List.Forall₂ (fun i => HasLanes P env .float fun _ => f i) (List.range n) cs

theorem ListsLanes.length_eq {n : Nat} {cs : List Expr} (h : ListsLanes P env n f cs) :
    cs.length = n := by
  simpa using (List.Forall₂.length_eq h).symm

theorem ListsLanes.of_getElem? {n i : Nat} {c : Expr} {cs : List Expr}
    (h : ListsLanes P env n f cs) (hc : cs[i]? = some c) :
    i < n ∧ HasLanes P env .float (fun _ => f i) c := by
  obtain ⟨hi, rfl⟩ := List.getElem?_eq_some_iff.1 hc
  have hn : i < n := by rwa [← h.length_eq]
  have hget := h.get (by simpa using hn) hi
  simp only [List.get_eq_getElem, List.getElem_range] at hget
  exact ⟨hn, hget⟩

theorem combine_lanes {cs : List Expr} (hfloat : t.isFloat = true) (hwide : t.components ≠ 1)
    (h : ListsLanes P env t.components f cs) :
    Meets fails (combine cs) (HasLanes P env t f) := by
  have hlane (i : Nat) (c : Expr) (hc : cs[i]? = some c) : c.lane P env 0 = f i :=
    (h.of_getElem? hc).2.2 0 Nat.one_pos
  have hnone : cs.find? (·.type != .float) = none := by
    rw [List.find?_eq_none]
    intro c hc
    obtain ⟨i, hi⟩ := List.mem_iff_getElem?.1 hc
    simp [(h.of_getElem? hi).2.1]
  have hlength := h.length_eq
  have htype : ValueType.floatOfComponents? cs.length = some t :=
    ValueType.floatOfComponents?_eq_some_iff.2 ⟨hfloat, hlength.symm⟩
  unfold combine
  rw [hnone, htype]
  cases t with
  | float | int | uint => exact absurd rfl hwide
  | float2 =>
    match cs, hlength, hlane with
    | [x, y], _, hlane =>
      refine Meets.node fun _ => ⟨rfl, fun i hi => ?_⟩
      match i with
      | 0 => exact hlane 0 x rfl
      | 1 => exact hlane 1 y rfl
  | float3 =>
    match cs, hlength, hlane with
    | [x, y, z], _, hlane =>
      refine Meets.node fun _ => ⟨rfl, fun i hi => ?_⟩
      match i with
      | 0 => exact hlane 0 x rfl
      | 1 => exact hlane 1 y rfl
      | 2 => exact hlane 2 z rfl
  | float4 =>
    match cs, hlength, hlane with
    | [x, y, z, w], _, hlane =>
      refine Meets.node fun _ => ⟨rfl, fun i hi => ?_⟩
      match i with
      | 0 => exact hlane 0 x rfl
      | 1 => exact hlane 1 y rfl
      | 2 => exact hlane 2 z rfl
      | 3 => exact hlane 3 w rfl

end Build

end ShaderAlgebra
