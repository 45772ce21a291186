import ShaderAlgebra.Proofs.Operator.Refusal

/-!
# The typing rule of the catalog

`Operator.typing` says for operands of which types an operator succeeds, what
types its results have, and what it reports otherwise. It is stated apart from
the formulas, and every call follows it: an operator looks at types only, so
that on operands of one type, or on a single operand, there are finitely many
cases to run.
-/

namespace ShaderAlgebra

namespace ValueType

def widestFloat (types : List ValueType) : ValueType :=
  if .float4 ∈ types then .float4
  else if .float3 ∈ types then .float3
  else if .float2 ∈ types then .float2
  else .float

/-- The types of a list once the floats are widened. -/
def widened (types : List ValueType) : List ValueType :=
  types.map fun t => if t.isFloat then widestFloat types else t

/-- The type that a list consists of. Otherwise the report names the first type and the
first one that differs from it. -/
def agreed : List ValueType → Except Error ValueType
  | [] => .error (.invalidArgument .noOperands)
  | first :: others =>
    match others.find? (· != first) with
    | none => .ok first
    | some other => .error (.typeMismatch first other)

def require (condition : Prop) [Decidable condition] (error : Error) : Except Error Unit :=
  if condition then .ok () else .error error

def requireCast (source target : ValueType) : Except Error Unit :=
  require (source = target ∨ source.isFloat = true ∧ target.isFloat = true)
    (.invalidCast source target)

end ValueType

namespace Operator

open ValueType Formula

/-- The types of the results of an operator for operands of given types, or its error. -/
def typing (op : Operator) (types : List ValueType) : Except Error (List ValueType) :=
  if types.length ≠ op.arity then .error (.invalidArgument (.operandCount op types.length))
  else match op, types with
  | log, types | lerp, types | fit, types | modulo, types | smoothstep, types
  | discretize, types | cylinderVolume, types | coneVolume, types | torusVolume, types => do
    let t ← agreed (widened types)
    return [t]
  | dot, types | distance, types | sqrDistance, types | signedDistanceToPlane, types => do
    let t ← agreed (widened types)
    return [scalarType t]
  | length, [t] => return [scalarType t]
  | clamp, [t, lo, hi] => do
    requireCast lo t
    requireCast hi t
    return [t]
  | degToRad, [t] | radToDeg, [t] => do
    requireCast .float t
    return [t]
  | normalize, [t] => do
    requireCast t .float
    return [t]
  | polarToRectangular, [theta, r] => do
    require (theta = .float) (.typeMismatch theta .float)
    requireCast r .float2
    return [.float2]
  | sphericalToRectangular, [theta, phi, r] => do
    require (theta = .float) (.typeMismatch theta .float)
    require (phi = .float) (.typeMismatch phi .float)
    requireCast r .float3
    return [.float3]
  | rectangularToPolar, [t] => do
    require (2 ≤ t.components) (.invalidArgument (.tooNarrow op 2 t))
    return [.float, .float]
  | rectangularToSpherical, [t] => do
    require (3 ≤ t.components) (.invalidArgument (.tooNarrow op 3 t))
    return [.float, .float, .float]
  | boxVolume, [t] => do
    require (3 ≤ t.components) (.invalidArgument (.tooNarrow op 3 t))
    return [.float]
  | colorLuma, [t] => do
    require (3 ≤ t.components) (.typeMismatch t .float4)
    return [.float]
  | gammaToLinear, [t] | linearToGamma, [t] => do
    require (3 ≤ t.components) (.invalidArgument (.notColor op t))
    return [t]
  | vanDerCorputSequence, [t] => do
    require (t = .uint) (.invalidArgument (.notUnsigned .vanDerCorputSequence "uint" t))
    return [.float]
  | fixedRandom, [t] | fixedRandomPerElement, [t] => do
    require (t = .uint) (.invalidArgument (.notUnsigned .fixedRandom "uint hash" t))
    return [.float]
  -- What is left acts channel by channel on one operand of any type.
  | _, types => return types

end Operator

namespace ValueType

open Formula

variable {types : List ValueType} {t : ValueType}

theorem widestFloat_eq (hmem : t ∈ types) (hfloat : t.isFloat = true)
    (hwidest : ∀ s ∈ types, rank s ≤ rank t) : widestFloat types = t := by
  have habsent (s : ValueType) (hs : rank t < rank s) : s ∉ types := fun hmem =>
    absurd (hwidest s hmem) (Nat.not_le.2 hs)
  unfold widestFloat
  cases t with
  | int | uint => cases hfloat
  | float4 => rw [if_pos hmem]
  | float3 => rw [if_neg (habsent .float4 (by decide)), if_pos hmem]
  | float2 =>
    rw [if_neg (habsent .float4 (by decide)), if_neg (habsent .float3 (by decide)), if_pos hmem]
  | float =>
    rw [if_neg (habsent .float4 (by decide)), if_neg (habsent .float3 (by decide)),
      if_neg (habsent .float2 (by decide))]

theorem isFloat_widestFloat (types : List ValueType) : (widestFloat types).isFloat = true := by
  unfold widestFloat
  split
  · rfl
  · split
    · rfl
    · split <;> rfl

theorem agreed_cons (first : ValueType) (others : List ValueType) :
    agreed (first :: others) =
      match others.find? (· != first) with
      | none => .ok first
      | some other => .error (.typeMismatch first other) := rfl

theorem agreed_eq_ok_iff : agreed types = .ok t ↔ types ≠ [] ∧ ∀ s ∈ types, s = t := by
  cases types with
  | nil => simp [agreed]
  | cons first others =>
    rw [agreed_cons]
    cases hother : others.find? (· != first) with
    | none =>
      rw [List.find?_eq_none] at hother
      constructor
      · rintro ⟨⟩
        exact ⟨by simp, by simpa using hother⟩
      · rintro ⟨-, h⟩
        exact congrArg _ (h first List.mem_cons_self)
    | some other =>
      have hmem : other ∈ others := List.mem_of_find?_eq_some hother
      have hne : other ≠ first := by simpa using List.find?_some hother
      constructor
      · rintro ⟨⟩
      · rintro ⟨-, h⟩
        rw [h other (List.mem_cons_of_mem first hmem), h first List.mem_cons_self] at hne
        exact absurd rfl hne

/-- After widening, types agree if they are all floats or all the same integer type. -/
theorem exists_agreed_widened_iff (hne : types ≠ []) :
    (∃ t, agreed (widened types) = .ok t) ↔
      (∀ t ∈ types, t.isFloat = true) ∨ ∃ t, t.isFloat = false ∧ ∀ s ∈ types, s = t := by
  have hwidened (t : ValueType) : (∀ s ∈ widened types, s = t) ↔
      ∀ s ∈ types, (if s.isFloat then widestFloat types else s) = t := by
    simp [widened]
  simp only [agreed_eq_ok_iff, hwidened]
  constructor
  · rintro ⟨t, -, h⟩
    cases ht : t.isFloat with
    | true =>
      refine .inl fun s hs => ?_
      by_contra hint
      have hst := h s hs
      rw [if_neg hint] at hst
      exact hint (hst ▸ ht)
    | false =>
      refine .inr ⟨t, ht, fun s hs => ?_⟩
      have hst := h s hs
      split at hst
      · rw [← hst, isFloat_widestFloat] at ht
        cases ht
      · exact hst
  · have hne : widened types ≠ [] := by simpa [widened] using hne
    rintro (hfloats | ⟨t, ht, hsame⟩)
    · exact ⟨widestFloat types, hne, fun s hs => if_pos (hfloats s hs)⟩
    · refine ⟨t, hne, fun s hs => ?_⟩
      rw [hsame s hs, if_neg (by simp [ht])]

end ValueType

namespace Formula

open ShaderAlgebra.Expr Build ValueType

variable {fails : Failure → Prop} {operands : List Expr}

theorem map_eq_map_of_forall₂ {α β γ : Type} {f : α → γ} {g : β → γ} {as : List α} {bs : List β}
    (h : List.Forall₂ (fun a b => f a = g b) as bs) : as.map f = bs.map g := by
  rw [← List.forall₂_eq_eq_eq, List.forall₂_map_left_iff, List.forall₂_map_right_iff]
  exact h

theorem widestFloat_of_widest? {t : ValueType} (h : widest? operands = some t)
    (hfloat : t.isFloat = true) : widestFloat (operands.map (·.type)) = t := by
  obtain ⟨e, he, rfl⟩ := exists_of_widest? h
  refine widestFloat_eq (List.mem_map_of_mem he) hfloat ?_
  rintro _ hs
  obtain ⟨x, hx, rfl⟩ := List.mem_map.1 hs
  exact rank_le_of_widest? h hx

theorem widened_of_length_lt {types : List ValueType} (h : types.length < 2) :
    widened types = types := by
  match types, h with
  | [], _ => rfl
  | [t], _ => cases t <;> rfl

theorem widen_types {filler : Single} (h : ∀ e ∈ operands, e.WellFormed) :
    Meets fails (widen operands filler) fun bs =>
      bs.map (·.type) = widened (operands.map (·.type)) := by
  unfold widen
  split
  next target htarget =>
    split
    next hfew =>
      exact Meets.pure (widened_of_length_lt (by simpa using hfew)).symm
    · refine (Meets.mapM_forall₂ (R := fun e b => b.type = if e.type.isFloat
        then widestFloat (operands.map (·.type)) else e.type) fun e he => ?_).imp ?_
      · split
        next hfloat =>
          have htargetFloat := isFloat_of_widest? htarget he hfloat
          rw [widestFloat_of_widest? htarget htargetFloat]
          exact (cast_meets_of_isFloat (h e he).hasType hfloat htargetFloat).imp fun b hb => hb.2
        · exact Meets.pure rfl
      · intro bs hbs
        rw [widened, List.map_map]
        exact map_eq_map_of_forall₂ hbs.flip
  · next hnone =>
    cases operands with
    | nil => exact Meets.pure rfl
    | cons first others =>
      obtain ⟨t, ht⟩ := exists_widest? (List.cons_ne_nil first others)
      rw [ht] at hnone
      cases hnone

theorem commonType_eq (operands : List Expr) :
    commonType operands =
      match agreed (operands.map (·.type)) with
      | .ok t => pure t
      | .error e => refuse e := by
  cases operands with
  | nil => rfl
  | cons first others =>
    have hfind : (others.map (·.type)).find? (· != first.type) =
        (others.find? (·.type != first.type)).map (·.type) := List.find?_map
    unfold commonType
    dsimp only
    rw [List.map_cons, agreed_cons, hfind]
    cases others.find? (·.type != first.type) <;> rfl

end Formula

namespace Operator

open ShaderAlgebra.Expr Build Formula ValueType

variable {op : Operator} {operands : List Expr}

/-- A step ends as a rule says of types: with the rule's error, or with results of its
types. -/
def Follows (step : Build (List Expr)) (rule : Except Error (List ValueType)) : Prop :=
  ∀ next, (step.runFrom next).1.map (List.map type) = rule.mapError .refused

variable {step step' : Build (List Expr)} {rule : Except Error (List ValueType)}

theorem Follows.of_simulates (h : Follows step' rule)
    (hside : ∀ w, byType.Simulates w step step' fun w => List.Forall₂ (byType.Related w)) :
    Follows step rule := by
  intro next
  rw [← h next]
  obtain ⟨_, -, -, hagree⟩ := hside next next next ⟨rfl, rfl⟩
  generalize (step.runFrom next).1 = outcome at hagree
  generalize (step'.runFrom next).1 = outcome' at hagree
  cases hagree with
  | ok houts => exact congrArg Except.ok (map_eq_map_of_forall₂ houts)
  | error failure => rfl

theorem Follows.refuse (e : Error) : Follows (refuse e) (.error e) := fun _ => rfl

theorem Follows.bind {α : Type} {step : Build α} {post : α → Prop} {f : α → Build (List Expr)}
    (h : Meets (fun _ => False) step post) (hf : ∀ a, post a → Follows (f a) rule) :
    Follows (step >>= f) rule := by
  intro next
  obtain ⟨a, ha, hpost⟩ := h.exists_ok next
  rw [runFrom_bind]
  rcases hrun : step.runFrom next with ⟨outcome, later⟩
  rw [hrun] at ha
  obtain rfl : outcome = .ok a := ha
  exact hf a hpost later

/-- The types of the results on operands that have come to one type. -/
def unifiedTyping (op : Operator) (t : ValueType) : List ValueType :=
  match op with
  | dot | distance | sqrDistance | signedDistanceToPlane => [scalarType t]
  | _ => [t]

theorem typing_of_unifies {types : List ValueType} (h : op.unifies = true)
    (hcount : types.length = op.arity) :
    op.typing types = (agreed (widened types)).map op.unifiedTyping := by
  unfold typing
  rw [if_neg (not_not.2 hcount)]
  cases op <;> first | rfl | cases h

/-- On operands of one type there are six cases for each operator. -/
theorem build_follows_of_unifies (h : op.unifies = true) (t : ValueType) :
    Follows (op.build (List.replicate op.arity (placeholder t))) (.ok (op.unifiedTyping t)) := by
  intro next
  cases op <;> first | (cases t <;> rfl) | cases h

theorem build_follows_of_types {t : ValueType} (h : op.unifies = true)
    (hcount : operands.length = op.arity) (htypes : ∀ e ∈ operands, e.type = t) :
    Follows (op.build operands) (.ok (op.unifiedTyping t)) := by
  refine (build_follows_of_unifies h t).of_simulates fun w => build_simulates ?_
  rw [← hcount, ← List.map_const, List.forall₂_map_right_iff, List.forall₂_same]
  exact htypes

theorem apply_follows_of_unifies (h : op.unifies = true) (hwell : ∀ e ∈ operands, e.WellFormed)
    (hcount : operands.length = op.arity) :
    Follows (op.apply operands) (op.typing (operands.map (·.type))) := by
  unfold Operator.apply
  rw [if_neg (not_not.2 hcount), if_pos h, typing_of_unifies h (by simpa using hcount)]
  refine Follows.bind (widen_types hwell) fun bs hbs => ?_
  dsimp only
  rw [commonType_eq, ← hbs]
  cases hagreed : agreed (bs.map (·.type)) with
  | error e => exact Follows.refuse e
  | ok t =>
    obtain ⟨-, hsame⟩ := agreed_eq_ok_iff.1 hagreed
    have hlength : bs.length = op.arity := by
      simpa [widened, hcount] using congrArg List.length hbs
    exact build_follows_of_types h hlength (by simpa using hsame)

/-- An operator that does not unify its operands has a single one, or is one of three. -/
@[elab_as_elim]
theorem cases_of_not_unifies {P : Operator → List ValueType → Prop}
    (clamp : ∀ t lo hi, P .clamp [t, lo, hi])
    (polar : ∀ theta r, P .polarToRectangular [theta, r])
    (spherical : ∀ theta phi r, P .sphericalToRectangular [theta, phi, r])
    (single : ∀ op : Operator, op.arity = 1 → ∀ t, P op [t])
    {types : List ValueType} (h : op.unifies = false) (hcount : types.length = op.arity) :
    P op types := by
  cases op with
  | clamp =>
    obtain ⟨t, lo, hi, rfl⟩ := List.length_eq_three.1 hcount
    exact clamp t lo hi
  | polarToRectangular =>
    obtain ⟨theta, r, rfl⟩ := List.length_eq_two.1 hcount
    exact polar theta r
  | sphericalToRectangular =>
    obtain ⟨theta, phi, r, rfl⟩ := List.length_eq_three.1 hcount
    exact spherical theta phi r
  | log | lerp | fit | modulo | smoothstep | discretize | dot | distance | sqrDistance
  | cylinderVolume | coneVolume | torusVolume | signedDistanceToPlane => cases h
  | _ =>
    obtain ⟨t, rfl⟩ := List.length_eq_one_iff.1 hcount
    exact single _ rfl t

theorem apply_follows_of_not_unifies {types : List ValueType} (h : op.unifies = false)
    (hcount : types.length = op.arity) :
    Follows (op.apply (types.map placeholder)) (op.typing types) := by
  refine cases_of_not_unifies ?_ ?_ ?_ ?_ h hcount
  · intro t lo hi next
    cases t <;> cases lo <;> cases hi <;> rfl
  · intro theta r next
    cases theta <;> cases r <;> rfl
  · intro theta phi r next
    cases theta <;> cases phi <;> cases r <;> rfl
  · intro op hop t next
    cases op <;> first | exact absurd hop (by decide) | (cases t <;> rfl)

theorem apply_follows (op : Operator) (operands : List Expr) :
    Follows (op.apply operands) (op.typing (operands.map (·.type))) := by
  by_cases hcount : operands.length = op.arity
  · -- Well-formed operands of the same types give results of the same types.
    let types := operands.map (·.type)
    have hside : List.Forall₂ (fun a b : Expr => a.type = b.type) operands
        (types.map placeholder) := by
      rw [List.map_map]
      exact List.forall₂_map_right_iff.2 (List.forall₂_same.2 fun _ _ => rfl)
    have htypes : (types.map placeholder).map (·.type) = types := by
      simp [Function.comp_def, type_placeholder]
    refine Follows.of_simulates ?_ fun w => apply_simulates op hside
    cases hunifies : op.unifies with
    | true =>
      have hwell : ∀ e ∈ types.map placeholder, e.WellFormed := by
        intro e he
        obtain ⟨t, -, rfl⟩ := List.mem_map.1 he
        exact wellFormed_placeholder t
      have hfollows := apply_follows_of_unifies hunifies hwell (by simpa [types] using hcount)
      rwa [htypes] at hfollows
    | false => exact apply_follows_of_not_unifies hunifies (by simpa [types] using hcount)
  · unfold Operator.apply typing
    rw [if_pos hcount, if_pos (by simpa using hcount), List.length_map]
    exact Follows.refuse _

theorem exists_typing_iff_of_unifies {types : List ValueType} (h : op.unifies = true)
    (hcount : types.length = op.arity) :
    (∃ results, op.typing types = .ok results) ↔
      (∀ t ∈ types, t.isFloat = true) ∨ ∃ t, t.isFloat = false ∧ ∀ s ∈ types, s = t := by
  have hne : types ≠ [] := by
    rintro rfl
    cases op <;> cases hcount
  rw [← exists_agreed_widened_iff hne, typing_of_unifies h hcount]
  cases agreed (widened types) with
  | ok t => exact ⟨fun _ => ⟨t, rfl⟩, fun _ => ⟨_, rfl⟩⟩
  | error e => exact ⟨nofun, nofun⟩

theorem require_bind_ne {β : Type} {condition : Prop} [Decidable condition] {e e' : Error}
    {next : Unit → Except Error β} (he : e ≠ e') (hnext : next () ≠ .error e') :
    require condition e >>= next ≠ .error e' := by
  unfold require
  split
  · exact hnext
  · rintro ⟨⟩
    exact he rfl

theorem agreed_ne_operandCount {types : List ValueType} {op' : Operator} {got : Nat} :
    agreed types ≠ .error (.invalidArgument (.operandCount op' got)) := by
  cases types with
  | nil => nofun
  | cons first others =>
    rw [agreed_cons]
    cases others.find? (· != first) <;> nofun

theorem typing_ne_operandCount {types : List ValueType} (hcount : types.length = op.arity)
    {op' : Operator} {got : Nat} :
    op.typing types ≠ .error (.invalidArgument (.operandCount op' got)) := by
  cases hunifies : op.unifies with
  | true =>
    rw [typing_of_unifies hunifies hcount]
    cases hagreed : agreed (widened types) with
    | ok t => nofun
    | error e =>
      rintro ⟨⟩
      exact agreed_ne_operandCount hagreed
  | false =>
    cases op with
    | log | lerp | fit | modulo | smoothstep | discretize | dot | distance | sqrDistance
    | cylinderVolume | coneVolume | torusVolume | signedDistanceToPlane => cases hunifies
    | clamp =>
      obtain ⟨t, lo, hi, rfl⟩ := List.length_eq_three.1 hcount
      exact require_bind_ne nofun (require_bind_ne nofun nofun)
    | polarToRectangular =>
      obtain ⟨theta, r, rfl⟩ := List.length_eq_two.1 hcount
      exact require_bind_ne nofun (require_bind_ne nofun nofun)
    | sphericalToRectangular =>
      obtain ⟨theta, phi, r, rfl⟩ := List.length_eq_three.1 hcount
      exact require_bind_ne nofun (require_bind_ne nofun (require_bind_ne nofun nofun))
    | degToRad | radToDeg | normalize | rectangularToPolar | rectangularToSpherical | boxVolume
    | colorLuma | gammaToLinear | linearToGamma | vanDerCorputSequence | fixedRandom
    | fixedRandomPerElement =>
      obtain ⟨t, rfl⟩ := List.length_eq_one_iff.1 hcount
      exact require_bind_ne nofun nofun
    | _ =>
      obtain ⟨t, rfl⟩ := List.length_eq_one_iff.1 hcount
      nofun

section Outcomes

variable {α β : Type} {f : α → β} {outcome : Except Failure α} {rule : Except Error β}

theorem refused_iff {e : Error} (h : outcome.map f = rule.mapError .refused) :
    outcome = .error (.refused e) ↔ rule = .error e := by
  cases outcome <;> cases rule <;> simp_all [Except.map, Except.mapError]

theorem exists_ok_iff (h : outcome.map f = rule.mapError .refused) :
    (∃ a, outcome = .ok a) ↔ ∃ b, rule = .ok b := by
  cases outcome <;> cases rule <;> simp_all [Except.map, Except.mapError]

end Outcomes

/-- Every call follows the typing rule. The number of operands is reported exactly if it is
wrong, and operators that widen their operands accept floats of any widths and integers of
one type. -/
theorem apply_typing (op : Operator) (operands : List Expr) (next : Nat) :
    ((op.apply operands).runFrom next).1.map (List.map type) =
        (op.typing (operands.map (·.type))).mapError .refused ∧
      ((∃ op' got, ((op.apply operands).runFrom next).1 =
          .error (.refused (.invalidArgument (.operandCount op' got)))) ↔
        operands.length ≠ op.arity) ∧
      (op.unifies = true → operands.length = op.arity →
        ((∃ outs, ((op.apply operands).runFrom next).1 = .ok outs) ↔
          (∀ e ∈ operands, e.type.isFloat = true) ∨
            ∃ t : ValueType, t.isFloat = false ∧ ∀ e ∈ operands, e.type = t)) := by
  have hfollows := apply_follows op operands next
  refine ⟨hfollows, ?_, ?_⟩
  · simp only [refused_iff hfollows]
    constructor
    · rintro ⟨op', got, h⟩ hcount
      exact typing_ne_operandCount (by simpa using hcount) h
    · intro hcount
      exact ⟨op, _, if_pos (by simpa using hcount)⟩
  · intro hunifies hcount
    rw [exists_ok_iff hfollows, exists_typing_iff_of_unifies hunifies (by simpa using hcount)]
    simp

def mixedKinds : List Expr :=
  [.leaf 0 (.input .uint "n"), .leaf 1 (.constant (.float 0)), .leaf 2 (.input .float2 "v")]

/-- The scalar is reported with the type that it is widened to. -/
theorem apply_lerp_mixedKinds :
    ((lerp.apply mixedKinds).runFrom 3).1 = .error (.refused (.typeMismatch .uint .float2)) ∧
      ¬∃ outs, ((lerp.apply mixedKinds).runFrom 3).1 = .ok outs := by
  obtain ⟨hfollows, -, haccepts⟩ := apply_typing lerp mixedKinds 3
  refine ⟨(refused_iff hfollows).2 rfl, ?_⟩
  rw [haccepts rfl rfl]
  rintro (hfloats | ⟨t, ht, hsame⟩)
  · exact absurd (hfloats _ List.mem_cons_self) (by decide)
  · have huint : .uint = t := hsame (.leaf 0 (.input .uint "n")) (by simp [mixedKinds])
    have hfloat : .float = t := hsame (.leaf 1 (.constant (.float 0))) (by simp [mixedKinds])
    exact absurd (huint.trans hfloat.symm) (by decide)

end Operator

end ShaderAlgebra
