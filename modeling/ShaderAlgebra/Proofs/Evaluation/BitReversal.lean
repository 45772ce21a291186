import ShaderAlgebra.Formula.Random
import ShaderAlgebra.Proofs.Evaluation.Arithmetic

/-!
# The bit network

Each stage of the network exchanges the bits at places that differ in one binary
digit: the bit at place `i` comes from place `i ^^^ d`, with the distance `d` of the
stage. The distances of all stages together are 31, and `i ^^^ 31` is `31 - i`, so
that the network reverses the bits of a word. It does so in every domain that has
the words of 32 bits.
-/

namespace ShaderAlgebra

/-- The word whose bits are those of `n` in reverse order. -/
def reversed (n : UInt32) : UInt32 := ⟨n.toBitVec.reverse⟩

theorem getLsbD_reversed (n : UInt32) {i : Nat} (hi : i < 32) :
    (reversed n).toBitVec.getLsbD i = n.toBitVec.getLsbD (31 - i) := by
  rw [reversed, BitVec.getLsbD_reverse, BitVec.getMsbD_eq_getLsbD, decide_eq_true hi,
    Bool.true_and]

theorem testBit_reversed (n : UInt32) {i : Nat} (hi : i < 32) :
    (reversed n).toNat.testBit (31 - i) = n.toNat.testBit i := by
  have hplace : 31 - (31 - i) = i := by omega
  have hbit := getLsbD_reversed n (show 31 - i < 32 by omega)
  rwa [hplace, ← BitVec.testBit_toNat, ← BitVec.testBit_toNat] at hbit

theorem reversed_reversed (n : UInt32) : reversed (reversed n) = n :=
  UInt32.eq_of_toBitVec_eq BitVec.reverse_reverse_eq

theorem reversed_injective : Function.Injective reversed :=
  Function.LeftInverse.injective reversed_reversed

namespace Formula

section Words

variable {f g : UInt32 → UInt32} {d e : Nat} {stage : UInt32 × UInt32}
  {stages : List (UInt32 × UInt32)}

/-- The bit at place `i` is the one that was at place `i ^^^ d`. -/
structure Exchanges (d : Nat) (f : UInt32 → UInt32) : Prop where
  distance_lt : d < 32
  getLsbD_eq : ∀ n, ∀ i < 32, (f n).toBitVec.getLsbD i = n.toBitVec.getLsbD (i ^^^ d)

theorem exchanges_id : Exchanges 0 fun n => n :=
  ⟨by decide, fun _ _ _ => by rw [Nat.xor_zero]⟩

theorem Exchanges.comp (hg : Exchanges e g) (hf : Exchanges d f) :
    Exchanges (d ^^^ e) fun n => g (f n) where
  distance_lt := Nat.xor_lt_two_pow (n := 5) hf.distance_lt hg.distance_lt
  getLsbD_eq n i hi := by
    have hplace : i ^^^ e < 32 := Nat.xor_lt_two_pow (n := 5) hi hg.distance_lt
    rw [hg.getLsbD_eq _ i hi, hf.getLsbD_eq n _ hplace, Nat.xor_assoc, Nat.xor_comm e d]

theorem getLsbD_shl (n : UInt32) {shift : UInt32} (h : shift.toNat < 32) {i : Nat} (hi : i < 32) :
    (n <<< shift).toBitVec.getLsbD i =
      (decide (shift.toNat ≤ i) && n.toBitVec.getLsbD (i - shift.toNat)) := by
  have hmod : (shift.toBitVec % 32).toNat = shift.toNat := Nat.mod_eq_of_lt h
  rw [UInt32.toBitVec_shiftLeft, BitVec.shiftLeft_eq', BitVec.getLsbD_shiftLeft, hmod,
    decide_eq_true hi, Bool.true_and, ← decide_not]
  simp only [Nat.not_lt]

theorem getLsbD_shr (n : UInt32) {shift : UInt32} (h : shift.toNat < 32) (i : Nat) :
    (n >>> shift).toBitVec.getLsbD i = n.toBitVec.getLsbD (shift.toNat + i) := by
  have hmod : (shift.toBitVec % 32).toNat = shift.toNat := Nat.mod_eq_of_lt h
  rw [UInt32.toBitVec_shiftRight, BitVec.ushiftRight_eq', BitVec.getLsbD_ushiftRight, hmod]

def swapHalves (n : UInt32) : UInt32 := n <<< 16 ||| n >>> 16

theorem exchanges_swapHalves : Exchanges 16 swapHalves where
  distance_lt := by decide
  getLsbD_eq n i hi := by
    have hplace : ∀ i < 32, if 16 ≤ i then i ^^^ 16 = i - 16 else i ^^^ 16 = 16 + i := by decide
    have hplace := hplace i hi
    rw [swapHalves, UInt32.toBitVec_or, BitVec.getLsbD_or, getLsbD_shl n (by decide) hi,
      getLsbD_shr n (by decide)]
    change (decide (16 ≤ i) && n.toBitVec.getLsbD (i - 16) || n.toBitVec.getLsbD (16 + i)) = _
    split at hplace
    next hhigh =>
      have hbeyond : n.toBitVec.getLsbD (16 + i) = false := BitVec.getLsbD_of_ge _ _ (by omega)
      rw [hplace, hbeyond, decide_eq_true hhigh, Bool.or_false, Bool.true_and]
    next hlow => rw [hplace, decide_eq_false hlow, Bool.false_and, Bool.false_or]

def swapWord (n : UInt32) (stage : UInt32 × UInt32) : UInt32 :=
  (n &&& stage.1) <<< stage.2 ||| (n &&& ~~~stage.1) >>> stage.2

/-- The bit at a place has moved up from below, where the mask has one. -/
def fromBelow (stage : UInt32 × UInt32) (i : Nat) : Bool :=
  decide (stage.2.toNat ≤ i) && stage.1.toBitVec.getLsbD (i - stage.2.toNat)

/-- The bit at a place has moved down from above, where the mask has none. -/
def fromAbove (stage : UInt32 × UInt32) (i : Nat) : Bool :=
  decide (stage.2.toNat + i < 32) && !stage.1.toBitVec.getLsbD (stage.2.toNat + i)

/-- The mask and the distance of a stage fit together: each bit comes from one side. -/
def PairsPlaces (stage : UInt32 × UInt32) : Prop :=
  stage.2.toNat < 32 ∧ ∀ i < 32,
    fromBelow stage i = true ∧ fromAbove stage i = false ∧
        i ^^^ stage.2.toNat = i - stage.2.toNat ∨
      fromBelow stage i = false ∧ fromAbove stage i = true ∧
        i ^^^ stage.2.toNat = stage.2.toNat + i

instance (stage : UInt32 × UInt32) : Decidable (PairsPlaces stage) :=
  inferInstanceAs (Decidable (_ ∧ _))

theorem pairsPlaces_of_mem_swapStages (h : stage ∈ swapStages) : PairsPlaces stage := by
  have hall : swapStages.all (fun stage => decide (PairsPlaces stage)) = true := by decide +kernel
  exact of_decide_eq_true (List.all_eq_true.1 hall stage h)

theorem getLsbD_swapWord (n : UInt32) (h : stage.2.toNat < 32) {i : Nat} (hi : i < 32) :
    (swapWord n stage).toBitVec.getLsbD i =
      (fromBelow stage i && n.toBitVec.getLsbD (i - stage.2.toNat) ||
        fromAbove stage i && n.toBitVec.getLsbD (stage.2.toNat + i)) := by
  rw [swapWord, UInt32.toBitVec_or, BitVec.getLsbD_or, getLsbD_shl _ h hi, getLsbD_shr _ h,
    UInt32.toBitVec_and, UInt32.toBitVec_and, UInt32.toBitVec_not, BitVec.getLsbD_and,
    BitVec.getLsbD_and, BitVec.getLsbD_not, fromBelow, fromAbove, Bool.and_assoc,
    Bool.and_comm (stage.1.toBitVec.getLsbD _), Bool.and_comm (n.toBitVec.getLsbD (_ + i))]

theorem PairsPlaces.exchanges (h : PairsPlaces stage) :
    Exchanges stage.2.toNat (swapWord · stage) where
  distance_lt := h.1
  getLsbD_eq n i hi := by
    rw [getLsbD_swapWord n h.1 hi]
    rcases h.2 i hi with ⟨hbelow, habove, hplace⟩ | ⟨hbelow, habove, hplace⟩
    · rw [hbelow, habove, hplace, Bool.true_and, Bool.false_and, Bool.or_false]
    · rw [hbelow, habove, hplace, Bool.true_and, Bool.false_and, Bool.false_or]

/-- The distance that the bits are moved by all stages together. -/
def totalDistance (stages : List (UInt32 × UInt32)) : Nat :=
  stages.foldr (fun stage d => stage.2.toNat ^^^ d) 0

/-- The stages are independent of each other, and their distances add up without carries. -/
theorem exchanges_foldl_swapWord (h : ∀ stage ∈ stages, PairsPlaces stage) :
    Exchanges (totalDistance stages) fun n => stages.foldl swapWord n := by
  induction stages with
  | nil => exact exchanges_id
  | cons stage stages ih =>
    exact (ih fun s hs => h s (List.mem_cons_of_mem stage hs)).comp
      (h stage List.mem_cons_self).exchanges

/-- The network on words reverses their bits. -/
theorem foldl_swapWord_swapHalves (n : UInt32) :
    swapStages.foldl swapWord (swapHalves n) = reversed n := by
  have hnetwork :=
    (exchanges_foldl_swapWord fun _ h => pairsPlaces_of_mem_swapStages h).comp exchanges_swapHalves
  have hplace : ∀ i < 32, i ^^^ (16 ^^^ totalDistance swapStages) = 31 - i := by decide
  apply UInt32.eq_of_toBitVec_eq
  refine BitVec.eq_of_getLsbD_eq fun i hi => ?_
  rw [hnetwork.getLsbD_eq n i hi, hplace i hi, getLsbD_reversed n hi]

end Words

end Formula

variable {D : Type} {P : Primitives D} {word : UInt32 → D}

namespace Primitives

def swapGroups (P : Primitives D) (x : D) (stage : UInt32 × UInt32) : D :=
  P.binary .or (P.binary .shl (P.binary .and x (P.uint stage.1)) (P.uint stage.2))
    (P.binary .shr (P.binary .and x (P.uint (~~~stage.1))) (P.uint stage.2))

def reverseBits (P : Primitives D) (x : D) : D :=
  Formula.swapStages.foldl P.swapGroups
    (P.binary .or (P.binary .shl x (P.uint 16)) (P.binary .shr x (P.uint 16)))

theorem swapGroups_word (h : P.HasWords word) (n : UInt32) (stage : UInt32 × UInt32) :
    P.swapGroups (word n) stage = word (Formula.swapWord n stage) := by
  simp only [swapGroups, Formula.swapWord, h.constant, h.and, h.or, h.shl, h.shr]

theorem reverseBits_word (h : P.HasWords word) (n : UInt32) :
    P.reverseBits (word n) = word (reversed n) := by
  calc P.reverseBits (word n)
      = Formula.swapStages.foldl P.swapGroups (word (Formula.swapHalves n)) := by
        simp only [reverseBits, Formula.swapHalves, h.constant, h.or, h.shl, h.shr]
    _ = word (Formula.swapStages.foldl Formula.swapWord (Formula.swapHalves n)) :=
        List.foldl_hom word (swapGroups_word h)
    _ = word (reversed n) := by rw [Formula.foldl_swapWord_swapHalves]

end Primitives

namespace Formula

open ShaderAlgebra.Expr Build

variable {env : Environment D} {fails : Failure → Prop} {e bits : Expr} {x : D}

theorem uint_lanes (n : UInt32) :
    Meets fails (constant (.uint n)) (HasLanes P env .uint fun _ => P.uint n) :=
  Meets.node fun _ => ⟨rfl, fun _ _ => rfl⟩

theorem shift_lanes {op : BinaryOp} (he : HasLanes P env .uint (fun _ => x) e) (n : UInt32) :
    Meets fails (shift op e n) (HasLanes P env .uint fun _ => P.binary op x (P.uint n)) := by
  unfold shift
  apply (uint_lanes n).bind
  intro distance hdistance
  exact binary_lanes he hdistance

theorem swapGroups_lanes (hbits : HasLanes P env .uint (fun _ => x) bits)
    (stage : UInt32 × UInt32) :
    Meets fails (swapGroups bits stage) (HasLanes P env .uint fun _ => P.swapGroups x stage) := by
  unfold swapGroups
  apply (uint_lanes stage.1).bind
  intro lowMask hlowMask
  apply (binary_lanes hbits hlowMask).bind
  intro lowBits hlowBits
  apply (shift_lanes hlowBits stage.2).bind
  intro low hlow
  apply (uint_lanes (~~~stage.1)).bind
  intro highMask hhighMask
  apply (binary_lanes hbits hhighMask).bind
  intro highBits hhighBits
  apply (shift_lanes hhighBits stage.2).bind
  intro high hhigh
  exact binary_lanes hlow hhigh

theorem reverseBits_lanes (hbits : HasLanes P env .uint (fun _ => x) bits) :
    Meets fails (reverseBits bits) (HasLanes P env .uint fun _ => P.reverseBits x) := by
  unfold reverseBits
  apply (shift_lanes hbits 16).bind
  intro low hlow
  apply (shift_lanes hbits 16).bind
  intro high hhigh
  apply (binary_lanes hlow hhigh).bind
  intro swapped hswapped
  exact Meets.foldlM_foldl (R := fun e x => HasLanes P env .uint (fun _ => x) e)
    (fun stage _ bits x hbits => swapGroups_lanes hbits stage) hswapped

end Formula

end ShaderAlgebra
