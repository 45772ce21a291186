import ShaderAlgebra.Proofs.Json.Accuracy
import ShaderAlgebra.Proofs.Json.Number
import ShaderAlgebra.Proofs.Json.Outcome

/-!
# The range of read numbers

Every number that is read is an integer of 64 bits or a finite float. A number that
would be infinite is a fault: all powers of ten that a significand is multiplied or
divided by are finite and at least one. So all values hold such numbers only.
-/

namespace ShaderAlgebra.Json

open Binary (Format)

/-- An integer of 64 bits, with a sign of its own, or a finite float. -/
def Number.Bounded : Number → Prop
  | integer n => n.natAbs < UInt64.size
  | real x => x.isFinite

/-- All numbers that a value holds are bounded. -/
inductive Value.Bounded : Value → Prop
  | null : Bounded .null
  | bool (b : Bool) : Bounded (.bool b)
  | number {n : Number} : n.Bounded → Bounded (.number n)
  | string (s : String) : Bounded (.string s)
  | list {items : List Value} : (∀ v ∈ items, Bounded v) → Bounded (.list items)
  | object {members : List (String × Value)} :
      (∀ m ∈ members, Bounded m.2) → Bounded (.object members)

variable {s n : Nat} {e : Int} {x : Double}

theorem isFinite_ofNat (h : s < UInt64.size) : (Word.ofNat .double s).isFinite := by
  have hbits : s < 1 * 2 ^ 64 := by rwa [Nat.one_mul]
  exact Word.isFinite_ofRatio (fits_double (by decide)) Nat.one_pos hbits

theorem isFinite_powerOfTen (h : n ≤ 308) : (powerOfTen n).isFinite := by
  rcases Nat.lt_or_eq_of_le h with hlt | rfl
  · have hbits : Nat.pow 10 n < 1 * 2 ^ 1023 := by
      rw [Nat.one_mul]
      exact (Nat.pow_le_pow_right (by decide) (Nat.le_of_lt_succ hlt)).trans_lt (by decide +kernel)
    exact Word.isFinite_ofRatio (fits_double (by decide)) Nat.one_pos hbits
  · decide +kernel

theorem one_le_powerOfTen (h : n ≤ 308) : 2 ^ Format.double.unitBits ≤ (powerOfTen n).units := by
  have hnearest := Word.nearest_ofRatio (by decide) Nat.one_pos (isFinite_powerOfTen h)
  have hone : Format.double.units (1023 * 2 ^ 52) = 2 ^ Format.double.unitBits := by decide +kernel
  have hpower : (1 : ℚ) ≤ (Nat.pow 10 n : Nat) := by
    exact_mod_cast Nat.one_le_pow n 10 (by decide)
  rw [← hone]
  refine hnearest.units_le ?_
  rw [hone, Nat.cast_one, div_one]
  push_cast
  exact le_mul_of_one_le_left (by positivity) hpower

theorem isFinite_divideByPower (hx : x.isFinite) : (divideByPower x n).isFinite := by
  fun_induction divideByPower x n with
  | case1 x n hn =>
    exact Word.isFinite_div (by decide) hx (isFinite_powerOfTen hn) (one_le_powerOfTen hn)
  | case2 => exact hx
  | case3 x n hn hzero ih =>
    exact ih (Word.isFinite_div (by decide) hx (isFinite_powerOfTen (Nat.le_refl _))
      (one_le_powerOfTen (Nat.le_refl _)))

theorem isFinite_realOfParts? (hs : s < UInt64.size) (h : realOfParts? s e = some x) :
    x.isFinite := by
  have hsignificand := isFinite_ofNat hs
  simp only [realOfParts?] at h
  split at h
  · rw [← Option.some.inj h]
    exact isFinite_divideByPower hsignificand
  split at h
  next hlarge =>
    split at h
    · cases h
    next hfinite =>
      have hpower := isFinite_powerOfTen (n := e.toNat) (by omega)
      rw [← Option.some.inj h]
      rw [Word.mul_of_isFinite hsignificand hpower] at hfinite ⊢
      exact Word.isFinite_of_not_infinite (by simpa using hfinite)
  split at h
  · rw [← Option.some.inj h]
    exact hsignificand
  · cases h

namespace Scan

theorem real_gives (negative : Bool) (hs : s < UInt64.size) (e : Int) :
    Gives (real negative s e) Number.Bounded := by
  unfold real
  split
  next x hx =>
    have hfinite := isFinite_realOfParts? hs hx
    refine Gives.pure ?_
    cases negative with
    | true => exact (Word.isFinite_neg x).trans hfinite
    | false => exact hfinite
  · exact Gives.throw

theorem bounded_integer (negative : Bool) (hn : n < UInt64.size) :
    (integer negative n).Bounded := by
  unfold integer
  split
  · split
    · change (-(n : Int)).natAbs < UInt64.size
      rwa [Int.natAbs_neg, Int.natAbs_natCast]
    · exact (Word.isFinite_neg _).trans (isFinite_ofNat hn)
  · exact hn

theorem unsigned_gives (negative : Bool) : Gives (unsigned negative) Number.Bounded := by
  unfold unsigned
  refine Gives.seq fun whole => Gives.guard (Gives.guard (Gives.seq fun b => ?_))
  have hwhole : (absorb 0 whole).1 < UInt64.size := absorb_lt (by decide)
  split
  · refine Gives.seq fun _ => Gives.seq fun fraction => Gives.guard (Gives.seq fun e => ?_)
    exact real_gives negative (absorb_lt hwhole) _
  · refine Gives.seq fun e => ?_
    split
    · exact real_gives negative hwhole _
    split
    · exact Gives.pure (bounded_integer negative hwhole)
    · exact real_gives negative hwhole _

theorem number_gives : Gives number Number.Bounded := by
  unfold number
  refine Gives.seq fun b => ?_
  split
  · exact Gives.seq fun _ => unsigned_gives true
  · exact unsigned_gives false

/-- A number that a token is, if it is one, is bounded. -/
theorem token_gives : Gives token fun found => ∀ n, found = .number n → n.Bounded := by
  have hother (found : Found) (h : ∀ n, found ≠ .number n) :
      Gives (pure found : Scan Fault Found) fun found => ∀ n, found = .number n → n.Bounded :=
    Gives.pure fun n hn => absurd hn (h n)
  unfold token
  refine Gives.seq fun b => ?_
  split
  · exact Gives.throw
  split
  · exact Gives.seq fun _ => hother _ (by simp)
  split
  · exact Gives.seq fun _ => hother _ (by simp)
  split
  · exact Gives.seq fun _ => hother _ (by simp)
  split
  · refine number_gives.bind fun n hn => Gives.pure ?_
    rintro _ ⟨⟩
    exact hn
  split
  · exact Gives.seq fun _ => hother _ (by simp)
  split
  · exact hother _ (by simp)
  split
  · exact hother _ (by simp)
  · exact Gives.throw

theorem valueOver_gives {inner : Option (Scan Fault Value)}
    (h : ∀ step ∈ inner, Gives step Value.Bounded) : Gives (valueOver inner) Value.Bounded := by
  unfold valueOver
  refine token_gives.bind fun found hfound => ?_
  split
  · exact Gives.pure .null
  · exact Gives.pure (.bool _)
  · exact Gives.pure (.number (hfound _ rfl))
  · exact Gives.pure (.string _)
  next step =>
    have hitems : Gives (list id (fun items => do return items.push (← step)) #[])
        fun items : Array Value => ∀ v ∈ items, v.Bounded := by
      refine list_gives (fun items hitems => ?_) (by simp)
      refine (h step rfl).bind fun v hv => Gives.pure fun u hu => ?_
      rcases Array.mem_push.1 hu with hu | rfl
      · exact hitems u hu
      · exact hv
    refine Gives.seq fun _ => hitems.bind fun items hitems => Gives.pure (.list fun v hv => ?_)
    exact hitems v (by simpa using hv)
  next step =>
    have hmembers : Gives (object id (fun members => do
          let key ← string
          colon
          return members.push (key, ← step)) #[])
        fun members : Array (String × Value) => ∀ m ∈ members, m.2.Bounded := by
      refine object_gives (fun members hmembers => ?_) (by simp)
      refine Gives.seq fun key => Gives.seq fun _ => ?_
      refine (h step rfl).bind fun v hv => Gives.pure fun m hm => ?_
      rcases Array.mem_push.1 hm with hm | rfl
      · exact hmembers m hm
      · exact hv
    refine Gives.seq fun _ => hmembers.bind fun members hmembers =>
      Gives.pure (.object fun m hm => ?_)
    exact hmembers m (by simpa using hm)
  · exact Gives.throw

theorem value_gives (depth : Nat) : Gives (value depth) Value.Bounded := by
  induction depth with
  | zero => exact valueOver_gives (by simp)
  | succ depth ih =>
    refine valueOver_gives ?_
    rintro _ ⟨⟩
    exact ih

end Scan

end ShaderAlgebra.Json
