import ShaderAlgebra.Proofs.Decimal.Layout
import ShaderAlgebra.Proofs.Json.Text

/-!
# Written numbers

A number is scanned as its whole digits, an optional fraction and an optional
exponent. What the scan gives is stated for any digits that fit 64 bits; the
written integers and decimals are cases of it.
-/

namespace ShaderAlgebra.Json

open Request (bytesOfString)

variable {run whole fraction tail rest : List UInt8} {n significand : Nat} {negative : Bool}

/-! ### Digits -/

def runValue (n : Nat) (run : List UInt8) : Nat := run.foldl (fun n b => n * 10 + digitValue b) n

theorem le_runValue (n : Nat) (run : List UInt8) : n ≤ runValue n run := by
  induction run generalizing n with
  | nil => exact Nat.le_refl n
  | cons b run ih => exact Nat.le_trans (by omega) (ih (n * 10 + digitValue b))

theorem absorb_eq_runValue (h : runValue n run < UInt64.size) :
    absorb n run = (runValue n run, []) := by
  induction run generalizing n with
  | nil => rfl
  | cons b run ih =>
    have hnext : n * 10 + digitValue b < UInt64.size := Nat.lt_of_le_of_lt (le_runValue _ run) h
    rw [absorb, if_pos hnext]
    exact ih h

theorem runValue_append (n : Nat) (run run' : List UInt8) :
    runValue n (run ++ run') = runValue (runValue n run) run' := List.foldl_append

theorem absorb_lt (hn : n < UInt64.size) : (absorb n run).1 < UInt64.size := by
  induction run generalizing n with
  | nil => exact hn
  | cons b run ih =>
    simp only [absorb]
    split
    next hnext => exact ih hnext
    · exact hn

def digitBytes (n : Nat) : List UInt8 := (Nat.toDigits 10 n).map ascii

theorem toNat_ascii {c : Char} (h : c.toNat < 256) : (ascii c).toNat = c.toNat := by
  rw [ascii, Char.toUInt8, UInt32.toNat_toUInt8]
  exact Nat.mod_eq_of_lt h

theorem toNat_le_of_isDigit {c : Char} (h : c.isDigit) : 48 ≤ c.toNat ∧ c.toNat ≤ 57 := by
  simpa [Char.isDigit, UInt32.le_iff_toNat_le] using h

theorem isDigit_ascii {c : Char} (h : c.isDigit) : isDigit (ascii c) := by
  obtain ⟨hlow, hhigh⟩ := toNat_le_of_isDigit h
  have hbyte : (ascii c).toNat = c.toNat := toNat_ascii (by omega)
  simp only [isDigit, Bool.and_eq_true, decide_eq_true_eq, UInt8.le_iff_toNat_le, hbyte]
  exact ⟨hlow, hhigh⟩

theorem digitValue_ascii {c : Char} (h : c.isDigit) :
    digitValue (ascii c) = c.toNat - '0'.toNat := by
  rw [digitValue, toNat_ascii (Nat.lt_of_le_of_lt (toNat_le_of_isDigit h).2 (by decide))]
  rfl

theorem isDigit_of_mem_map {l : List Char} (h : ∀ c ∈ l, c.isDigit) :
    ∀ b ∈ l.map ascii, isDigit b := by
  intro b hb
  obtain ⟨c, hc, rfl⟩ := List.mem_map.mp hb
  exact isDigit_ascii (h c hc)

theorem isDigit_of_mem_digitBytes (n : Nat) : ∀ b ∈ digitBytes n, isDigit b :=
  isDigit_of_mem_map fun _ => Nat.isDigit_of_mem_toDigits (by decide) (by decide)

theorem digitBytes_ne_nil (n : Nat) : digitBytes n ≠ [] := by
  simp [digitBytes, Nat.toDigits_ne_nil]

theorem runValue_map_ascii {l : List Char} (h : ∀ c ∈ l, c.isDigit) (n : Nat) :
    runValue n (l.map ascii) = Nat.ofDigitChars 10 l n := by
  induction l generalizing n with
  | nil => rfl
  | cons c l ih =>
    have hstep : n * 10 + digitValue (ascii c) = 10 * n + (c.toNat - '0'.toNat) := by
      rw [digitValue_ascii (h c List.mem_cons_self), Nat.mul_comm]
    simp only [runValue, List.map_cons, List.foldl_cons, Nat.ofDigitChars, hstep]
    exact ih (fun d hd => h d (List.mem_cons_of_mem c hd)) _

theorem runValue_digitBytes (n : Nat) : runValue 0 (digitBytes n) = n := by
  rw [digitBytes, runValue_map_ascii fun c => Nat.isDigit_of_mem_toDigits (by decide) (by decide),
    Nat.ofDigitChars_ten_toDigits]

/-- A leading zero may only stand alone. -/
def NoLeadingZero (whole : List UInt8) : Prop :=
  ¬(whole.head? = some (ascii '0') ∧ 1 < whole.length)

theorem foldl_eq_runValue (n : Nat) (run : List UInt8) :
    run.foldl (fun (m : Int) b => 10 * m + digitValue b) n = runValue n run := by
  induction run generalizing n with
  | nil => rfl
  | cons b run ih =>
    have hstep : 10 * (n : Int) + digitValue b = (n * 10 + digitValue b : Nat) := by omega
    rw [List.foldl_cons, hstep, ih]
    rfl

theorem noLeadingZero_map {l : List Char} (hdigits : ∀ c ∈ l, c.isDigit)
    (h : ¬(l.head? = some '0' ∧ 1 < l.length)) : NoLeadingZero (l.map ascii) := by
  rintro ⟨hhead, hmore⟩
  cases l with
  | nil => cases hhead
  | cons c l =>
    have hdigit : c.isDigit := hdigits c List.mem_cons_self
    have hbyte : (ascii c).toNat = c.toNat :=
      toNat_ascii (Nat.lt_of_le_of_lt (toNat_le_of_isDigit hdigit).2 (by decide))
    have hzero : ascii c = ascii '0' := Option.some.inj hhead
    rw [hzero] at hbyte
    have hc : c = '0' := Char.toNat_inj.mp hbyte.symm
    exact h ⟨by rw [hc]; rfl, by simpa using hmore⟩

theorem noLeadingZero_digitBytes (n : Nat) : NoLeadingZero (digitBytes n) := by
  refine noLeadingZero_map (fun _ => Nat.isDigit_of_mem_toDigits (by decide) (by decide)) ?_
  rintro ⟨hhead, hmore⟩
  rcases Nat.eq_zero_or_pos n with rfl | hpositive
  · revert hmore
    decide
  · exact Decimal.head?_toDigits_ne_zero hpositive hhead

theorem flatMap_utf8EncodeChar_of_digits {l : List Char} (h : ∀ c ∈ l, c.isDigit) :
    l.flatMap String.utf8EncodeChar = l.map ascii :=
  flatMap_utf8EncodeChar_of_ascii fun c hc =>
    Nat.lt_of_le_of_lt (toNat_le_of_isDigit (h c hc)).2 (by decide)

theorem bytesOfString_repr (n : Nat) : bytesOfString n.repr = digitBytes n := by
  rw [Nat.repr_eq_ofList_toDigits, bytesOfString_ofList]
  exact flatMap_utf8EncodeChar_of_digits fun _ =>
    Nat.isDigit_of_mem_toDigits (by decide) (by decide)

/-! ### The parts of a number -/

namespace Scan

/-- A run of digits ends here. -/
def EndsRun (rest : List UInt8) : Prop := ∀ b ∈ rest.head?, isDigit b = false

theorem digits_apply (hrun : ∀ b ∈ run, isDigit b) (hrest : EndsRun rest) :
    digits (run ++ rest) = .ok (run, rest) := by
  have hempty : rest.takeWhile isDigit = [] ∧ rest.dropWhile isDigit = rest := by
    cases rest with
    | nil => simp
    | cons b rest => simp [hrest b rfl]
  change Except.ok ((run ++ rest).takeWhile isDigit, (run ++ rest).dropWhile isDigit) = _
  rw [List.takeWhile_append_of_pos hrun, List.dropWhile_append_of_pos hrun, hempty.1, hempty.2,
    List.append_nil]

theorem endsRun_of_stops (h : Stops rest) : EndsRun rest := fun b hb => (h b hb).1

theorem exponent?_none (hrest : Stops rest) : exponent? rest = .ok (none, rest) := by
  have hletter : ¬(rest.head? = some (ascii 'e') ∨ rest.head? = some (ascii 'E')) := by
    rintro (h | h)
    · exact (hrest _ h).2.2.1 rfl
    · exact (hrest _ h).2.2.2 rfl
  rw [exponent?, bind_of_ok peek_apply, if_neg hletter]
  rfl

theorem exponent?_signed {sign : UInt8} (hsign : sign = ascii '+' ∨ sign = ascii '-')
    (hrun : ∀ b ∈ run, isDigit b) (hne : run ≠ []) (hrest : Stops rest) :
    exponent? (ascii 'e' :: sign :: (run ++ rest)) =
      .ok (some (if sign = ascii '-' then -(runValue 0 run) else runValue 0 run), rest) := by
  have hvalue := foldl_eq_runValue 0 run
  have hexponent : exponent (sign :: (run ++ rest)) =
      .ok (if sign = ascii '-' then -(runValue 0 run) else runValue 0 run, rest) := by
    have hrun' : run.isEmpty = false := by simpa using hne
    have hsign' : some sign = some (ascii '+') ∨ some sign = some (ascii '-') := by
      simpa using hsign
    rw [exponent, bind_of_ok peek_apply, List.head?_cons, if_pos hsign', bind_of_ok skip_cons]
    refine (bind_of_ok (digits_apply hrun (endsRun_of_stops hrest))).trans ?_
    simp only [hrun', Bool.false_eq_true, if_false, Option.some.injEq, hvalue]
    rfl
  rw [exponent?, bind_of_ok peek_apply, List.head?_cons, if_pos (.inl rfl), bind_of_ok skip_cons]
  exact map_of_ok hexponent

theorem unsigned_fraction {x : Double} {e : Option Int} (hwhole : ∀ b ∈ whole, isDigit b)
    (hne : whole ≠ []) (hzero : NoLeadingZero whole) (hfraction : ∀ b ∈ fraction, isDigit b)
    (hsome : fraction ≠ []) (htail : EndsRun tail) (hexponent : exponent? tail = .ok (e, rest))
    (hsmall : runValue 0 (whole ++ fraction) < UInt64.size)
    (hreal : realOfParts? (runValue 0 (whole ++ fraction)) (-fraction.length + e.getD 0) = some x) :
    unsigned negative (whole ++ ascii '.' :: (fraction ++ tail)) =
      .ok (.real (if negative then -x else x), rest) := by
  have hpoint : EndsRun (ascii '.' :: (fraction ++ tail)) := by
    rintro b ⟨⟩
    decide
  rw [runValue_append] at hsmall hreal
  have hkept := absorb_eq_runValue (Nat.lt_of_le_of_lt (le_runValue _ fraction) hsmall)
  have hall := absorb_eq_runValue hsmall
  have hscale : ((0 : Nat) - (fraction.length - (0 : Nat) : Nat) : Int) = -fraction.length := by
    omega
  rw [unsigned, bind_of_ok (digits_apply hwhole hpoint), List.isEmpty_eq_false_iff.mpr hne]
  simp only [Bool.false_eq_true, if_false, if_neg hzero]
  refine (bind_of_ok peek_apply).trans ?_
  simp only [List.head?_cons]
  refine (bind_of_ok skip_cons).trans ((bind_of_ok (digits_apply hfraction htail)).trans ?_)
  simp only [List.isEmpty_eq_false_iff.mpr hsome, Bool.false_eq_true, if_false]
  refine (bind_of_ok hexponent).trans ?_
  simp only [hkept, hall, List.length_nil, hscale, real, hreal]
  rfl

theorem unsigned_exponent {x : Double} {e : Int} (hwhole : ∀ b ∈ whole, isDigit b)
    (hne : whole ≠ []) (hzero : NoLeadingZero whole) (htail : EndsRun tail)
    (hpoint : tail.head? ≠ some (ascii '.')) (hexponent : exponent? tail = .ok (some e, rest))
    (hsmall : runValue 0 whole < UInt64.size) (hreal : realOfParts? (runValue 0 whole) e = some x) :
    unsigned negative (whole ++ tail) = .ok (.real (if negative then -x else x), rest) := by
  have hscale : ((0 : Nat) : Int) + e = e := by omega
  rw [unsigned, bind_of_ok (digits_apply hwhole htail), List.isEmpty_eq_false_iff.mpr hne]
  simp only [Bool.false_eq_true, if_false, if_neg hzero]
  refine (bind_of_ok peek_apply).trans ?_
  rw [if_neg hpoint]
  refine (bind_of_ok hexponent).trans ?_
  simp only [absorb_eq_runValue hsmall, List.length_nil, hscale, real, hreal]
  rfl

theorem unsigned_integer (hwhole : ∀ b ∈ whole, isDigit b)
    (hne : whole ≠ []) (hzero : NoLeadingZero whole) (hrest : Stops rest)
    (hsmall : runValue 0 whole < UInt64.size) :
    unsigned negative (whole ++ rest) = .ok (integer negative (runValue 0 whole), rest) := by
  have hpoint : rest.head? ≠ some (ascii '.') := fun h => (hrest _ h).2.1 rfl
  rw [unsigned, bind_of_ok (digits_apply hwhole (endsRun_of_stops hrest)),
    List.isEmpty_eq_false_iff.mpr hne]
  simp only [Bool.false_eq_true, if_false, if_neg hzero]
  refine (bind_of_ok peek_apply).trans ?_
  rw [if_neg hpoint]
  refine (bind_of_ok (exponent?_none hrest)).trans ?_
  simp only [absorb_eq_runValue hsmall, List.isEmpty_nil, if_true]
  rfl

/-! ### Written numbers -/

theorem number_negative : number (ascii '-' :: rest) = unsigned true rest := rfl

/-- What is read without a sign does not begin with one. -/
theorem number_of_unsigned {input : List UInt8} {r : Number × List UInt8}
    (h : unsigned negative input = .ok r) : number input = unsigned false input := by
  have hhead : input.head? ≠ some (ascii '-') := by
    intro hhead
    obtain ⟨tail, rfl⟩ : ∃ tail, input = ascii '-' :: tail := List.head?_eq_some_iff.mp hhead
    have hnone : unsigned negative (ascii '-' :: tail) = .error .badNumber := rfl
    rw [hnone] at h
    cases h
  rw [number, bind_of_ok peek_apply, if_neg hhead]

theorem unsigned_digitBytes (negative : Bool) (hsmall : n < UInt64.size) (hrest : Stops rest) :
    unsigned negative (digitBytes n ++ rest) = .ok (integer negative n, rest) := by
  rw [unsigned_integer (isDigit_of_mem_digitBytes n) (digitBytes_ne_nil n)
    (noLeadingZero_digitBytes n) hrest (by rwa [runValue_digitBytes]), runValue_digitBytes]

theorem takes_number_nat (h : n < UInt64.size) :
    Takes number (bytesOfString (toString n)) (.ok (.integer n)) := by
  intro rest hrest
  change number (bytesOfString n.repr ++ rest) = _
  have hread := unsigned_digitBytes false h hrest
  rw [bytesOfString_repr, number_of_unsigned hread, hread]
  rfl

theorem takes_number_int {z : Int} (hlow : Int64.minValue.toInt ≤ z) (hhigh : z < UInt64.size) :
    Takes number (bytesOfString (toString z)) (.ok (.integer z)) := by
  cases z with
  | ofNat n => exact takes_number_nat (Int.ofNat_lt.mp hhigh)
  | negSucc n =>
    intro rest hrest
    have hmin : Int64.minValue.toInt = -9223372036854775808 := by decide
    have hsize : UInt64.size = 18446744073709551616 := rfl
    have hnegative : -((n + 1 : Nat) : Int) = Int.negSucc n := rfl
    have htext : bytesOfString (toString (Int.negSucc n)) = ascii '-' :: digitBytes (n + 1) := by
      change bytesOfString ("-" ++ (n + 1).repr) = _
      rw [bytesOfString_append, bytesOfString_repr]
      rfl
    have hrange : 0 < n + 1 ∧ Int64.minValue.toInt ≤ -((n + 1 : Nat) : Int) :=
      ⟨Nat.succ_pos n, Int.le_trans hlow (Int.le_of_eq hnegative.symm)⟩
    rw [htext, List.cons_append, number_negative, unsigned_digitBytes true (by omega) hrest,
      integer, if_pos rfl, if_pos hrange, hnegative]
    rfl

/-- The float of a decimal whose digits are all kept. -/
structure Reads (d : Decimal) (x : Double) : Prop where
  small : d.significand < UInt64.size
  real : realOfParts? d.significand d.exponent = some x

variable {d : Decimal} {x : Double}

theorem unsigned_inPlaceText (hnormal : d.Normal) (h : Reads d.withFraction x)
    (hrest : Stops rest) :
    unsigned negative ((d.inPlaceText true).flatMap String.utf8EncodeChar ++ rest) =
      .ok (.real (if negative then -x else x), rest) := by
  obtain ⟨hsmall, hreal⟩ : Reads (d.inFull true) x := h
  obtain ⟨whole, fraction, h⟩ := Decimal.exists_split true d
  have hfraction : fraction ≠ [] := h.fraction_ne_nil rfl
  have htext : (d.inPlaceText true).flatMap String.utf8EncodeChar =
      whole.map ascii ++ ascii '.' :: fraction.map ascii := by
    rw [h.text_eq, Decimal.pointed, if_neg hfraction, List.flatMap_append, List.flatMap_cons,
      flatMap_utf8EncodeChar_of_digits h.whole_digits,
      flatMap_utf8EncodeChar_of_digits h.fraction_digits, utf8EncodeChar_of_ascii (by decide)]
    rfl
  have hvalue :
      runValue 0 (whole.map ascii ++ fraction.map ascii) = (d.inFull true).significand := by
    rw [← List.map_append, runValue_map_ascii, h.significand_eq]
    exact List.forall_mem_append.2 ⟨h.whole_digits, h.fraction_digits⟩
  have hexponent : -((fraction.map ascii).length : Int) + (none : Option Int).getD 0 =
      (d.inFull true).exponent := by
    rw [List.length_map, Option.getD_none, Int.add_zero, h.exponent_eq]
  rw [htext, List.append_assoc, List.cons_append]
  exact unsigned_fraction (isDigit_of_mem_map h.whole_digits) (by simpa using h.whole_ne_nil)
    (noLeadingZero_map h.whole_digits (h.no_leading_zero hnormal))
    (isDigit_of_mem_map h.fraction_digits) (by simpa using hfraction) (endsRun_of_stops hrest)
    (exponent?_none hrest)
    (hvalue ▸ hsmall) (by rw [hvalue, hexponent, hreal])

def exponentBytes (e : Int) : List UInt8 :=
  ascii 'e' :: (if e < 0 then ascii '-' else ascii '+') :: digitBytes e.natAbs

theorem exponent?_exponentBytes (e : Int) (hrest : Stops rest) :
    EndsRun (exponentBytes e ++ rest) ∧
      exponent? (exponentBytes e ++ rest) = .ok (some e, rest) := by
  constructor
  · rintro b ⟨⟩
    decide
  · have hsign : (if e < 0 then ascii '-' else ascii '+') = ascii '+' ∨
        (if e < 0 then ascii '-' else ascii '+') = ascii '-' := by
      split <;> simp
    refine (exponent?_signed hsign (isDigit_of_mem_digitBytes _) (digitBytes_ne_nil _)
      hrest).trans ?_
    rw [runValue_digitBytes]
    by_cases hnegative : e < 0
    · rw [if_pos hnegative, if_pos rfl, show -(e.natAbs : Int) = e by omega]
    · rw [if_neg hnegative, if_neg (by decide), show (e.natAbs : Int) = e by omega]

theorem flatMap_exponentText (e : Int) :
    ('e' :: (if e < 0 then '-' else '+') :: Nat.toDigits 10 e.natAbs).flatMap
      String.utf8EncodeChar = exponentBytes e := by
  rw [exponentBytes, List.flatMap_cons, List.flatMap_cons, utf8EncodeChar_of_ascii (by decide),
    flatMap_utf8EncodeChar_of_digits fun _ => Nat.isDigit_of_mem_toDigits (by decide) (by decide)]
  split
  · rw [utf8EncodeChar_of_ascii (by decide)]
    rfl
  · rw [utf8EncodeChar_of_ascii (by decide)]
    rfl

theorem unsigned_scientificText (h : Reads d x) (hrest : Stops rest) :
    unsigned negative (d.scientificText.flatMap String.utf8EncodeChar ++ rest) =
      .ok (.real (if negative then -x else x), rest) := by
  obtain ⟨hsmall, hreal⟩ := h
  obtain ⟨c, more, hdigits⟩ := List.exists_cons_of_ne_nil d.digits_ne_nil
  have hleading : c.isDigit := d.isDigit_of_mem_digits c (by simp [hdigits])
  have hc : ∀ b ∈ [ascii c], isDigit b := by simpa using isDigit_ascii hleading
  have hmore : ∀ c ∈ more, c.isDigit := fun c hc =>
    d.isDigit_of_mem_digits c (by simp [hdigits, hc])
  have hzero : NoLeadingZero [ascii c] := fun h => absurd h.2 (by simp)
  have hbyte : String.utf8EncodeChar c = [ascii c] :=
    utf8EncodeChar_of_ascii (Nat.lt_of_le_of_lt (toNat_le_of_isDigit hleading).2 (by decide))
  have hvalue : runValue 0 ([ascii c] ++ more.map ascii) = d.significand := by
    have hall : runValue 0 (d.digits.map ascii) = d.significand :=
      (runValue_map_ascii d.isDigit_of_mem_digits 0).trans d.ofDigitChars_digits
    rwa [hdigits] at hall
  have hexponent : -(more.length : Int) + d.leadingExponent = d.exponent := by
    have hlength := congrArg List.length hdigits
    rw [List.length_cons] at hlength
    unfold Decimal.leadingExponent
    omega
  obtain ⟨hend, hread⟩ := exponent?_exponentBytes d.leadingExponent hrest
  rw [← hvalue] at hsmall hreal
  rw [Decimal.scientificText, hdigits, List.drop_one, List.tail_cons, List.take_succ_cons,
    List.take_zero]
  cases more with
  | nil =>
    rw [List.isEmpty_nil, if_pos rfl, List.append_nil, List.flatMap_append, flatMap_exponentText,
      List.flatMap_singleton, hbyte, List.append_assoc]
    refine unsigned_exponent hc (by simp) hzero hend (by simp [exponentBytes]; decide) hread
      hsmall ?_
    rw [← hreal, ← hexponent]
    simp
  | cons c' more =>
    rw [List.isEmpty_cons, if_neg (by simp), List.flatMap_append, flatMap_exponentText,
      List.flatMap_append, List.flatMap_singleton, hbyte, List.flatMap_cons,
      utf8EncodeChar_of_ascii (by decide), flatMap_utf8EncodeChar_of_digits hmore,
      List.append_assoc, List.append_assoc, List.cons_append, List.nil_append]
    refine unsigned_fraction hc (by simp) hzero (isDigit_of_mem_map hmore) (by simp) hend hread
      hsmall ?_
    change realOfParts? _ (-(((c' :: more).map ascii).length : Int) + d.leadingExponent) = some x
    rw [List.length_map, hexponent]
    exact hreal

/-- The text of a decimal is read as the float of its parts. -/
theorem unsigned_text (negative : Bool) (hnormal : d.Normal)
    (h : Reads (d.spelled singleLayout) x) (hrest : Stops rest) :
    unsigned negative ((d.text singleLayout).flatMap String.utf8EncodeChar ++ rest) =
      .ok (.real (if negative then -x else x), rest) := by
  unfold Decimal.spelled at h
  unfold Decimal.text
  split at h
  next hplace =>
    rw [if_pos hplace]
    exact unsigned_inPlaceText hnormal h hrest
  next hplace =>
    rw [if_neg hplace]
    exact unsigned_scientificText h hrest

/-- A finite 32-bit float is written as a number, and read as the 64-bit float of its sign and
its shortest decimal. -/
theorem takes_singleText {x : Single} {y : Double} (hfinite : x.isFinite)
    (h : Reads ((Decimal.shortest .even x).spelled singleLayout) y) :
    Takes number (bytesOfString (singleText x)) (.ok (.real (if x.negative then -y else y))) := by
  intro rest hrest
  have hread (negative : Bool) :=
    unsigned_text negative (Decimal.normal_shortest .even x) h hrest
  rw [singleText, if_pos hfinite, bytesOfString_ofList, Word.finiteText, List.flatMap_append]
  cases x.negative with
  | true => exact hread true
  | false => exact (number_of_unsigned (hread false)).trans (hread false)

end Scan

end ShaderAlgebra.Json
