import ShaderAlgebra.Json.Number

/-!
# Scanning written text

`Takes step text outcome` says that a step takes exactly `text` from the front
of the input, whatever follows, and ends in `outcome`. What follows must not
prolong a number, which has no closing mark of its own. Lists and objects whose
entries are taken one by one are taken as a whole, and the outcome is the fold
of the entries' outcomes: it stops at the first fault.
-/

namespace ShaderAlgebra.Json

/-- No number goes on with this byte. -/
def EndsNumber (b : UInt8) : Prop :=
  isDigit b = false ∧ b ≠ ascii '.' ∧ b ≠ ascii 'e' ∧ b ≠ ascii 'E'

instance (b : UInt8) : Decidable (EndsNumber b) := inferInstanceAs (Decidable (_ ∧ _))

/-- The end of the input, or a byte at which a number is over. -/
def Stops (rest : List UInt8) : Prop := ∀ b ∈ rest.head?, EndsNumber b

theorem Stops.nil : Stops [] := by simp [Stops]

theorem Stops.cons {b : UInt8} (h : EndsNumber b) (rest : List UInt8) : Stops (b :: rest) := by
  simpa [Stops] using h

namespace Scan

variable {ε α β σ : Type} {step : Scan ε α} {bytes text rest : List UInt8} {b : UInt8}
  {wrap : Fault → ε}

@[simp] theorem pure_apply (a : α) : (pure a : Scan ε α) bytes = .ok (a, bytes) := rfl

@[simp] theorem throw_apply (fault : ε) : (throw fault : Scan ε α) bytes = .error fault := rfl

theorem bind_apply (step : Scan ε α) (f : α → Scan ε β) :
    (step >>= f) bytes = step bytes >>= fun r => f r.1 r.2 := rfl

theorem bind_of_ok {f : α → Scan ε β} {a : α} (h : step bytes = .ok (a, rest)) :
    (step >>= f) bytes = f a rest := by
  rw [bind_apply, h]
  rfl

theorem bind_of_error {f : α → Scan ε β} {fault : ε} (h : step bytes = .error fault) :
    (step >>= f) bytes = .error fault := by
  rw [bind_apply, h]
  rfl

theorem map_of_ok {f : α → β} {a : α} (h : step bytes = .ok (a, rest)) :
    (f <$> step) bytes = .ok (f a, rest) := by
  change (step bytes >>= fun r => pure (f r.1, r.2)) = _
  rw [h]
  rfl

theorem widen_apply (s : Scan Fault α) : s.widen wrap bytes = (s bytes).mapError wrap := by
  unfold widen
  cases s bytes <;> rfl

theorem widen_of_ok {s : Scan Fault α} {a : α} (h : s bytes = .ok (a, rest)) :
    s.widen wrap bytes = .ok (a, rest) := by
  rw [widen_apply, h]
  rfl

theorem get_apply : (get : Scan ε _) bytes = .ok (bytes, bytes) := rfl

@[simp] theorem peek_apply : (peek : Scan ε _) bytes = .ok (bytes.head?, bytes) := rfl

@[simp] theorem skip_cons : (skip : Scan ε Unit) (b :: rest) = .ok ((), rest) := rfl

theorem peekToken_cons (h : isBlank b = false) :
    (peekToken : Scan ε _) (b :: rest) = .ok (some b, b :: rest) := by
  change (peek : Scan ε _) ((b :: rest).dropWhile isBlank) = _
  rw [List.dropWhile_cons_of_neg (by simp [h])]
  rfl

@[simp] theorem peekToken_nil : (peekToken : Scan ε _) [] = .ok (none, []) := rfl

def Takes (step : Scan ε α) (text : List UInt8) (outcome : Except ε α) : Prop :=
  ∀ rest, Stops rest → step (text ++ rest) = outcome.map (·, rest)

theorem Takes.map {outcome : Except ε α} (h : Takes step text outcome) (f : α → β) :
    Takes (do return f (← step)) text (outcome.map f) := by
  intro rest hrest
  have hstep := h rest hrest
  cases outcome with
  | ok a => exact bind_of_ok hstep
  | error fault => exact bind_of_error hstep

/-! ### Lists and objects -/

/-- What `foldItems` and `foldMembers` have in common: `next` decides whether another entry
follows. -/
def foldEntries (next : Bool → Scan Fault Bool) (wrap : Fault → ε) (entry : σ → Scan ε σ)
    (bound : List UInt8) (first : Bool) (acc : σ) : Scan ε σ := do
  if ← (next first).widen wrap then
    match bound with
    | [] => return acc
    | _ :: bound =>
      let acc ← entry acc
      foldEntries next wrap entry bound false acc
  else
    return acc

theorem foldItems_eq (item : σ → Scan ε σ) :
    foldItems wrap item = foldEntries nextItem wrap item := by
  funext bound first acc
  induction bound generalizing first acc with
  | nil => rw [foldItems.eq_def, foldEntries.eq_def]
  | cons b bound ih => rw [foldItems.eq_def, foldEntries.eq_def]; simp only [ih]

theorem foldMembers_eq (member : σ → Scan ε σ) :
    foldMembers wrap member = foldEntries nextKey wrap member := by
  funext bound first acc
  induction bound generalizing first acc with
  | nil => rw [foldMembers.eq_def, foldEntries.eq_def]
  | cons b bound ih => rw [foldMembers.eq_def, foldEntries.eq_def]; simp only [ih]

section Entries

variable {next : Bool → Scan Fault Bool} {close : UInt8} {xs : List β}
  {textOf : β → List UInt8} {f : σ → β → Except ε σ} {entry : σ → Scan ε σ}

def separator (first : Bool) : List UInt8 := if first then [] else [ascii ',']

/-- The texts of entries with commas between them. -/
def separated (textOf : β → List UInt8) : (first : Bool) → List β → List UInt8
  | _, [] => []
  | first, x :: xs => separator first ++ textOf x ++ separated textOf false xs

/-- An entry of this text is found by `next`, which takes the comma before it. -/
def Opens (next : Bool → Scan Fault Bool) (text : List UInt8) : Prop :=
  ∀ first rest, next first (separator first ++ (text ++ rest)) = .ok (true, text ++ rest)

/-- This byte ends the entries, and `next` leaves it in place. -/
def Closes (next : Bool → Scan Fault Bool) (close : UInt8) : Prop :=
  ∀ first rest, next first (close :: rest) = .ok (false, close :: rest)

theorem length_le_separated (textOf : β → List UInt8) (first : Bool) (xs : List β) :
    xs.length ≤ (separated textOf first xs).length + 1 := by
  have hcommas : xs.length ≤ (separated textOf false xs).length := by
    induction xs with
    | nil => simp
    | cons x xs ih =>
      simp only [separated, separator, List.length_append, List.length_cons] at ih ⊢
      simp only [Bool.false_eq_true, if_false, List.length_singleton]
      omega
  cases xs with
  | nil => simp
  | cons x xs =>
    simp only [separated, separator, List.length_append, List.length_cons] at hcommas ⊢
    simp only [Bool.false_eq_true, if_false, List.length_singleton] at hcommas
    omega

theorem stops_separated (hclose : EndsNumber close) :
    Stops (separated textOf false xs ++ close :: rest) := by
  cases xs with
  | nil => exact Stops.cons hclose rest
  | cons x xs => exact Stops.cons (by decide) _

theorem foldEntries_separated (hclose : EndsNumber close) (hcloses : Closes next close)
    (hopens : ∀ x ∈ xs, Opens next (textOf x))
    (hentry : ∀ x ∈ xs, ∀ acc, Takes (entry acc) (textOf x) (f acc x))
    {bound : List UInt8} (hbound : xs.length ≤ bound.length) (first : Bool) (acc : σ) :
    foldEntries next wrap entry bound first acc (separated textOf first xs ++ close :: rest) =
      (xs.foldlM f acc).map (·, close :: rest) := by
  induction xs generalizing first acc bound with
  | nil =>
    rw [foldEntries.eq_def, separated, List.nil_append, bind_of_ok (widen_of_ok (hcloses _ _))]
    rfl
  | cons x xs ih =>
    have hx : x ∈ x :: xs := List.mem_cons_self
    cases bound with
    | nil => simp at hbound
    | cons b bound =>
      have hstep := hentry x hx acc (separated textOf false xs ++ close :: rest)
        (stops_separated hclose)
      rw [foldEntries.eq_def, separated, List.append_assoc, List.append_assoc,
        bind_of_ok (widen_of_ok (hopens x hx first _))]
      simp only [if_true, List.foldlM_cons]
      cases houtcome : f acc x with
      | error fault =>
        rw [houtcome] at hstep
        exact bind_of_error hstep
      | ok acc' =>
        rw [houtcome] at hstep
        refine (bind_of_ok hstep).trans ?_
        exact ih (fun y hy => hopens y (List.mem_cons_of_mem x hy))
          (fun y hy => hentry y (List.mem_cons_of_mem x hy)) (by simpa using hbound) false acc'

theorem takes_entries {finish : Scan ε Unit} {acc : σ} (hclose : EndsNumber close)
    (hcloses : Closes next close) (hfinish : ∀ rest, finish (close :: rest) = .ok ((), rest))
    (hopens : ∀ x ∈ xs, Opens next (textOf x))
    (hentry : ∀ x ∈ xs, ∀ acc, Takes (entry acc) (textOf x) (f acc x)) :
    Takes (do
        let acc ← foldEntries next wrap entry (← get) true acc
        finish
        return acc) (separated textOf true xs ++ [close]) (xs.foldlM f acc) := by
  intro rest _
  let input := separated textOf true xs ++ close :: rest
  have hbound : xs.length ≤ input.length := by
    have hlength := length_le_separated textOf true xs
    simp only [input, List.length_append, List.length_cons]
    omega
  have hfold : foldEntries next wrap entry input true acc input =
      (xs.foldlM f acc).map (·, close :: rest) :=
    foldEntries_separated hclose hcloses hopens hentry hbound true acc
  rw [List.append_assoc, List.singleton_append, bind_of_ok get_apply]
  cases houtcome : xs.foldlM f acc with
  | error fault =>
    rw [houtcome] at hfold
    exact bind_of_error hfold
  | ok acc' =>
    rw [houtcome] at hfold
    exact (bind_of_ok hfold).trans (bind_of_ok (hfinish rest))

end Entries

theorem closes_nextItem : Closes nextItem (ascii ']') := by
  intro first rest
  rw [nextItem, bind_of_ok (peekToken_cons (by decide))]
  simp

theorem opens_nextItem (hblank : isBlank b = false) (hend : b ≠ ascii ']') :
    Opens nextItem (b :: text) := by
  intro first rest
  cases first with
  | true =>
    rw [nextItem]
    refine (bind_of_ok (peekToken_cons hblank)).trans ?_
    simp [hend]
  | false =>
    rw [nextItem]
    refine (bind_of_ok (peekToken_cons (by decide))).trans ?_
    simp only [show ¬(ascii ',' = ascii ']') by decide, Bool.false_eq_true, if_false, if_true]
    refine (bind_of_ok skip_cons).trans ((bind_of_ok (peekToken_cons hblank)).trans ?_)
    simp [hend]

theorem closes_nextKey : Closes nextKey (ascii '\x7d') := by
  intro first rest
  rw [nextKey, bind_of_ok (peekToken_cons (by decide))]
  simp

theorem opens_nextKey : Opens nextKey (ascii '"' :: text) := by
  intro first rest
  cases first with
  | true =>
    rw [nextKey]
    refine (bind_of_ok (peekToken_cons (by decide))).trans ?_
    simp [show ¬(ascii '"' = ascii '\x7d') by decide]
  | false =>
    rw [nextKey]
    refine (bind_of_ok (peekToken_cons (by decide))).trans ?_
    simp only [show ¬(ascii ',' = ascii '\x7d') by decide, Bool.false_eq_true, if_false, if_true]
    refine (bind_of_ok skip_cons).trans ((bind_of_ok (peekToken_cons (by decide))).trans ?_)
    simp

theorem endList_bracket : endList (ascii ']' :: rest) = .ok ((), rest) := by
  rw [endList, bind_of_ok (peekToken_cons (by decide))]
  simp

section Containers

variable {xs : List β} {textOf : β → List UInt8} {f : σ → β → Except ε σ} {acc : σ}

theorem takes_list {item : σ → Scan ε σ} (hopens : ∀ x ∈ xs, Opens nextItem (textOf x))
    (hitem : ∀ x ∈ xs, ∀ acc, Takes (item acc) (textOf x) (f acc x)) :
    Takes (list wrap item acc) (separated textOf true xs ++ [ascii ']']) (xs.foldlM f acc) := by
  unfold list
  rw [foldItems_eq]
  exact takes_entries (by decide) closes_nextItem (fun _ => widen_of_ok endList_bracket) hopens hitem

theorem takes_object {member : σ → Scan ε σ} (hopens : ∀ x ∈ xs, Opens nextKey (textOf x))
    (hmember : ∀ x ∈ xs, ∀ acc, Takes (member acc) (textOf x) (f acc x)) :
    Takes (object wrap member acc) (separated textOf true xs ++ [ascii '\x7d'])
      (xs.foldlM f acc) := by
  unfold object
  rw [foldMembers_eq]
  exact takes_entries (by decide) closes_nextKey (fun _ => skip_cons) hopens hmember

end Containers

end Scan

end ShaderAlgebra.Json
