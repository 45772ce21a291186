import ShaderAlgebra.Expr.Build

/-!
# Channels and conversions

Taking expressions apart into channels, adding scalars up, converting between
float types, and bringing a list of operands to one type.
-/

namespace ShaderAlgebra.Formula

open Build

/-- The scalar channels of an expression; a scalar is its own channel. -/
def channels (e : Expr) : Build (List Expr) :=
  if e.type.components = 1 then return [e]
  else (List.range e.type.components).mapM (channel e)

/-- The sum of a list of scalars, added from the last one down. -/
def sum (terms : List Expr) : Build (Option Expr) :=
  match terms.reverse with
  | [] => return none
  | last :: others => some <$> others.foldlM add last

/-- Converts between float types. Channels that the source has are kept; further ones
repeat a scalar source, or take the value `filler` after a vector. -/
def cast (e : Expr) (target : ValueType) (filler : Single) : Build Expr :=
  if !e.type.isFloat || !target.isFloat then refuse (.invalidCast e.type target)
  else if e.type = target then return e
  else do
    let source ← channels e
    let result ← (List.range target.components).mapM fun i =>
      match source[i]?, source with
      | some c, _ => return c
      | none, [c] => return c
      | none, _ => constant (.float filler)
    match result with
    | [c] => return c
    | _ => combine result

/-- An expression itself if it has the wanted type, and else its conversion. -/
def asType (e : Expr) (t : ValueType) : Build Expr :=
  if e.type = t then return e else cast e t 0

/-- Float types rank by width, and all of them above the integers. -/
def rank (t : ValueType) : Nat := if t.isFloat then t.components else 0

/-- The type of highest rank, of equal ones the last; `none` for no operands. -/
def widest? (operands : List Expr) : Option ValueType :=
  operands.foldl (fun best e =>
    match best with
    | some t => if rank t ≤ rank e.type then some e.type else some t
    | none => some e.type) none

/-- Converts float operands to the widest float type among them and leaves the others
alone. A list of fewer than two operands stays as it is. -/
def widen (operands : List Expr) (filler : Single) : Build (List Expr) :=
  match widest? operands with
  | some target =>
    if operands.length < 2 then return operands
    else operands.mapM fun e => if e.type.isFloat then cast e target filler else return e
  | none => return operands

/-- The type that all operands share. A refusal names the first type and the first one
that differs from it. -/
def commonType (operands : List Expr) : Build ValueType :=
  match operands with
  | [] => refuse (.invalidArgument .noOperands)
  | first :: others =>
    match others.find? (·.type != first.type) with
    | none => return first.type
    | some other => refuse (.typeMismatch first.type other.type)

/-- Brings operands to one float type and hands them to a formula. -/
def unify {α : Type} (formula : List Expr → Build α) (operands : List Expr) : Build α := do
  formula (← widen operands 0)

end ShaderAlgebra.Formula
