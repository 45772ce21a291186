import ShaderAlgebra.Expr.Text
import Std.Data.HashMap

/-!
# Shared text

The text of several expressions in which a node that is used more than once is
bound to a name at its first use. Leaves are short and never bound. Uses are
counted over the distinct nodes: each root is a use, and each operand slot of
a node that has been reached, once per node.
-/

namespace ShaderAlgebra

/-- Bindings in dependency order, and one text for each root. -/
structure SharedText where
  bindings : List String
  roots : List String
deriving DecidableEq

namespace SharedText

/-- How often each node is used, by identity. -/
abbrev Uses := Std.HashMap Nat Nat

/-- Counts a use, and goes on to the operands at the first one. -/
def countUses (e : Expr) : StateM Uses Unit :=
  e.walk (fun e => do
      let seen := (← get).getD e.id 0
      modify (·.insert e.id (seen + 1))
      return if seen = 0 then none else some ())
    fun _ _ => return ()

/-- The bindings written so far, and the number of each bound node's binding. -/
structure Bound where
  numbers : Std.HashMap Nat Nat := ∅
  bindings : Array String := #[]

def bindingName (number : Nat) : String := "t" ++ toString number

/-- A binding of a node of a given type to the name of a given number. -/
def bindingText (number : Nat) (type : ValueType) (text : String) : String :=
  "let " ++ bindingName number ++ ": " ++ type.name ++ " = " ++ text ++ ";"

/-- Binds a finished node if it has several uses and operands of its own. -/
def finish (uses : Uses) (e : Expr) (n : Node String) : StateM Bound String := do
  if 1 < uses.getD e.id 0 && !e.isLeaf then
    let bound ← get
    let number := bound.bindings.size
    set { bound with
      numbers := bound.numbers.insert e.id number
      bindings := bound.bindings.push (bindingText number e.type n.text) : Bound }
    return bindingName number
  else
    return n.text

/-- The text of an expression at one place: the name of its binding if it has one. -/
def write (uses : Uses) (e : Expr) : StateM Bound String :=
  e.walk (fun e => return (← get).numbers[e.id]?.map bindingName) (finish uses)

def render (roots : List Expr) : SharedText :=
  let uses := ((roots.forM countUses).run ∅).2
  let (texts, bound) := (roots.mapM (write uses)).run {}
  ⟨bound.bindings.toList, texts⟩

/-- All lines: the bindings, then the roots. -/
def lines (t : SharedText) : List String := t.bindings ++ t.roots

def text (t : SharedText) : String := String.join (t.lines.map (· ++ "\n"))

end SharedText

end ShaderAlgebra
