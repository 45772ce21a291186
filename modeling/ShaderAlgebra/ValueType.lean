/-!
# Value types

Every expression carries one of six value types: floats of one to four
channels, and signed or unsigned 32-bit integers. The list `ValueType.all`
fixes their order; a type's `index` is its place in that list.
-/

namespace ShaderAlgebra

/-- The numeric kind of an expression. -/
inductive ValueType
  | float
  | float2
  | float3
  | float4
  | int
  | uint
deriving DecidableEq, Repr

namespace ValueType

def all : List ValueType := [float, float2, float3, float4, int, uint]

def index : ValueType → Nat
  | float => 0
  | float2 => 1
  | float3 => 2
  | float4 => 3
  | int => 4
  | uint => 5

instance : Ord ValueType := ⟨fun a b => compare a.index b.index⟩

theorem getElem?_all_index (t : ValueType) : all[t.index]? = some t := by
  cases t <;> rfl

theorem mem_all (t : ValueType) : t ∈ all := by
  cases t <;> decide

theorem index_lt (t : ValueType) : t.index < 6 := by
  cases t <;> decide

theorem index_injective {s t : ValueType} (h : s.index = t.index) : s = t := by
  cases s <;> cases t <;> first | rfl | exact absurd h (by decide)

/-- The number of scalar channels. -/
def components : ValueType → Nat
  | float | int | uint => 1
  | float2 => 2
  | float3 => 3
  | float4 => 4

theorem components_pos (t : ValueType) : 0 < t.components := by
  cases t <;> decide

theorem components_le_four (t : ValueType) : t.components ≤ 4 := by
  cases t <;> decide

/-- The float family: `float`, `float2`, `float3` and `float4`. -/
def isFloat : ValueType → Bool
  | float | float2 | float3 | float4 => true
  | int | uint => false

def floatOfComponents? : Nat → Option ValueType
  | 1 => some float
  | 2 => some float2
  | 3 => some float3
  | 4 => some float4
  | _ => none

theorem floatOfComponents?_eq_some_iff {n : Nat} {t : ValueType} :
    floatOfComponents? n = some t ↔ t.isFloat = true ∧ t.components = n := by
  unfold floatOfComponents?
  split <;> cases t <;> simp_all [isFloat, components] <;> omega

def name : ValueType → String
  | float => "float"
  | float2 => "float2"
  | float3 => "float3"
  | float4 => "float4"
  | int => "int"
  | uint => "uint"

/-- The name of a type in diagnostics, which gives the width of integers. -/
def label : ValueType → String
  | float => "Float"
  | float2 => "Float2"
  | float3 => "Float3"
  | float4 => "Float4"
  | int => "Int32"
  | uint => "Uint32"

instance : ToString ValueType := ⟨name⟩

def ofName? (name : String) : Option ValueType := all.find? (·.name = name)

@[simp] theorem ofName?_name (t : ValueType) : ofName? t.name = some t := by
  cases t <;> rfl

end ValueType

end ShaderAlgebra
