import ShaderAlgebra.Formula.Vector

/-!
# Colours

Brightness, and the approximate transfer curve between stored and linear
colours. A fourth channel is opacity: it has no brightness and no curve.
-/

namespace ShaderAlgebra.Formula

open Build

/-- The exponent `2.2` of the transfer curve. -/
def gamma : Single := .ofRatio .single false 22 10

/-- The brightness `0.299`, `0.587` and `0.114` of the three colour channels. -/
def lumaWeights : Single × Single × Single :=
  (.ofRatio .single false 299 1000, .ofRatio .single false 587 1000,
    .ofRatio .single false 114 1000)

def colorLuma (color : Expr) : Build Expr := do
  let (r, g, b) := lumaWeights
  let weights ← constant (if color.type = .float3 then .float3 r g b else .float4 r g b 0)
  dot color weights

/-- A power of the three colour channels. -/
def colorPower (operator : Operator) (exponent : Single) (color : Expr) : Build Expr :=
  if color.type = .float3 ∨ color.type = .float4 then do
    let exponent ← constant (.float exponent)
    let parts ← channels color
    let powers ← (parts.take 3).mapM fun c => pow c exponent
    combine (powers ++ parts.drop 3)
  else refuse (.invalidArgument (.notColor operator color.type))

def gammaToLinear : Expr → Build Expr := colorPower .gammaToLinear gamma

def linearToGamma : Expr → Build Expr := colorPower .linearToGamma (1 / gamma)

end ShaderAlgebra.Formula
