namespace CodeAtlas

structure Forces where
  linkDistance : Float32
  /-- Strength between any two bodies; a negative one drives them apart. -/
  chargeStrength : Float32
  collideRadius : Float32
  /-- How coarsely far bodies are summed up. -/
  theta : Float32
  velocityDecay : Float32
  alphaMin : Float32
  alphaDecay : Float32

namespace Forces

/-- The decay that takes the energy from one to `alphaMin` in about 300 ticks. -/
def decayFor (alphaMin : Float32) : Float32 :=
  1 - alphaMin.pow (1 / 300)

def default : Forces where
  linkDistance := 150
  chargeStrength := -300
  collideRadius := 40
  theta := 0.9
  velocityDecay := 0.4
  alphaMin := 0.001
  alphaDecay := decayFor 0.001

instance : Inhabited Forces := ⟨default⟩

def toList (f : Forces) : List Float32 :=
  [f.linkDistance, f.chargeStrength, f.collideRadius, f.theta, f.velocityDecay, f.alphaMin,
    f.alphaDecay]

instance : BEq Forces := ⟨fun f g => f.toList == g.toList⟩

end Forces

end CodeAtlas
