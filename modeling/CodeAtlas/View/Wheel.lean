import CodeAtlas.Time

namespace CodeAtlas

/-- The wheel. A large turn takes effect little by little, over the frames that follow. -/
structure Wheel where
  pending : Float32

namespace Wheel

def still : Wheel := ⟨0⟩

def smallTurn : Float32 := 8

def smallRest : Float32 := 1

/-- The share of what is pending that takes effect in a frame, nine tenths of it in a tenth of a
second. -/
def share : Float32 :=
  1 - Float32.pow (1 - 0.9) (FrameNumber.since 1 0 / 0.1)

/-- Turn the wheel. The second result is what takes effect in this frame. -/
def turn (w : Wheel) (delta : Float32) : Wheel × Float32 :=
  let isSmall := delta.abs < smallTurn
  let atOnce := if isSmall then delta else 0
  let pending := if isSmall then w.pending else w.pending + delta
  if pending.abs < smallRest then (still, atOnce + pending)
  else
    let due := share * pending
    (⟨pending - due⟩, atOnce + due)

end Wheel

end CodeAtlas
