import CodeAtlas.Number.Single

namespace CodeAtlas

/-- A point in time, in nanoseconds from some fixed one. -/
abbrev Instant := Int

abbrev Duration := Nat

namespace Instant

/-- The time from `start` to `now`, or none at all if `now` is earlier. -/
def since (now start : Instant) : Duration :=
  (now - start).toNat

end Instant

namespace Duration

def perSecond : Nat := 1000000000

def ofMillis (n : Nat) : Duration := n * 1000000

/-- Whole seconds and the part below a second are rounded one by one. -/
def toSeconds (d : Duration) : Float32 :=
  Float32.ofNat (d / perSecond) + Float32.ofNat (d % perSecond) / 1000000000

/-- The duration nearest to a number of seconds; a half goes to the even neighbour. There is none
for a negative number, for one that needs more than 64 bits for its seconds, and for what is not a
number. -/
def ofSeconds? (x : Float32) : Option Duration :=
  match Number.parts x with
  | .finite negative significand exponent =>
    let nanos := Number.roundScaled perSecond significand exponent
    if negative && significand ≠ 0 then none
    else if nanos < Nat.pow 2 64 * perSecond then some nanos
    else none
  | _ => none

end Duration

abbrev FrameNumber := Nat

namespace FrameNumber

def perSecond : Nat := 60

def since (now start : FrameNumber) : Float32 :=
  Float32.ofNat (now - start) / Float32.ofNat perSecond

def sinceLast (now : FrameNumber) : Option FrameNumber → Float32
  | none => 1 / 0
  | some start => now.since start

end FrameNumber

end CodeAtlas
