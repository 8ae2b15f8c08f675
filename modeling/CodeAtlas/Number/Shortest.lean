namespace CodeAtlas.Number

structure Decimal where
  digits : Nat
  exponent : Int

/-- The reals that round to `significand * 2 ^ exponent`, in quarters of its last place: the bounds
belong to them exactly when the significand is even. Below a power of two the gap is narrower. -/
structure Interval where
  low : Nat
  value : Nat
  high : Nat
  closed : Bool
  exponent : Int

def Interval.around (significand : Nat) (exponent : Int) : Interval where
  low := 4 * significand - (if significand = Nat.pow 2 23 && exponent > -149 then 1 else 2)
  value := 4 * significand
  high := 4 * significand + 2
  closed := significand % 2 = 0
  exponent := exponent - 2

def pow (base : Nat) (e : Int) : Nat := Nat.pow base e.toNat

/-- The factors that make `c * 10 ^ k` and `w * 2 ^ p` whole numbers on one scale. -/
def scales (k p : Int) : Nat × Nat :=
  (pow 10 k * pow 2 (-p), pow 2 p * pow 10 (-k))

/-- Of the two multiples of `10 ^ k` next to the value, the one inside the interval; the nearer one
if both are, and the even one if they are equally near. -/
def Interval.pick? (i : Interval) (k : Int) : Option Nat :=
  let (unit, scale) := scales k i.exponent
  let value := i.value * scale
  let below := value / unit
  let above := below + 1
  let fitsBelow := if i.closed then i.low * scale ≤ below * unit else i.low * scale < below * unit
  let fitsAbove := if i.closed then above * unit ≤ i.high * scale else above * unit < i.high * scale
  if fitsBelow && fitsAbove then
    let down := value - below * unit
    let up := above * unit - value
    some (if down < up then below else if up < down then above else below + below % 2)
  else if fitsBelow && below > 0 then some below
  else if fitsAbove then some above
  else none

def Interval.search (i : Interval) : (grids : Nat) → (k : Int) → Decimal
  | 0, k => ⟨0, k⟩
  | grids + 1, k =>
    match i.pick? k with
    | some c => ⟨c, k⟩
    | none => i.search grids (k - 1)

/-- The decimal with the fewest digits that rounds to `significand * 2 ^ exponent` in single
precision, and of those the nearest. No such number reaches `10 ^ 39`, and none needs a place
beyond the sixtieth. -/
def shortest (significand : Nat) (exponent : Int) : Decimal :=
  (Interval.around significand exponent).search 100 39

end CodeAtlas.Number
