namespace CodeAtlas.Number

/-- The smaller of two numbers, where a value that is not a number gives way to the other one. -/
def least (a b : Float32) : Float32 :=
  if a.isNaN || b < a then b else a

def greatest (a b : Float32) : Float32 :=
  if a.isNaN || a < b then b else a

def clamp (low high x : Float32) : Float32 :=
  if x < low then low else if high < x then high else x

/-- Bring `x` into the range from `low` to `high`, where minus zero comes before zero. -/
def clampSigned (low high x : Float32) : Float32 :=
  if x ≤ low then low else if high < x then high else x

def inRange (low high x : Float32) : Bool :=
  low ≤ x && x ≤ high

/-- The whole number at or below `x`, held within 32 bits at both ends. -/
def cellIndex (x : Float32) : Int32 :=
  x.floor.toInt32

inductive Parts where
  | notANumber
  | infinite (negative : Bool)
  | finite (negative : Bool) (significand : Nat) (exponent : Int)

def parts (x : Float32) : Parts :=
  let bits := x.toBits.toNat
  let negative := decide (bits ≥ Nat.pow 2 31)
  let scale : Nat := bits / Nat.pow 2 23 % Nat.pow 2 8
  let fraction : Nat := bits % Nat.pow 2 23
  if scale = 255 then
    if fraction = 0 then .infinite negative else .notANumber
  else if scale = 0 then .finite negative fraction (-149)
  else .finite negative (Nat.pow 2 23 + fraction) (scale - 150)

/-- Divide and round to the nearest whole number; a half goes to the even neighbour. -/
def roundDiv (n d : Nat) : Nat :=
  let q := n / d
  let r := n % d
  if 2 * r < d then q else if d < 2 * r then q + 1 else q + q % 2

def roundScaled (unit significand : Nat) (exponent : Int) : Nat :=
  if exponent ≥ 0 then significand * Nat.pow 2 exponent.toNat * unit
  else roundDiv (significand * unit) (Nat.pow 2 (-exponent).toNat)

def tenthsText (tenths : Nat) : List Char :=
  Nat.toDigits 10 (tenths / 10) ++ '.' :: Nat.toDigits 10 (tenths % 10)

def oneDecimal (x : Float32) : String :=
  match parts x with
  | .notANumber => "NaN"
  | .infinite negative => if negative then "-inf" else "inf"
  | .finite negative significand exponent =>
    String.ofList ((if negative then ['-'] else []) ++
      tenthsText (roundScaled 10 significand exponent))

/-- The single-precision number nearest to a double. A finite double is `m * 2 ^ q`, hence a decimal
fraction with `-q` places when `q` is negative, so it is rounded once and from its exact value. -/
def narrow (x : Float) : Float32 :=
  let bits := x.toBits.toNat
  let scale := bits / Nat.pow 2 52 % Nat.pow 2 11
  let fraction := bits % Nat.pow 2 52
  let magnitude : Float32 :=
    if scale = 2047 then
      if fraction = 0 then 1 / 0 else 0 / 0
    else
      let significand := if scale = 0 then fraction else Nat.pow 2 52 + fraction
      let exponent : Int := (max scale 1 : Nat) - 1075
      if exponent ≥ 0 then Float32.ofScientific (significand * Nat.pow 2 exponent.toNat) false 0
      else Float32.ofScientific (significand * Nat.pow 5 (-exponent).toNat) true (-exponent).toNat
  if bits ≥ Nat.pow 2 63 then -magnitude else magnitude

end CodeAtlas.Number
