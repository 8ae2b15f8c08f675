import CodeAtlas.Number.Single

namespace CodeAtlas.Json

structure Numeral where
  negative : Bool
  whole : List Char
  fraction : Option (List Char)
  exponent : Option Int

/-- What a numeral denotes. Only a numeral without point and exponent is a whole number, and only
if it fits in 64 bits; minus zero is a double. -/
inductive Quantity where
  | whole (n : Nat)
  | minus (n : Nat)
  | double (x : Float)

namespace Numeral

def digitValue (c : Char) : Nat :=
  c.toNat - '0'.toNat

def wordLimit : Nat := Nat.pow 2 64

/-- Digits before the point go into a 64-bit significand; from the first one that does not fit on,
they are only counted. -/
def takeWhole (digits : List Char) : Nat × Nat :=
  digits.foldl (fun (significand, dropped) c =>
    let next := significand * 10 + digitValue c
    if dropped = 0 ∧ next < wordLimit then (next, 0) else (significand, dropped + 1)) (0, 0)

/-- Digits after the point go into the same significand; from the first one that does not fit on,
they are ignored. The second result counts the digits taken. -/
def takeFraction (significand : Nat) : (places : Nat) → List Char → Nat × Nat
  | places, [] => (significand, places)
  | places, c :: cs =>
    let next := significand * 10 + digitValue c
    if next < wordLimit then takeFraction next (places + 1) cs else (significand, places)

def powerOfTen (k : Nat) : Float :=
  Float.ofScientific 1 false k

def shrink (x : Float) (k : Nat) : Float :=
  if k ≤ 308 then x / powerOfTen k
  else if x == 0 then x
  else shrink (x / powerOfTen 308) (k - 308)
termination_by k

/-- The double for `significand * 10 ^ exponent`: the significand is rounded and then scaled once.
There is none if the result is too large. -/
def scale? (significand : Nat) (exponent : Int) : Option Float :=
  let x := significand.toUInt64.toFloat
  if exponent < 0 then some (shrink x exponent.natAbs)
  else if exponent ≤ 308 then
    let y := x * powerOfTen exponent.toNat
    if y.isInf then none else some y
  else if x == 0 then some x
  else none

def quantity? (n : Numeral) : Option Quantity :=
  let (significand, dropped) := takeWhole n.whole
  match n.fraction, n.exponent, dropped with
  | none, none, 0 =>
    if !n.negative then some (.whole significand)
    else if 0 < significand ∧ significand ≤ Nat.pow 2 63 then some (.minus significand)
    else some (.double (-significand.toUInt64.toFloat))
  | fraction, exponent, _ =>
    let (significand, places) := takeFraction significand 0 (fraction.getD [])
    (scale? significand (dropped - places + exponent.getD 0)).map fun x =>
      .double (if n.negative then -x else x)

end Numeral

namespace Quantity

/-- Whole numbers are rounded once, doubles a second time. -/
def toSingle : Quantity → Float32
  | .whole n => n.toUInt64.toFloat32
  | .minus n => -n.toUInt64.toFloat32
  | .double x => Number.narrow x

end Quantity

end CodeAtlas.Json
