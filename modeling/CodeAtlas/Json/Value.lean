import CodeAtlas.Number.Shortest
import CodeAtlas.Number.Single

namespace CodeAtlas

inductive Json where
  | null
  | bool (b : Bool)
  | nat (n : Nat)
  | single (x : Float32)
  | str (s : String)
  | arr (items : List Json)
  | obj (members : List (String × Json))

namespace Json

def decimalDigits (n : Nat) : List Char :=
  Nat.toDigits 10 n

/-- Numbers from a millionth up to ten trillion are written without an exponent and keep a place
after the point; all others as `d.ddde+dd`, with the sign of the exponent always written. -/
def decimalText (d : Number.Decimal) : List Char :=
  let digits := decimalDigits d.digits
  let magnitude : Int := d.exponent + digits.length - 1
  if -6 ≤ magnitude ∧ magnitude ≤ 12 then
    if d.exponent ≥ 0 then digits ++ List.replicate d.exponent.toNat '0' ++ ['.', '0']
    else if magnitude ≥ 0 then
      digits.take (magnitude.toNat + 1) ++ '.' :: digits.drop (magnitude.toNat + 1)
    else '0' :: '.' :: List.replicate (-magnitude - 1).toNat '0' ++ digits
  else
    let mantissa := match digits with
      | c :: c' :: cs => c :: '.' :: c' :: cs
      | cs => cs
    mantissa ++ 'e' :: (if magnitude < 0 then '-' else '+') :: decimalDigits magnitude.natAbs

def nullText : List Char := ['n', 'u', 'l', 'l']

/-- A number that is not finite has no text of its own and is written as `null`. -/
def singleText (x : Float32) : List Char :=
  match Number.parts x with
  | .finite negative significand exponent =>
    (if negative then ['-'] else []) ++
      (if significand = 0 then ['0', '.', '0']
        else decimalText (Number.shortest significand exponent))
  | _ => nullText

def escape (c : Char) : List Char :=
  if c = '"' then ['\\', '"']
  else if c = '\\' then ['\\', '\\']
  else if c = '\n' then ['\\', 'n']
  else if c = '\r' then ['\\', 'r']
  else if c = '\t' then ['\\', 't']
  else if c = '\x08' then ['\\', 'b']
  else if c = '\x0c' then ['\\', 'f']
  else if c.toNat < 16 then ['\\', 'u', '0', '0', '0', Nat.digitChar c.toNat]
  else if c.toNat < 32 then ['\\', 'u', '0', '0', '1', Nat.digitChar (c.toNat - 16)]
  else [c]

def quote (s : String) : List Char :=
  '"' :: s.toList.flatMap escape ++ ['"']

mutual

def compactChars : Json → List Char
  | .null => nullText
  | .bool true => ['t', 'r', 'u', 'e']
  | .bool false => ['f', 'a', 'l', 's', 'e']
  | .nat n => decimalDigits n
  | .single x => singleText x
  | .str s => quote s
  | .arr [] => ['[', ']']
  | .arr (v :: vs) => '[' :: compactChars v ++ compactItems vs
  | .obj [] => ['{', '}']
  | .obj ((k, v) :: ms) => '{' :: quote k ++ ':' :: compactChars v ++ compactMembers ms

def compactItems : List Json → List Char
  | [] => [']']
  | v :: vs => ',' :: compactChars v ++ compactItems vs

def compactMembers : List (String × Json) → List Char
  | [] => ['}']
  | (k, v) :: ms => ',' :: quote k ++ ':' :: compactChars v ++ compactMembers ms

end

def newLine (depth : Nat) : List Char :=
  '\n' :: List.replicate (2 * depth) ' '

mutual

def prettyChars (depth : Nat) : Json → List Char
  | .null => nullText
  | .bool true => ['t', 'r', 'u', 'e']
  | .bool false => ['f', 'a', 'l', 's', 'e']
  | .nat n => decimalDigits n
  | .single x => singleText x
  | .str s => quote s
  | .arr [] => ['[', ']']
  | .arr (v :: vs) =>
    '[' :: newLine (depth + 1) ++ prettyChars (depth + 1) v ++ prettyItems depth vs
  | .obj [] => ['{', '}']
  | .obj ((k, v) :: ms) =>
    '{' :: newLine (depth + 1) ++ quote k ++ ':' :: ' ' :: prettyChars (depth + 1) v ++
      prettyMembers depth ms

def prettyItems (depth : Nat) : List Json → List Char
  | [] => newLine depth ++ [']']
  | v :: vs =>
    ',' :: newLine (depth + 1) ++ prettyChars (depth + 1) v ++ prettyItems depth vs

def prettyMembers (depth : Nat) : List (String × Json) → List Char
  | [] => newLine depth ++ ['}']
  | (k, v) :: ms =>
    ',' :: newLine (depth + 1) ++ quote k ++ ':' :: ' ' :: prettyChars (depth + 1) v ++
      prettyMembers depth ms

end

def compact (j : Json) : String :=
  String.ofList j.compactChars

def pretty (j : Json) : String :=
  String.ofList (j.prettyChars 0)

def member? (key : String) : Option Json → List (String × Json)
  | none => []
  | some v => [(key, v)]

end Json

end CodeAtlas
