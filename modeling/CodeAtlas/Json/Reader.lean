import CodeAtlas.Json.Numeral

namespace CodeAtlas.Json

inductive ReadError where
  | endOfText
  | malformed
  | wrongShape
deriving DecidableEq, Repr

/-- A reader takes a value off the front of a text. The first fault in reading order is the one
that it reports. -/
abbrev Reader (α : Type) := List Char → Except ReadError (α × List Char)

inductive Round (σ α : Type) where
  | more (state : σ)
  | done (value : α)

variable {σ α β : Type}

/-- Every round but the last takes at least one character off the text, so a loop that starts with
the text itself as `fuel` does not run out of it before the text ends. -/
def rounds (step : σ → Reader (Round σ α)) (fuel : List Char) (state : σ) : Reader α := fun cs =>
  match step state cs with
  | .error e => .error e
  | .ok (.done value, rest) => .ok (value, rest)
  | .ok (.more next, rest) =>
    match fuel with
    | [] => .error .endOfText
    | _ :: fuel => rounds step fuel next rest

def loop (step : σ → Reader (Round σ α)) (state : σ) : Reader α := fun cs =>
  rounds step cs state cs

def isBlank (c : Char) : Bool :=
  c == ' ' || c == '\t' || c == '\n' || c == '\r'

def skipBlank (cs : List Char) : List Char :=
  cs.dropWhile isBlank

def letters : List Char → Reader Unit
  | [], cs => .ok ((), cs)
  | _ :: _, [] => .error .endOfText
  | w :: ws, c :: cs => if c = w then letters ws cs else .error .malformed

def hexValue? (c : Char) : Option Nat :=
  if '0' ≤ c ∧ c ≤ '9' then some (c.toNat - '0'.toNat)
  else if 'a' ≤ c ∧ c ≤ 'f' then some (c.toNat - 'a'.toNat + 10)
  else if 'A' ≤ c ∧ c ≤ 'F' then some (c.toNat - 'A'.toNat + 10)
  else none

def byteLength (cs : List Char) : Nat :=
  cs.foldr (fun c n => c.utf8Size + n) 0

/-- Four hexadecimal digits. A text of fewer than four bytes is too short to tell. -/
def hexWord : Reader Nat
  | a :: b :: c :: d :: rest =>
    match hexValue? a, hexValue? b, hexValue? c, hexValue? d with
    | some a, some b, some c, some d => .ok (((a * 16 + b) * 16 + c) * 16 + d, rest)
    | _, _, _, _ => .error .malformed
  | short => .error (if byteLength short < 4 then .endOfText else .malformed)

def isHighSurrogate (n : Nat) : Bool :=
  0xD800 ≤ n && n ≤ 0xDBFF

def isLowSurrogate (n : Nat) : Bool :=
  0xDC00 ≤ n && n ≤ 0xDFFF

def lowSurrogate : Reader Nat
  | [] => .error .endOfText
  | ['\\'] => .error .endOfText
  | '\\' :: 'u' :: rest => do
    let (n, rest) ← hexWord rest
    if isLowSurrogate n then .ok (n, rest) else .error .malformed
  | _ => .error .malformed

def codePoint : Reader Char := fun cs => do
  let (n, rest) ← hexWord cs
  if isLowSurrogate n then .error .malformed
  else if isHighSurrogate n then
    let (m, rest) ← lowSurrogate rest
    .ok (Char.ofNat (0x10000 + (n - 0xD800) * 0x400 + (m - 0xDC00)), rest)
  else .ok (Char.ofNat n, rest)

def shortEscape? : Char → Option Char
  | '"' => some '"'
  | '\\' => some '\\'
  | '/' => some '/'
  | 'b' => some '\x08'
  | 'f' => some '\x0c'
  | 'n' => some '\n'
  | 'r' => some '\r'
  | 't' => some '\t'
  | _ => none

def escaped (unicode : Reader Char) : Reader Char
  | [] => .error .endOfText
  | 'u' :: rest => unicode rest
  | c :: rest =>
    match shortEscape? c with
    | some d => .ok (d, rest)
    | none => .error .malformed

def quotedRound (unicode : Reader Char) (read : List Char) : Reader (Round (List Char) String)
  | [] => .error .endOfText
  | '"' :: rest => .ok (.done (String.ofList read.reverse), rest)
  | '\\' :: rest => do
    let (c, rest) ← escaped unicode rest
    .ok (.more (c :: read), rest)
  | c :: rest => if c.toNat < 32 then .error .malformed else .ok (.more (c :: read), rest)

def quoted : Reader String :=
  loop (quotedRound codePoint) []

/-- The rest of a string that nobody looks at, where surrogates need not come in pairs. -/
def looseQuoted : Reader String :=
  loop (quotedRound fun cs => do
    let (_, rest) ← hexWord cs
    .ok ('?', rest)) []

def digits (short : ReadError) : Reader (List Char) := fun cs =>
  match cs.span Char.isDigit with
  | ([], []) => .error short
  | ([], _) => .error .malformed
  | (run, rest) => .ok (run, rest)

def wholeDigits (short : ReadError) : Reader (List Char) := fun cs =>
  match digits short cs with
  | .ok ('0' :: _ :: _, _) => .error .malformed
  | result => result

def fractionDigits (short : ReadError) : Reader (Option (List Char))
  | '.' :: rest => do
    let (run, rest) ← digits short rest
    .ok (some run, rest)
  | cs => .ok (none, cs)

def natOfDigits (run : List Char) : Nat :=
  run.foldl (fun n c => n * 10 + Numeral.digitValue c) 0

def signedExponent (short : ReadError) : Reader Int
  | '-' :: rest => do
    let (run, rest) ← digits short rest
    .ok (-natOfDigits run, rest)
  | '+' :: rest => do
    let (run, rest) ← digits short rest
    .ok (natOfDigits run, rest)
  | cs => do
    let (run, rest) ← digits short cs
    .ok (natOfDigits run, rest)

def exponent (short : ReadError) : Reader (Option Int)
  | c :: rest =>
    if c = 'e' ∨ c = 'E' then do
      let (e, rest) ← signedExponent short rest
      .ok (some e, rest)
    else .ok (none, c :: rest)
  | [] => .ok (none, [])

def unsigned (short : ReadError) (negative : Bool) : Reader Numeral := fun cs => do
  let (whole, rest) ← wholeDigits short cs
  let (fraction, rest) ← fractionDigits short rest
  let (exponent, rest) ← exponent short rest
  .ok (⟨negative, whole, fraction, exponent⟩, rest)

def numeral (short : ReadError) : Reader Numeral
  | '-' :: rest => unsigned short true rest
  | cs => unsigned short false cs

def startsNumber (c : Char) : Bool :=
  c == '-' || c.isDigit

def quantity : Reader Quantity := fun cs => do
  let (n, rest) ← numeral .endOfText cs
  match n.quantity? with
  | some q => .ok (q, rest)
  | none => .error .malformed

/-- Refuse a value of another kind. A string, number or word is first read to its end, so that its
own faults come first; an array or an object is refused at its bracket. -/
def refuse : Reader α := fun cs =>
  match skipBlank cs with
  | [] => .error .endOfText
  | 'n' :: rest => do
    let _ ← letters ['u', 'l', 'l'] rest
    .error .wrongShape
  | 't' :: rest => do
    let _ ← letters ['r', 'u', 'e'] rest
    .error .wrongShape
  | 'f' :: rest => do
    let _ ← letters ['a', 'l', 's', 'e'] rest
    .error .wrongShape
  | '"' :: rest => do
    let _ ← quoted rest
    .error .wrongShape
  | '[' :: _ => .error .wrongShape
  | '{' :: _ => .error .wrongShape
  | c :: rest =>
    if startsNumber c then do
      let _ ← quantity (c :: rest)
      .error .wrongShape
    else .error .malformed

def string : Reader String := fun cs =>
  match skipBlank cs with
  | '"' :: rest => quoted rest
  | _ => refuse cs

def number : Reader Quantity := fun cs =>
  match skipBlank cs with
  | c :: rest => if startsNumber c then quantity (c :: rest) else refuse cs
  | [] => refuse cs

def natural : Reader Nat := fun cs => do
  match ← number cs with
  | (.whole n, rest) => .ok (n, rest)
  | _ => .error .wrongShape

def singleNumber : Reader Float32 := fun cs => do
  let (q, rest) ← number cs
  .ok (q.toSingle, rest)

def nothing : Reader Unit := fun cs =>
  match skipBlank cs with
  | 'n' :: rest => letters ['u', 'l', 'l'] rest
  | _ => refuse cs

def optional (value : Reader α) : Reader (Option α) := fun cs =>
  match skipBlank cs with
  | 'n' :: rest => do
    let (_, rest) ← letters ['u', 'l', 'l'] rest
    .ok (none, rest)
  | _ => do
    let (a, rest) ← value cs
    .ok (some a, rest)

/-- Whether an array goes on with another item; its closing bracket is left in place. -/
def nextItem (first : Bool) : Reader Bool := fun cs =>
  match skipBlank cs with
  | [] => .error .endOfText
  | ']' :: rest => .ok (false, ']' :: rest)
  | c :: rest =>
    if first then .ok (true, c :: rest)
    else if c = ',' then
      match skipBlank rest with
      | [] => .error .endOfText
      | ']' :: _ => .error .malformed
      | rest => .ok (true, rest)
    else .error .malformed

def closeArray : Reader Unit := fun cs =>
  match skipBlank cs with
  | [] => .error .endOfText
  | ']' :: rest => .ok ((), rest)
  | _ => .error .malformed

def itemRound (item : Reader α) (read : List α) : Reader (Round (List α) (List α)) := fun cs => do
  let (goesOn, rest) ← nextItem read.isEmpty cs
  if goesOn then
    let (a, rest) ← item rest
    .ok (.more (a :: read), rest)
  else
    let (_, rest) ← closeArray rest
    .ok (.done read.reverse, rest)

def list (item : Reader α) : Reader (List α) := fun cs =>
  match skipBlank cs with
  | '[' :: rest => loop (itemRound item) [] rest
  | _ => refuse cs

def nextKey (first : Bool) : Reader (Option String) := fun cs =>
  match skipBlank cs with
  | [] => .error .endOfText
  | '}' :: rest => .ok (none, rest)
  | c :: rest =>
    if first then
      if c = '"' then do
        let (key, rest) ← quoted rest
        .ok (some key, rest)
      else .error .malformed
    else if c = ',' then
      match skipBlank rest with
      | [] => .error .endOfText
      | '"' :: rest => do
        let (key, rest) ← quoted rest
        .ok (some key, rest)
      | _ => .error .malformed
    else .error .malformed

def colon : Reader Unit := fun cs =>
  match skipBlank cs with
  | [] => .error .endOfText
  | ':' :: rest => .ok ((), rest)
  | _ => .error .malformed

inductive Bracket where
  | square
  | curly

/-- The state of skipping: the brackets still to be closed, and whether a value is due or has just
ended. Nesting costs no recursion, so there is no limit to it. -/
inductive Skipping where
  | due (outer : List Bracket)
  | ended (outer : List Bracket)

def skippedKey : Reader Unit := fun cs =>
  match skipBlank cs with
  | [] => .error .endOfText
  | '"' :: rest => do
    let (_, rest) ← looseQuoted rest
    colon rest
  | _ => .error .malformed

def skipRound : Skipping → Reader (Round Skipping Unit)
  | .due outer, cs =>
    match skipBlank cs with
    | [] => .error .endOfText
    | 'n' :: rest => do
      let (_, rest) ← letters ['u', 'l', 'l'] rest
      .ok (.more (.ended outer), rest)
    | 't' :: rest => do
      let (_, rest) ← letters ['r', 'u', 'e'] rest
      .ok (.more (.ended outer), rest)
    | 'f' :: rest => do
      let (_, rest) ← letters ['a', 'l', 's', 'e'] rest
      .ok (.more (.ended outer), rest)
    | '"' :: rest => do
      let (_, rest) ← looseQuoted rest
      .ok (.more (.ended outer), rest)
    | '[' :: rest =>
      match skipBlank rest with
      | [] => .error .endOfText
      | ']' :: rest => .ok (.more (.ended outer), rest)
      | rest => .ok (.more (.due (.square :: outer)), rest)
    | '{' :: rest =>
      match skipBlank rest with
      | [] => .error .endOfText
      | '}' :: rest => .ok (.more (.ended outer), rest)
      | rest => do
        let (_, rest) ← skippedKey rest
        .ok (.more (.due (.curly :: outer)), rest)
    | c :: rest =>
      if startsNumber c then do
        let (_, rest) ← numeral .malformed (c :: rest)
        .ok (.more (.ended outer), rest)
      else .error .malformed
  | .ended [], cs => .ok (.done (), cs)
  | .ended (.square :: outer), cs =>
    match skipBlank cs with
    | [] => .error .endOfText
    | ',' :: rest => .ok (.more (.due (.square :: outer)), rest)
    | ']' :: rest => .ok (.more (.ended outer), rest)
    | _ => .error .malformed
  | .ended (.curly :: outer), cs =>
    match skipBlank cs with
    | [] => .error .endOfText
    | ',' :: rest => do
      let (_, rest) ← skippedKey rest
      .ok (.more (.due (.curly :: outer)), rest)
    | '}' :: rest => .ok (.more (.ended outer), rest)
    | _ => .error .malformed

def skipValue : Reader Unit :=
  loop skipRound (.due [])

def read (value : Reader α) (text : String) : Except ReadError α := do
  let (a, rest) ← value text.toList
  if (skipBlank rest).isEmpty then .ok a else .error .malformed

end CodeAtlas.Json
