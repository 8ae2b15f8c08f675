import CodeAtlas.Text.CaseTable

namespace CodeAtlas.Text

def isCased (c : Char) : Bool :=
  casedRanges.any (·.covers c.toNat)

def isCaseIgnorable (c : Char) : Bool :=
  caseIgnorableRanges.any (·.covers c.toNat)

/-- The small letter or letters of a character by itself. Only the dotted capital I has two. -/
def lowerChar (c : Char) : List Char :=
  if c = 'İ' then ['i', '\u0307']
  else
    match lowerCaseRanges.find? (·.covers c.toNat) with
    | some r => [Char.ofNat (c.toNat + r.shift).toNat]
    | none => [c]

/-- Whether the text goes on with a letter that has case, past what does not end a word. -/
def meetsLetter (cs : List Char) : Bool :=
  match cs.dropWhile isCaseIgnorable with
  | [] => false
  | c :: _ => isCased c

/-- The small sigma between the reversed text `before` and the text `after`: it has a form of its
own at the end of a word. -/
def lowerSigma (before after : List Char) : Char :=
  if meetsLetter before && !meetsLetter after then 'ς' else 'σ'

def lowerFrom (before : List Char) : List Char → List Char
  | [] => []
  | c :: after =>
    (if c = 'Σ' then [lowerSigma before after] else lowerChar c) ++ lowerFrom (c :: before) after

/-- Full lower-casing, which looks at the neighbours of a sigma and may lengthen the text. -/
def lower (cs : List Char) : List Char :=
  lowerFrom [] cs

def contains (part : List Char) : List Char → Bool
  | [] => part.isEmpty
  | c :: cs => part.isPrefixOf (c :: cs) || contains part cs

def containsIgnoringCase (part text : String) : Bool :=
  contains (lower part.toList) (lower text.toList)

end CodeAtlas.Text
