import CodeAtlas.Codebase.Basic
import CodeAtlas.Text.Line

namespace CodeAtlas

namespace Documentation

inductive Section where
  | description
  | parameters
  | returnValue
  | pseudocode
deriving DecidableEq

namespace Section

def all : List Section := [description, parameters, returnValue, pseudocode]

def label : Section → String
  | description => "Description"
  | parameters => "Parameters"
  | returnValue => "Return Value"
  | pseudocode => "Pseudocode"

def placeholder : Section → String
  | description => "No description available."
  | parameters => "No parameters listed."
  | returnValue => "No return value specified."
  | pseudocode => "No pseudocode available."

end Section

/-- Equality up to case. The long s is a form of the letter s. -/
def sameLetter (a b : Char) : Bool :=
  fold a == fold b
where
  fold (c : Char) : Char := if c = 'ſ' then 's' else c.toLower

def afterLabel? : (label : List Char) → List Char → Option (List Char)
  | [], cs => some cs
  | _ :: _, [] => none
  | l :: ls, c :: cs => if sameLetter l c then afterLabel? ls cs else none

/-- The text after the mark of a header at its front: one to four hashes or two stars, and then any
white space. -/
def afterMark? : List Char → Option (List Char)
  | '*' :: '*' :: cs => some (Text.trimLeft cs)
  | cs =>
    let hashes := (cs.takeWhile (· == '#')).length
    if 1 ≤ hashes ∧ hashes ≤ 4 then some (Text.trimLeft (cs.drop hashes)) else none

def afterHeading? (s : Section) (cs : List Char) : Option (List Char) :=
  (afterMark? cs).bind (afterLabel? s.label.toList)

def afterLine? (cs : List Char) : Option (List Char) :=
  match cs.dropWhile (· != '\n') with
  | [] => none
  | rest => some (rest.dropWhile (· == '\n'))

/-- Where the line of a label may go on: after two stars, or after a colon with white space before
it, which may run over line ends; and otherwise right after the label. -/
def labelEnds (cs : List Char) : List (List Char) :=
  match cs, Text.trimLeft cs with
  | '*' :: '*' :: rest, _ => [rest, cs]
  | _, ':' :: rest => [rest, cs]
  | _, _ => [cs]

def afterHeader? (s : Section) (cs : List Char) : Option (List Char) :=
  (afterHeading? s cs).bind fun rest => (labelEnds rest).findSome? afterLine?

def findHeader? (s : Section) : List Char → Option (List Char)
  | [] => none
  | c :: cs =>
    match afterHeader? s (c :: cs) with
    | some rest => some rest
    | none => findHeader? s cs

/-- Whether a text begins with a line end, white space and the heading of any section. -/
def atBoundary : List Char → Bool
  | '\n' :: cs =>
    let rest := Text.trimLeft cs
    Section.all.any fun s => (afterHeading? s rest).isSome
  | _ => false

def beforeBoundary : List Char → List Char
  | [] => []
  | c :: cs => if atBoundary (c :: cs) then [] else c :: beforeBoundary cs

def body? (s : Section) (text : String) : Option String :=
  match findHeader? s text.toList with
  | none => none
  | some rest =>
    match Text.trim (beforeBoundary rest) with
    | [] => none
    | body => some (String.ofList body)

def fence : List Char := ['`', '`', '`']

def splitAtFence? : List Char → Option (List Char × List Char)
  | [] => none
  | c :: cs =>
    if fence.isPrefixOf (c :: cs) then some ([], (c :: cs).drop fence.length)
    else (splitAtFence? cs).map fun (before, after) => (c :: before, after)

def fenced? (cs : List Char) : Option (List Char) :=
  match splitAtFence? cs with
  | none => none
  | some (_, rest) => (splitAtFence? rest).map Prod.fst

end Documentation

/-- A documentation text by its sections, placeholders standing in for what is missing. -/
structure Documentation where
  description : String
  parameters : Option (List String)
  returnValue : String
  pseudocode : String

namespace Documentation

def bodyOrPlaceholder (s : Section) (text : String) : String :=
  (body? s text).getD s.placeholder

def parameterLines (body : String) : List String :=
  (((Text.lines body.toList).map Text.trim).filter (!·.isEmpty)).map String.ofList

def unfenced (text : String) : String :=
  match fenced? text.toList with
  | some inside => String.ofList (Text.trim inside)
  | none => text

def ofText (text : String) : Documentation where
  description := bodyOrPlaceholder .description text
  parameters := (body? .parameters text).map parameterLines
  returnValue := bodyOrPlaceholder .returnValue text
  pseudocode := unfenced (bodyOrPlaceholder .pseudocode text)

def parameterRows (d : Documentation) : List String :=
  match d.parameters with
  | some lines => lines.map ("• " ++ ·)
  | none => [Section.parameters.placeholder]

end Documentation

structure Detail where
  functionName : String
  documentation : Option Documentation
  calls : List String

namespace Detail

def noDocumentation : String := "No documentation available."

def noCalls : String := "No calls found."

/-- An empty documentation text counts as none, and each callee is listed once. -/
def ofFunction (name : String) (info : FunctionInfo) : Detail where
  functionName := name
  documentation := (info.documentation.filter (· ≠ "")).map Documentation.ofText
  calls := firstOccurrences info.calls

end Detail

end CodeAtlas
