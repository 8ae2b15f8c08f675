import CodeAtlas.Documentation
import CodeAtlas.Panel.Icon

namespace CodeAtlas

/-- An overlay with the details of one function. Closing it keeps its content. -/
structure DetailPanel where
  content : Option Detail
  isOpen : Bool

namespace DetailPanel

open Panel

def empty : DetailPanel := ⟨none, false⟩

def present (_ : DetailPanel) (content : Detail) : DetailPanel := ⟨some content, true⟩

def close (p : DetailPanel) : DetailPanel := { p with isOpen := false }

def drawn? (p : DetailPanel) : Option Detail :=
  if p.isOpen then p.content else none

def documentationCaptions (d : Documentation) : List Caption :=
  [.plain "Description", .plain d.description, .plain "Parameters"] ++
    d.parameterRows.map .plain ++
    [.plain "Return Value", .plain d.returnValue, .plain "Pseudocode", .plain d.pseudocode]

def callCaptions : List String → List Caption
  | [] => [.plain Detail.noCalls]
  | calls => calls.map (.iconed .arrow)

def detailCaptions (d : Detail) : List Caption :=
  .iconed .function d.functionName ::
    (match d.documentation with
      | some doc => documentationCaptions doc
      | none => [.iconed .info "", .plain Detail.noDocumentation]) ++
    .plain "Calls" :: callCaptions d.calls ++ [.plain "Close"]

def captions (p : DetailPanel) : List Caption :=
  match p.drawn? with
  | some d => detailCaptions d
  | none => []

inductive Press where
  | escape
  | backdrop
  | closeButton
  | inside

def asksToClose (p : DetailPanel) : Press → Bool
  | .inside => false
  | _ => p.drawn?.isSome

end DetailPanel

end CodeAtlas
