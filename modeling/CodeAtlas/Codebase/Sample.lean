import CodeAtlas.Codebase.Basic

namespace CodeAtlas.Codebase.Sample

/-- Folders come in threes, each inside the one before it. -/
def folderPath (i : Nat) : String :=
  let outer := s!"pkg_{i / 9}"
  let inner := s!"mod_{i / 3}"
  match i % 3 with
  | 0 => outer
  | 1 => Path.join outer inner
  | _ => Path.join (Path.join outer inner) s!"leaf_{i}"

def functionName (folder function : Nat) : String :=
  s!"fn_{folder}_{function}"

def documentation (folder function : Nat) : String :=
  s!"## Description\nHandles item {function} of folder {folder}.\n\n" ++
    "## Parameters\ninput: the request\noptions: tuning flags\n\n" ++
    "## Return Value\nThe processed result.\n\n" ++
    "## Pseudocode\n```\nread input\napply options\nreturn result\n```\n"

def function (i j : Nat) : FunctionInfo where
  documentation := some (documentation i j)
  calls := [functionName (i - 1) j, functionName (i - 1) j]

def addFolder (functions : Nat) (c : Codebase) (i : Nat) : Codebase :=
  (List.range functions).foldl
    (fun c j => c.addFunction (folderPath i) (functionName i j) (function i j))
    (c.addFolder (folderPath i))

def codebase (folders functions : Nat) : Codebase :=
  (List.range folders).foldl (addFolder functions) empty

end CodeAtlas.Codebase.Sample
