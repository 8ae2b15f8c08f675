import CodeAtlas.CallTable
import CodeAtlas.Codebase.Document
import CodeAtlas.CommandLine.Arguments
import CodeAtlas.Documentation
import CodeAtlas.Graph.Structure
import CodeAtlas.Menu

namespace CodeAtlas

def Graph.toJson (g : Graph) : Json :=
  .obj [("nodes", .arr (g.nodes.toList.map Node.toJson)),
    ("edges", .arr (g.edges.toList.map Edge.toJson))]

namespace CommandLine

inductive Failure where
  | cannotLoad (file : String) (cause : Codebase.LoadError)
  | noSuchFunction (folder function : String)

def Failure.message : Failure → String
  | .cannotLoad file _ => "Failed to load " ++ file
  | .noSuchFunction folder function => "No function `" ++ function ++ "` under `" ++ folder ++ "`"

def unlines (lines : List String) : String :=
  String.join (lines.map (· ++ "\n"))

def summary (c : Codebase) : String :=
  let g := Graph.ofCodebase c
  unlines [
    "roots:           " ++ String.intercalate ", " c.roots,
    s!"folder keys:     {c.folders.size}",
    s!"records:         {c.functionCount}",
    s!"nodes:           {g.nodeCount}",
    s!"  folders:       {g.folderCount}",
    s!"  functions:     {g.functionCount}",
    s!"edges:           {g.edgeCount}",
    s!"duplicate edges: {g.duplicateEdges}"]

def graph (c : Codebase) (pretty : Bool) : String :=
  let json := (Graph.ofCodebase c).toJson
  unlines [if pretty then json.pretty else json.compact]

def documentationLines (d : Documentation) : List String :=
  ["", "## Description", d.description, "", "## Parameters"] ++
    (match d.parameters with
      | some lines => lines.map ("- " ++ ·)
      | none => [Documentation.Section.parameters.placeholder]) ++
    ["", "## Return Value", d.returnValue, "", "## Pseudocode", d.pseudocode]

def doc (d : Detail) : String :=
  unlines (("# " ++ d.functionName) ::
    (match d.documentation with
      | some doc => documentationLines doc
      | none => [Detail.noDocumentation]) ++
    ["", "## Calls"] ++
    (if d.calls.isEmpty then [Detail.noCalls] else d.calls.map ("- " ++ ·)))

def indented (i : Menu.Item) : String :=
  String.ofList (List.replicate (2 * i.depth) ' ') ++ i.label

def search (c : Codebase) (query : String) : String :=
  let menu := (Menu.ofCodebase c).filter query
  unlines (((menu.preorder.filterMap menu.item?).filter (·.visible)).map indented)

def calls (c : Codebase) (entry : String) : String :=
  unlines (((CallTable.ofCodebase c).reachableFrom entry).pairs.map fun (caller, callee) =>
    "F: " ++ caller ++ " -----> C: " ++ callee)

def Command.file : Command → String
  | .summary file => file
  | .graph file _ => file
  | .doc file _ _ => file
  | .search file _ => file
  | .calls file _ => file

def report (c : Codebase) : Command → Except Failure String
  | .summary _ => .ok (summary c)
  | .graph _ pretty => .ok (graph c pretty)
  | .doc _ folder function =>
    match c.function? folder function with
    | none => .error (.noSuchFunction folder function)
    | some info => .ok (doc (Detail.ofFunction function info))
  | .search _ query => .ok (search c query)
  | .calls _ entry => .ok (calls c entry)

def run (command : Command) (source : Codebase.Source) : Except Failure String :=
  match Codebase.load source with
  | .error e => .error (.cannotLoad command.file e)
  | .ok c => report c command

end CommandLine

end CodeAtlas
