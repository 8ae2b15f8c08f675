import CodeAtlas.Codebase.Basic
import CodeAtlas.Graph.Basic

namespace CodeAtlas

namespace Node

def ofFolder (path segment : String) (level : Nat) : Node :=
  ⟨path, segment, .folder, level, none⟩

def ofFunction (folder name : String) (level : Nat) : Node :=
  ⟨Path.join folder name, name, .function, level, some folder⟩

end Node

namespace Graph

inductive Step where
  | node (n : Node)
  | edge (e : Edge)

def apply (g : Graph) : Step → Graph
  | .node n => (g.addNode n).1
  | .edge e => (g.addEdge e).1

def stepsBelow (parent : NodeId) (level : Nat) : List (String × String) → List Step
  | [] => []
  | (path, segment) :: rest =>
    .node (.ofFolder path segment level) :: .edge ⟨parent, path⟩ :: stepsBelow path (level + 1) rest

def folderSteps (path : String) : List Step :=
  match Path.trail path with
  | [] => []
  | (root, segment) :: rest => .node (.ofFolder root segment 0) :: stepsBelow root 1 rest

def functionSteps (path : String) (folder : Folder) : List Step :=
  let level := (Path.segments path).length
  folder.keys.flatMap fun name =>
    [.node (.ofFunction path name level), .edge ⟨path, Path.join path name⟩]

def steps (c : Codebase) : List Step :=
  c.folders.entries.flatMap fun (path, folder) => folderSteps path ++ functionSteps path folder

/-- The structure graph of a codebase: a node for every folder on some path and every function, made
when its id first comes up, and an edge for every time that a parent is met above a child. -/
def ofCodebase (c : Codebase) : Graph :=
  (steps c).foldl apply empty

end Graph

end CodeAtlas
