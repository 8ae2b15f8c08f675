import CodeAtlas.OrderedMap
import CodeAtlas.Codebase.Path

namespace CodeAtlas

structure FunctionInfo where
  documentation : Option String
  calls : List String
deriving DecidableEq

abbrev Folder := OrderedMap String FunctionInfo

/-- Folders by path and functions by name, both in document order. -/
structure Codebase where
  folders : OrderedMap String Folder
deriving DecidableEq

namespace Codebase

def empty : Codebase := ⟨.empty⟩

def isEmpty (c : Codebase) : Bool := c.folders.isEmpty

def folder? (c : Codebase) (path : String) : Option Folder :=
  c.folders.get? path

def function? (c : Codebase) (path name : String) : Option FunctionInfo :=
  (c.folder? path).bind (·.get? name)

def addFolder (c : Codebase) (path : String) : Codebase :=
  match c.folder? path with
  | some _ => c
  | none => ⟨c.folders.insert path .empty⟩

def addFunction (c : Codebase) (path name : String) (info : FunctionInfo) : Codebase :=
  ⟨c.folders.insert path (((c.folder? path).getD .empty).insert name info)⟩

def roots (c : Codebase) : List String :=
  firstOccurrences (c.folders.keys.map Path.root)

def functionCount (c : Codebase) : Nat :=
  c.folders.values.foldr (fun f n => f.size + n) 0

end Codebase

end CodeAtlas
