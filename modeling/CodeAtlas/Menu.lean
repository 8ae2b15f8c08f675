import CodeAtlas.Codebase.Basic
import CodeAtlas.Text.LowerCase

namespace CodeAtlas

namespace Menu

inductive Target where
  | folder (path : String)
  | function (path name : String)
deriving DecidableEq

def Target.nodeId : Target → String
  | .folder path => path
  | .function path name => Path.join path name

def Target.isFolder : Target → Bool
  | .folder _ => true
  | .function _ _ => false

structure Item where
  label : String
  target : Target
  depth : Nat
  children : List Nat
  expanded : Bool
  /-- Whether the item's own label passes the filter. -/
  visible : Bool

def Item.hasChildren (i : Item) : Bool :=
  !i.children.isEmpty

def Item.fresh (label : String) (target : Target) (depth : Nat) : Item :=
  ⟨label, target, depth, [], false, true⟩

end Menu

/-- Folders and functions as a collapsible, searchable list. Items are named by their position, and
an item below another one has the larger position. -/
structure Menu where
  items : Array Menu.Item
  roots : List Nat
  folders : OrderedMap String Nat
  query : String

namespace Menu

def empty : Menu := ⟨#[], [], .empty, ""⟩

def size (m : Menu) : Nat := m.items.size

def isEmpty (m : Menu) : Bool := m.items.isEmpty

def item? (m : Menu) (id : Nat) : Option Item := m.items[id]?

def childrenOf (m : Menu) (id : Nat) : List Nat :=
  ((m.item? id).map Item.children).getD []

def folder? (m : Menu) (path : String) : Option Nat :=
  m.folders.get? path

/-- The items of the folders, with the next item if it is one. -/
def enlisted (m : Menu) : Target → OrderedMap String Nat
  | .folder path => m.folders.insert path m.size
  | .function _ _ => m.folders

def addRoot (m : Menu) (item : Item) : Menu :=
  { m with
    items := m.items.push item
    roots := m.roots ++ [m.size]
    folders := m.enlisted item.target }

def addBelow (m : Menu) (parent : Nat) (item : Item) : Menu :=
  let linked := m.items.modify parent fun p => { p with children := p.children ++ [m.size] }
  { m with items := linked.push item, folders := m.enlisted item.target }

def addFoldersBelow (parent depth : Nat) : List (String × String) → Menu → Menu
  | [], m => m
  | (path, segment) :: rest, m =>
    match m.folder? path with
    | some id => addFoldersBelow id (depth + 1) rest m
    | none => addFoldersBelow m.size (depth + 1) rest
        (m.addBelow parent (.fresh segment (.folder path) depth))

def addPath (m : Menu) (path : String) : Menu :=
  match Path.trail path with
  | [] => m
  | (root, segment) :: rest =>
    match m.folder? root with
    | some id => addFoldersBelow id 1 rest m
    | none => addFoldersBelow m.size 1 rest (m.addRoot (.fresh segment (.folder root) 0))

def addFunctions (m : Menu) (path : String) (folder : Folder) : Menu :=
  match m.folder? path with
  | none => m
  | some parent =>
    let depth := ((m.item? parent).map Item.depth).getD 0 + 1
    folder.keys.foldl (fun m name =>
      m.addBelow parent (.fresh name (.function path name) depth)) m

/-- All folders first, then all functions, so that a folder lists its subfolders before its
functions. -/
def ofCodebase (c : Codebase) : Menu :=
  let folders := c.folders.keys.foldl addPath empty
  c.folders.entries.foldl (fun m e => m.addFunctions e.1 e.2) folders

def toggle (m : Menu) (id : Nat) : Menu :=
  { m with
    items := m.items.modify id fun i =>
      if i.hasChildren then { i with expanded := !i.expanded } else i }

/-- A click on an item: a folder is toggled. The result is what the item stands for. -/
def activate (m : Menu) (id : Nat) : Menu × Option Target :=
  match (m.item? id).map Item.target with
  | none => (m, none)
  | some (.folder path) => (m.toggle id, some (.folder path))
  | some (.function path name) => (m, some (.function path name))

def filter (m : Menu) (query : String) : Menu :=
  { m with
    items := m.items.map fun i => { i with visible := Text.containsIgnoringCase query i.label }
    query := query }

/-- The items at and below `ids`, at most `depth` levels, each before those below it. -/
def preorderFrom (m : Menu) : (depth : Nat) → (ids : List Nat) → List Nat
  | 0, _ => []
  | depth + 1, ids => ids.flatMap fun id => id :: m.preorderFrom depth (m.childrenOf id)

/-- All items in display order. No menu is deeper than it has items. -/
def preorder (m : Menu) : List Nat :=
  m.preorderFrom m.size m.roots

def isVisible (m : Menu) (id : Nat) : Bool :=
  ((m.item? id).map Item.visible).getD false

def isExpanded (m : Menu) (id : Nat) : Bool :=
  ((m.item? id).map Item.expanded).getD false

def visibleLabels (m : Menu) : List String :=
  (m.preorder.filterMap m.item?).filterMap fun i => if i.visible then some i.label else none

def rowsFrom (m : Menu) : (depth : Nat) → (ids : List Nat) → List Nat
  | 0, _ => []
  | depth + 1, ids => ids.flatMap fun id =>
    (if m.isVisible id then [id] else []) ++
      (if m.isExpanded id then m.rowsFrom depth (m.childrenOf id) else [])

/-- The rows to draw: what is below an expanded folder shows even if the folder itself does not
pass the filter. -/
def rows (m : Menu) : List Nat :=
  m.rowsFrom m.size m.roots

end Menu

end CodeAtlas
