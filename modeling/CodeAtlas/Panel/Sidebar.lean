import CodeAtlas.Event
import CodeAtlas.Menu
import CodeAtlas.Panel.Icon

namespace CodeAtlas

structure Sidebar where
  query : String

namespace Sidebar

open Panel

def empty : Sidebar := ⟨""⟩

def edited (query : String) : Sidebar × List Event :=
  (⟨query⟩, [.searchChanged query])

/-- Texts that change nothing when typed; a line break on its own belongs to the Enter key. -/
def isIdle (text : String) : Bool :=
  text == "" || text == "\n" || text == "\r"

def type (s : Sidebar) (text : String) : Sidebar × List Event :=
  if isIdle text then (s, []) else edited (s.query ++ text)

/-- Remove the last character of the search box. In an empty box the key still counts as a
change, to the same empty text. -/
def backspace (s : Sidebar) : Sidebar × List Event :=
  edited (String.ofList s.query.toList.dropLast)

def backspaces : Nat → Sidebar → Sidebar × List Event
  | 0, s => (s, [])
  | n + 1, s =>
    let (s, first) := s.backspace
    let (s, rest) := backspaces n s
    (s, first ++ rest)

def eventsOf : Menu.Target → List Event
  | .folder path => [.recenterNode path .sidebar]
  | .function path name =>
    [.recenterNode (Path.join path name) .sidebar, .showFunctionDetail path name]

def activate (menu : Menu) (id : Nat) : Menu × List Event :=
  match menu.activate id with
  | (menu, some target) => (menu, eventsOf target)
  | (menu, none) => (menu, [])

def click (menu : Menu) (row : Nat) : Menu × List Event :=
  match menu.rows[row]? with
  | some id => activate menu id
  | none => (menu, [])

def caption (i : Menu.Item) : Caption :=
  .iconed (if i.target.isFolder then if i.expanded then .openFolder else .closedFolder
    else .function) i.label

def captions (menu : Menu) : List Caption :=
  (menu.rows.filterMap menu.item?).map caption

def follow (menu : Menu) : Event → Menu
  | .searchChanged query => menu.filter query
  | _ => menu

end Sidebar

end CodeAtlas
