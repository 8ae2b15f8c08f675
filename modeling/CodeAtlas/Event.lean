import CodeAtlas.Graph.Basic

namespace CodeAtlas

inductive Origin where
  | graph
  | sidebar
deriving DecidableEq

namespace Origin

def name : Origin → String
  | graph => "Graph"
  | sidebar => "Sidebar"

def toJson (o : Origin) : Json := .str o.name

def reader : Json.Reader Origin :=
  Json.choice [("Graph", .bare .graph), ("Sidebar", .bare .sidebar)]

end Origin

inductive Event where
  | highlightNode (id : NodeId)
  | resetHighlight
  /-- Center the view on a node; for a click in the graph a function's details open as well. -/
  | recenterNode (id : NodeId) (origin : Origin)
  | showFunctionDetail (folder name : String)
  | closeDetail
  | searchChanged (query : String)
  | viewportResized (width height : Float32)
  | layoutStopped (ticks : Nat)
  | mappingLoaded (nodes edges : Nat)
  | mappingFailed (error : String)

namespace Event

def toJson : Event → Json
  | highlightNode id => .obj [("HighlightNode", .obj [("id", .str id)])]
  | resetHighlight => .str "ResetHighlight"
  | recenterNode id origin =>
    .obj [("RecenterNode", .obj [("id", .str id), ("origin", origin.toJson)])]
  | showFunctionDetail folder name =>
    .obj [("ShowFunctionDetail", .obj [("folder", .str folder), ("name", .str name)])]
  | closeDetail => .str "CloseDetail"
  | searchChanged query => .obj [("SearchChanged", .obj [("query", .str query)])]
  | viewportResized width height =>
    .obj [("ViewportResized", .obj [("width", .single width), ("height", .single height)])]
  | layoutStopped ticks => .obj [("LayoutStopped", .obj [("ticks", .nat ticks)])]
  | mappingLoaded nodes edges =>
    .obj [("MappingLoaded", .obj [("nodes", .nat nodes), ("edges", .nat edges)])]
  | mappingFailed error => .obj [("MappingFailed", .obj [("error", .str error)])]

def reading1 {α : Type} [Inhabited α] (key : String) (value : Json.Reader α) (make : α → Event) :
    Json.Case Event :=
  .holding fun cs => do
    let (a, rest) ← Json.record [.needed key value fun a _ => a] default cs
    .ok (make a, rest)

def reading2 {α β : Type} [Inhabited α] [Inhabited β] (key₁ : String) (value₁ : Json.Reader α)
    (key₂ : String) (value₂ : Json.Reader β) (make : α → β → Event) : Json.Case Event :=
  .holding fun cs => do
    let ((a, b), rest) ← Json.record [.needed key₁ value₁ fun a p => (a, p.2),
      .needed key₂ value₂ fun b p => (p.1, b)] default cs
    .ok (make a b, rest)

instance : Inhabited Origin := ⟨.graph⟩

def reader : Json.Reader Event :=
  Json.choice [
    ("HighlightNode", reading1 "id" Json.string .highlightNode),
    ("ResetHighlight", .bare .resetHighlight),
    ("RecenterNode", reading2 "id" Json.string "origin" Origin.reader .recenterNode),
    ("ShowFunctionDetail", reading2 "folder" Json.string "name" Json.string .showFunctionDetail),
    ("CloseDetail", .bare .closeDetail),
    ("SearchChanged", reading1 "query" Json.string .searchChanged),
    ("ViewportResized",
      reading2 "width" Json.singleNumber "height" Json.singleNumber .viewportResized),
    ("LayoutStopped", reading1 "ticks" Json.natural .layoutStopped),
    ("MappingLoaded", reading2 "nodes" Json.natural "edges" Json.natural .mappingLoaded),
    ("MappingFailed", reading1 "error" Json.string .mappingFailed)]

end Event

structure EventQueue where
  pending : List Event

namespace EventQueue

def empty : EventQueue := ⟨[]⟩

def publish (q : EventQueue) (e : Event) : EventQueue := ⟨q.pending ++ [e]⟩

def take? (q : EventQueue) : Option (Event × EventQueue) :=
  match q.pending with
  | [] => none
  | e :: rest => some (e, ⟨rest⟩)

def dispatch {σ : Type} (q : EventQueue) (handle : σ → Event → σ) (listener : σ) :
    σ × EventQueue :=
  (q.pending.foldl handle listener, empty)

end EventQueue

end CodeAtlas
