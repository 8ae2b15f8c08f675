import CodeAtlas.OrderedMap
import CodeAtlas.Json.Value
import CodeAtlas.Json.Record

namespace CodeAtlas

abbrev NodeId := String

inductive NodeKind where
  | folder
  | function
deriving DecidableEq

structure Node where
  id : NodeId
  name : String
  kind : NodeKind
  level : Nat
  group : Option String
deriving DecidableEq

structure Edge where
  source : NodeId
  target : NodeId
deriving DecidableEq

def Edge.touches (e : Edge) (id : NodeId) : Bool :=
  e.source == id || e.target == id

structure Graph where
  nodes : Array Node
  edges : Array Edge
  /-- The positions of both ends of each edge among the nodes. -/
  endpoints : Array (Nat × Nat)
  /-- The position of the node with an id. -/
  index : OrderedMap NodeId Nat

namespace Graph

def empty : Graph := ⟨#[], #[], #[], .empty⟩

def nodeCount (g : Graph) : Nat := g.nodes.size

def edgeCount (g : Graph) : Nat := g.edges.size

def indexOf? (g : Graph) (id : NodeId) : Option Nat :=
  g.index.get? id

def contains (g : Graph) (id : NodeId) : Bool :=
  g.index.contains id

def node? (g : Graph) (id : NodeId) : Option Node :=
  (g.indexOf? id).bind (g.nodes[·]?)

/-- Add a node unless there is one with its id. The second result tells whether it was added. -/
def addNode (g : Graph) (n : Node) : Graph × Bool :=
  if g.contains n.id then (g, false)
  else
    ({ g with nodes := g.nodes.push n, index := g.index.insert n.id g.nodes.size }, true)

/-- Add an edge, also one that is there already, unless an end of it is missing. The second result
is its position. -/
def addEdge (g : Graph) (e : Edge) : Graph × Option Nat :=
  match g.indexOf? e.source, g.indexOf? e.target with
  | some s, some t =>
    ({ g with edges := g.edges.push e, endpoints := g.endpoints.push (s, t) }, some g.edges.size)
  | _, _ => (g, none)

def folderCount (g : Graph) : Nat :=
  g.nodes.countP (·.kind == .folder)

def functionCount (g : Graph) : Nat :=
  g.nodes.countP (·.kind == .function)

def incidentEdges (g : Graph) (id : NodeId) : List Nat :=
  (g.edges.toList.zipIdx.filter (·.1.touches id)).map Prod.snd

def duplicateEdges (g : Graph) : Nat :=
  g.endpoints.size - (firstOccurrences g.endpoints.toList).length

end Graph

namespace NodeKind

def name : NodeKind → String
  | folder => "folder"
  | function => "function"

def toJson (k : NodeKind) : Json := .str k.name

def reader : Json.Reader NodeKind :=
  Json.choice [("folder", .bare .folder), ("function", .bare .function)]

end NodeKind

namespace Node

def toJson (n : Node) : Json :=
  .obj ([("id", .str n.id), ("name", .str n.name), ("type", n.kind.toJson), ("level", .nat n.level)]
    ++ Json.member? "group" (n.group.map .str))

def fields : List (Json.Field Node) :=
  [.needed "id" Json.string fun v n => { n with id := v },
    .needed "name" Json.string fun v n => { n with name := v },
    .needed "type" NodeKind.reader fun v n => { n with kind := v },
    .needed "level" Json.natural fun v n => { n with level := v },
    .defaulted "group" (Json.optional Json.string) fun v n => { n with group := v }]

def reader : Json.Reader Node :=
  Json.record fields ⟨"", "", .folder, 0, none⟩

end Node

namespace Edge

def toJson (e : Edge) : Json :=
  .obj [("source", .str e.source), ("target", .str e.target)]

def fields : List (Json.Field Edge) :=
  [.needed "source" Json.string fun v e => { e with source := v },
    .needed "target" Json.string fun v e => { e with target := v }]

def reader : Json.Reader Edge :=
  Json.record fields ⟨"", ""⟩

end Edge

end CodeAtlas
