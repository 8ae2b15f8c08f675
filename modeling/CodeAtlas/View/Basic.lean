import CodeAtlas.Graph.Style
import CodeAtlas.Time
import CodeAtlas.View.Camera

namespace CodeAtlas

structure Transition where
  source : Camera
  target : Camera
  startedAt : Instant

namespace Transition

def duration : Duration := Duration.ofMillis 750

def progress (t : Transition) (now : Instant) : Float32 :=
  Number.least ((now.since t.startedAt).toSeconds / duration.toSeconds) 1

def camera (t : Transition) (now : Instant) : Camera :=
  t.source.towards t.target (ease (t.progress now))

end Transition

structure View where
  viewport : Point
  camera : Camera
  transition : Option Transition
  emphasized : List Bool
  /-- The edges and the nodes from bottom to top. -/
  edgeOrder : List Nat
  nodeOrder : List Nat
  highlighted : Option Nat
  selected : Option Nat
  /-- Until the view is first moved, its camera follows the viewport. -/
  untouched : Bool

namespace View

def ofGraph (g : Graph) (viewport : Point) : View where
  viewport := viewport
  camera := .initial viewport
  transition := none
  emphasized := List.replicate g.edgeCount false
  edgeOrder := List.range g.edgeCount
  nodeOrder := List.range g.nodeCount
  highlighted := none
  selected := none
  untouched := true

def isAnimating (v : View) : Bool := v.transition.isSome

def setViewport (v : View) (viewport : Point) : View :=
  { v with
    viewport := viewport
    camera := if v.untouched then .initial viewport else v.camera }

def advance (v : View) (now : Instant) : View :=
  match v.transition with
  | none => v
  | some t =>
    if t.progress now ≥ 1 then { v with camera := t.target, transition := none }
    else { v with camera := t.camera now }

def pan (v : View) (delta : Point) : View :=
  { v with camera := v.camera.pan delta, transition := none, untouched := false }

def zoom (v : View) (anchor : Point) (factor : Float32) : View :=
  { v with camera := v.camera.zoom anchor factor, transition := none, untouched := false }

def isEmphasized (v : View) (edge : Nat) : Bool :=
  v.emphasized.getD edge false

/-- Let the edges at a node stand out, and raise them and the node above all others. The second
result tells whether there is such a node. -/
def highlight (v : View) (g : Graph) (id : NodeId) : View × Bool :=
  match g.indexOf? id with
  | none => (v, false)
  | some index =>
    let emphasized := g.edges.toList.map (·.touches id)
    let raised := fun edge => emphasized.getD edge false
    ({ v with
      emphasized := emphasized
      edgeOrder := v.edgeOrder.filter (!raised ·) ++ v.edgeOrder.filter raised
      nodeOrder := v.nodeOrder.filter (· != index) ++ [index]
      highlighted := some index }, true)

/-- Nothing stands out any more; what was raised stays where it is. -/
def resetHighlight (v : View) : View :=
  { v with emphasized := v.emphasized.map fun _ => false, highlighted := none }

def centerOn (v : View) (index : Nat) (world : Point) (now : Instant) : View :=
  let v := v.advance now
  { v with
    transition := some ⟨v.camera, .centeredOn world v.viewport 1, now⟩
    selected := some index
    untouched := false }

def target? (g : Graph) (positions : List Point) (id : NodeId) : Option (Nat × Point) :=
  (g.indexOf? id).bind fun index => (positions[index]?).map (index, ·)

/-- The node that has been centered, with the folder and the name if it is a function. -/
structure Centered where
  node : NodeId
  detail : Option (String × String)
deriving DecidableEq

def Centered.ofNode (n : Node) : Centered :=
  ⟨n.id, match n.kind, n.group with
    | .function, some folder => some (folder, n.name)
    | _, _ => none⟩

def recenter (v : View) (g : Graph) (positions : List Point) (id : NodeId) (now : Instant) :
    View × Option Centered :=
  match target? g positions id with
  | none => (v, none)
  | some (index, world) => (v.centerOn index world now, g.nodes[index]?.map .ofNode)

def covers (g : Graph) (positions : List Point) (world : Point) (index : Nat) : Bool :=
  match positions[index]?, g.nodes[index]? with
  | some p, some n => (p - world).lengthSquared ≤ n.kind.radius * n.kind.radius
  | _, _ => false

def nodeAt? (v : View) (g : Graph) (positions : List Point) (screen : Point) : Option Nat :=
  v.nodeOrder.reverse.find? (covers g positions (v.camera.toWorld screen))

end View

end CodeAtlas
