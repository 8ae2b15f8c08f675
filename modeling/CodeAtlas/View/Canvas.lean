import CodeAtlas.Event
import CodeAtlas.View.Area
import CodeAtlas.View.Basic

namespace CodeAtlas

def Color.premultiplied (c : Color) : Color :=
  let part (x : UInt8) : UInt8 := ((2 * x.toNat * c.alpha.toNat + 255) / 510).toUInt8
  ⟨part c.red, part c.green, part c.blue, c.alpha⟩

structure DrawnLine where
  start : Point
  stop : Point
  width : Float32
  color : Color

structure DrawnCircle where
  center : Point
  radius : Float32
  fill : Color
  strokeWidth : Float32
  stroke : Color

/-- What is painted in a frame, from bottom to top. -/
structure Picture where
  camera : Camera
  lines : List DrawnLine
  circles : List DrawnCircle
  labels : List String
  hint : Option NodeId

structure Touch where
  /-- Where the pointer is, if it is on the canvas. -/
  point : Option Point
  scroll : Float32
  pinch : Float32
  drag : Option Point
  clicked : Bool

def Touch.within (t : Touch) (area : Area) : Option Point :=
  t.point.map (· - area.low)

structure Canvas where
  hovered : Option Nat

namespace Canvas

def fresh : Canvas := ⟨none⟩

/-- The zoom of a turn of the wheel and a pinch together. A wheel at rest leaves the pinch as it is.
-/
def zoomFactor (scroll pinch : Float32) : Float32 :=
  (if scroll == 0 then 1 else (scroll * 0.002).exp) * pinch

/-- Factors closer to one than a single-precision step are no zoom. -/
def isZoom (factor : Float32) : Bool :=
  (factor - 1).abs > 1.1920929e-7

def moveView (t : Touch) (area : Area) (v : View) : View :=
  let factor := zoomFactor t.scroll t.pinch
  let v := match t.within area with
    | some p => if isZoom factor then v.zoom p factor else v
    | none => v
  match t.drag with
  | some delta => v.pan delta
  | none => v

def lineOf? (v : View) (g : Graph) (positions : List Point) (screen : Point → Point) (edge : Nat) :
    Option DrawnLine := do
  let (s, t) ← g.endpoints[edge]?
  let a ← positions[s]?
  let b ← positions[t]?
  let style := Edge.style (v.isEmphasized edge)
  return ⟨screen a, screen b, style.width, style.color.premultiplied⟩

def circleOf? (v : View) (g : Graph) (palette : Palette) (positions : List Point) (area : Area)
    (screen : Point → Point) (index : Nat) : Option (DrawnCircle × String) := do
  let world ← positions[index]?
  let node ← g.nodes[index]?
  let style := node.style palette (v.selected == some index)
  let center := screen world
  let radius := style.radius * v.camera.scale
  if (area.grow radius).contains center then
    return (⟨center, radius, style.fill.premultiplied, style.strokeWidth,
      style.stroke.premultiplied⟩, node.name)
  else none

def showsLabels (v : View) : Bool :=
  12 * v.camera.scale ≥ 3

def paint (v : View) (g : Graph) (palette : Palette) (positions : List Point) (area : Area)
    (hovered : Option Nat) : Picture :=
  let screen := fun world => area.low + v.camera.toScreen world
  let circles := v.nodeOrder.filterMap (circleOf? v g palette positions area screen)
  { camera := v.camera
    lines := v.edgeOrder.filterMap (lineOf? v g positions screen)
    circles := circles.map Prod.fst
    labels := if showsLabels v then circles.map Prod.snd else []
    hint := (hovered.bind (g.nodes[·]?)).map Node.id }

def resizeEvents (before after : Point) : List Event :=
  if after == before then [] else [.viewportResized after.x after.y]

def hoverEvents (g : Graph) (before after : Option Nat) : List Event :=
  if before == after then [] else
    match after.bind (g.nodes[·]?) with
    | some n => [.highlightNode n.id]
    | none => [.resetHighlight]

def clickEvents (g : Graph) (node : Option Nat) (clicked : Bool) : List Event :=
  match clicked, node.bind (g.nodes[·]?) with
  | true, some n => [.recenterNode n.id .graph]
  | _, _ => []

/-- One frame: the view follows wheel, pinch and drag, and then is painted. The events tell the
rest of the viewer what has changed. -/
def frame (c : Canvas) (g : Graph) (palette : Palette) (positions : List Point) (area : Area)
    (t : Touch) (v : View) : Canvas × View × List Event × Picture :=
  let moved := moveView t area v
  let hovered := (t.within area).bind (moved.nodeAt? g positions)
  (⟨hovered⟩, moved,
    resizeEvents v.viewport area.size ++ hoverEvents g c.hovered hovered ++
      clickEvents g hovered t.clicked,
    paint moved g palette positions area hovered)

def follow (g : Graph) (positions : List Point) (now : Instant) (v : View) : Event → View
  | .highlightNode id => (v.highlight g id).1
  | .resetHighlight => v.resetHighlight
  | .viewportResized width height => v.setViewport ⟨width, height⟩
  | .recenterNode id _ => (v.recenter g positions id now).1
  | _ => v

end Canvas

end CodeAtlas
