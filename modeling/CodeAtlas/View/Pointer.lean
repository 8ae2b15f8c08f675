import CodeAtlas.Number.Single
import CodeAtlas.Time
import CodeAtlas.View.Area

namespace CodeAtlas

/-- The distance of two points, rounded once from double precision. An infinite difference in one
direction outweighs the other one, whatever that is. -/
def Point.distance (a b : Point) : Float32 :=
  let d := b - a
  if d.x.isInf || d.y.isInf then 1 / 0
  else
    let x := d.x.toFloat
    let y := d.y.toFloat
    Number.narrow (x * x + y * y).sqrt

structure Press where
  place : Point
  frame : FrameNumber
  strayed : Bool

namespace Press

def clickRadius : Float32 := 6

def clickFrames : Nat := 48

def moveTo (q : Point) (b : Press) : Press :=
  { b with strayed := b.strayed || b.place.distance q > clickRadius }

def isClick (now : FrameNumber) (b : Press) : Bool :=
  !b.strayed && now - b.frame ≤ clickFrames

end Press

/-- The pointer and its button. A press on the canvas can become a click as long as it is short and
the pointer stays near, and a drag from then on. -/
structure Pointer where
  frame : FrameNumber
  position : Option Point
  lastAt : Point
  trail : List (FrameNumber × Point)
  button : Option Press
  mayClick : Bool
  mayDrag : Bool
  dragging : Bool
  lastMove : Option FrameNumber
  lastClick : Option FrameNumber
  lastScroll : Option FrameNumber

namespace Pointer

def away : Pointer where
  frame := 0
  position := none
  lastAt := .zero
  trail := []
  button := none
  mayClick := false
  mayDrag := false
  dragging := false
  lastMove := none
  lastClick := none
  lastScroll := none

def isDown (p : Pointer) : Bool := p.button.isSome

def isClick (p : Pointer) : Bool := p.button.any (·.isClick p.frame)

def holds (p : Pointer) : Bool := p.mayClick || p.mayDrag

def nextFrame (p : Pointer) : Pointer := { p with frame := p.frame + 1 }

def moveTo (p : Pointer) (q : Point) : Pointer :=
  { p with
    position := some q
    lastAt := q
    button := p.button.map (·.moveTo q)
    lastMove := some p.frame }

def leave (p : Pointer) : Pointer := { p with position := none, trail := [] }

/-- A press happens where the pointer was last, and brings it back there if it has left. -/
def press (area : Area) (p : Pointer) : Pointer :=
  { p with
    position := some p.lastAt
    trail := []
    button := some ⟨p.lastAt, p.frame, false⟩
    mayClick := p.mayClick || area.reaches p.lastAt
    mayDrag := p.mayDrag || area.reaches p.lastAt }

def release (p : Pointer) : Pointer :=
  { p with
    position := some p.lastAt
    button := none
    mayClick := false
    mayDrag := false
    dragging := false
    lastClick := if p.isClick then some p.frame else p.lastClick }

def trailFrames : Nat := 6

def fresh (now : FrameNumber) : List (FrameNumber × Point) → List (FrameNumber × Point)
  | a :: b :: c :: rest =>
    if now - a.1 > trailFrames then fresh now (b :: c :: rest) else a :: b :: c :: rest
  | short => short

/-- Whether the ends of the trail differ. Two positions are too few to tell. -/
def isMoving (p : Pointer) : Bool :=
  match p.trail with
  | a :: _ :: c :: rest => !(((c :: rest).getLastD c).2 - a.2 == Point.zero)
  | _ => false

def track (p : Pointer) : Pointer :=
  let trail := p.trail ++ (p.position.map fun q => (p.frame, q)).toList
  let p := { p with trail := fresh p.frame trail }
  if p.isMoving then { p with lastMove := some p.frame } else p

/-- The end of a frame. A drag begins in a later frame than its press, and goes on when the pointer
leaves the screen; a press that is not yet a drag is then forgotten. -/
def settle (pressed : Bool) (p : Pointer) : Pointer :=
  let stays := p.isDown && p.position.isSome
  { p with
    mayClick := p.mayClick && stays && p.isClick
    mayDrag := p.mayDrag && stays
    dragging := p.dragging || p.mayDrag && p.isDown && !p.isClick && !pressed }

end Pointer

structure CanvasInput where
  move : Option Point
  leave : Bool
  press : Bool
  release : Bool
  scroll : Float32
  pinch : Float32

structure Gesture where
  pointer : Pointer
  clicked : Bool
  drag : Option Point
  /-- Where the pointer is on the canvas. A click or a drag holds the canvas also from outside, and
  a button that went down elsewhere keeps the pointer off it. -/
  point? : Option Point

namespace Gesture

def travelled (before after : Option Point) : Point :=
  match before, after with
  | some p, some q => q - p
  | _, _ => Point.zero

def ofInput (area : Area) (before : Pointer) (i : CanvasInput) : Gesture :=
  let p := before.nextFrame
  let p := (i.move.map p.moveTo).getD p
  let p := if i.leave then p.leave else p
  let p := if i.press then p.press area else p
  let clicked := i.release && p.isClick && p.mayClick
  let p := if i.release then p.release else p
  let p := if i.scroll == 0 then p else { p with lastScroll := some p.frame }
  let p := p.track.settle i.press
  let isHeld := clicked || p.dragging
  { pointer := p
    clicked := clicked
    drag := if p.dragging then some (travelled before.position p.position) else none
    point? := p.position.filter fun q => (isHeld || area.reaches q) && (!p.isDown || p.holds) }

end Gesture

end CodeAtlas
