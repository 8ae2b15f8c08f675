import CodeAtlas.View.Canvas
import CodeAtlas.View.Tooltip
import CodeAtlas.View.Wheel

namespace CodeAtlas

structure Screen where
  canvas : Canvas
  pointer : Pointer
  area : Area
  tooltip : Tooltip
  wheel : Wheel

namespace Screen

def ofArea (area : Area) : Screen := ⟨.fresh, .away, area, .closed, .still⟩

/-- What the pointer is on is judged by the last frame. The hint comes up where it rests. -/
def frame (s : Screen) (g : Graph) (palette : Palette) (positions : List Point) (area : Area)
    (i : CanvasInput) (v : View) : Screen × View × List Event × Picture :=
  let (wheel, scroll) := s.wheel.turn i.scroll
  let gesture := Gesture.ofInput s.area s.pointer { i with scroll := scroll }
  let touch : Touch := ⟨gesture.point?, scroll, i.pinch, gesture.drag, gesture.clicked⟩
  let (canvas, v, events, picture) := s.canvas.frame g palette positions area.shown touch v
  let (tooltip, isSeen) := s.tooltip.step area.shown gesture.pointer canvas.hovered.isSome
  (⟨canvas, gesture.pointer, area, tooltip, wheel⟩, v, events,
    { picture with hint := if isSeen then picture.hint else none })

end Screen

end CodeAtlas
