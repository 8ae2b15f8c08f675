import CodeAtlas.Layout.Point
import CodeAtlas.Number.Single

namespace CodeAtlas

structure Area where
  low : Point
  high : Point

namespace Area

def ofSize (origin size : Point) : Area := ⟨origin, origin + size⟩

def size (a : Area) : Point := a.high - a.low

def grow (a : Area) (margin : Float32) : Area :=
  ⟨⟨a.low.x - margin, a.low.y - margin⟩, ⟨a.high.x + margin, a.high.y + margin⟩⟩

/-- Borders belong to the area. -/
def contains (a : Area) (p : Point) : Bool :=
  a.low.x ≤ p.x && p.x ≤ a.high.x && a.low.y ≤ p.y && p.y ≤ a.high.y

/-- The screen is divided into steps of a 32nd of a point; a half goes away from zero. -/
def snap (x : Float32) : Float32 :=
  (x * 32).round / 32

def snapped (a : Area) : Area :=
  ⟨⟨snap a.low.x, snap a.low.y⟩, ⟨snap a.high.x, snap a.high.y⟩⟩

/-- The part that is drawn on, at whole steps. Without a width it is the line in the middle, without
a height the line on top. -/
def shown (a : Area) : Area :=
  let s := a.snapped
  let bottom := Number.greatest s.high.y s.low.y
  let right := Number.least (Number.greatest s.high.x s.low.x) s.high.x
  if right < s.low.x then
    let middle := 0.5 * (s.low.x + right)
    ⟨⟨middle, s.low.y⟩, ⟨middle, bottom⟩⟩
  else ⟨s.low, ⟨right, bottom⟩⟩

def distanceSquared (a : Area) (p : Point) : Float32 :=
  let beyond (low high x : Float32) : Float32 :=
    if x < low then low - x else if high < x then x - high else 0
  Point.lengthSquared ⟨beyond a.low.x a.high.x p.x, beyond a.low.y a.high.y p.y⟩

def isUpright (a : Area) : Bool :=
  a.low.x ≤ a.high.x && a.low.y ≤ a.high.y

def reach : Float32 := 5

def reaches (a : Area) (p : Point) : Bool :=
  a.snapped.isUpright && a.snapped.distanceSquared p ≤ reach * reach

end Area

end CodeAtlas
