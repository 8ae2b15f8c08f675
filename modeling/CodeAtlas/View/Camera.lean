import CodeAtlas.Json.Value
import CodeAtlas.Json.Record
import CodeAtlas.Layout.Point
import CodeAtlas.Number.Single

namespace CodeAtlas

namespace Point

def toJson (p : Point) : Json :=
  .obj [("x", .single p.x), ("y", .single p.y)]

def fields : List (Json.Field Point) :=
  [.needed "x" Json.singleNumber fun v p => { p with x := v },
    .needed "y" Json.singleNumber fun v p => { p with y := v }]

def reader : Json.Reader Point :=
  Json.record fields zero

end Point

/-- How the plane is shown: a point is scaled and then moved. -/
structure Camera where
  translate : Point
  scale : Float32

namespace Camera

def initial (viewport : Point) : Camera :=
  ⟨viewport.half, 0.06⟩

def centeredOn (world viewport : Point) (scale : Float32) : Camera :=
  ⟨viewport.half - world * scale, scale⟩

def toScreen (c : Camera) (world : Point) : Point :=
  world * c.scale + c.translate

def toWorld (c : Camera) (screen : Point) : Point :=
  (screen - c.translate) / c.scale

def towards (c d : Camera) (t : Float32) : Camera :=
  ⟨c.translate.towards d.translate t, c.scale + (d.scale - c.scale) * t⟩

def pan (c : Camera) (delta : Point) : Camera :=
  { c with translate := c.translate + delta }

/-- Change the scale within its limits; the point under `anchor` stays in place. -/
def zoom (c : Camera) (anchor : Point) (factor : Float32) : Camera :=
  let world := c.toWorld anchor
  let scale := Number.clamp 0.01 8 (c.scale * factor)
  ⟨anchor - world * scale, scale⟩

def toJson (c : Camera) : Json :=
  .obj [("translate", c.translate.toJson), ("scale", .single c.scale)]

def fields : List (Json.Field Camera) :=
  [.needed "translate" Point.reader fun v c => { c with translate := v },
    .needed "scale" Json.singleNumber fun v c => { c with scale := v }]

def reader : Json.Reader Camera :=
  Json.record fields ⟨.zero, 0⟩

end Camera

def ease (t : Float32) : Float32 :=
  let t := Number.clamp 0 1 t * 2
  if t ≤ 1 then t * t * t / 2
  else
    let t := t - 2
    (t * t * t + 2) / 2

end CodeAtlas
