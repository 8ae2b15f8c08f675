import CodeAtlas.Layout.Point

namespace CodeAtlas

def scramble (seed : UInt64) : UInt64 :=
  let z := seed + 0x9E3779B97F4A7C15
  let z := (z ^^^ (z >>> 30)) * 0xBF58476D1CE4E5B9
  let z := (z ^^^ (z >>> 27)) * 0x94D049BB133111EB
  z ^^^ (z >>> 31)

def sample (seed : UInt64) : UInt64 :=
  scramble seed >>> 40

/-- A tiny offset, fixed by its seed, that pulls coincident points apart. -/
def nudge (seed : UInt64) : Float32 :=
  ((sample seed).toFloat32 / 16777216 - 0.5) * 1e-6

def turnSeed (seed : UInt64) : UInt64 :=
  (seed <<< 17) ||| (seed >>> 47)

def Point.separated (d : Point) (seed : UInt64) : Point :=
  ⟨if d.x == 0 then nudge seed else d.x, if d.y == 0 then nudge (turnSeed seed) else d.y⟩

def Point.separatedSquare (d : Point) (dist2 : Float32) (seed : UInt64) : Float32 :=
  let s := d.separated seed
  let dist2 := if d.x == 0 then dist2 + s.x * s.x else dist2
  if d.y == 0 then dist2 + s.y * s.y else dist2

end CodeAtlas
