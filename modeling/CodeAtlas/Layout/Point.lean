namespace CodeAtlas

structure Point where
  x : Float32
  y : Float32

namespace Point

def zero : Point := ⟨0, 0⟩

instance : Inhabited Point := ⟨zero⟩
instance : Add Point := ⟨fun a b => ⟨a.x + b.x, a.y + b.y⟩⟩
instance : Sub Point := ⟨fun a b => ⟨a.x - b.x, a.y - b.y⟩⟩
instance : Neg Point := ⟨fun a => ⟨-a.x, -a.y⟩⟩
instance : HMul Point Float32 Point := ⟨fun a k => ⟨a.x * k, a.y * k⟩⟩
instance : HDiv Point Float32 Point := ⟨fun a k => ⟨a.x / k, a.y / k⟩⟩
instance : BEq Point := ⟨fun a b => a.x == b.x && a.y == b.y⟩

def lengthSquared (a : Point) : Float32 :=
  a.x * a.x + a.y * a.y

def length (a : Point) : Float32 :=
  a.lengthSquared.sqrt

def half (a : Point) : Point :=
  a / (2 : Float32)

def towards (a b : Point) (t : Float32) : Point :=
  a + (b - a) * t

def sum (points : List Point) : Point :=
  points.foldl (· + ·) zero

def mean (points : List Point) : Point :=
  sum points / Float32.ofNat points.length

end Point

end CodeAtlas
