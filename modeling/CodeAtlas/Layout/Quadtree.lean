import CodeAtlas.Number.Single
import CodeAtlas.Layout.Nudge

namespace CodeAtlas

structure Body where
  index : Nat
  position : Point

/-- A square of the plane, seen from far away as one heavy point. The slot numbers the cells of a
tree in the order in which they are made, a cell before the cells inside it. -/
structure Cell where
  slot : Nat
  size : Float32
  center : Point
  weight : Float32

inductive Quadtree where
  | empty
  | leaf (cell : Cell) (bodies : List Body)
  | branch (cell : Cell) (lowLeft lowRight highLeft highRight : Quadtree)

namespace Quadtree

def maxDepth : Nat := 24

def softening : Float32 := 1

def summary (strength : Float32) (bodies : List Body) (size : Float32) (slot : Nat) : Cell :=
  ⟨slot, size, Point.mean (bodies.map (·.position)), strength * Float32.ofNat bodies.length⟩

/-- Build the tree of `bodies` inside the square of side `size` at `corner`, at most `levels`
splits deep, with slots from `slot` on. The second result is the next free slot. -/
def grow (strength : Float32) :
    (levels : Nat) → List Body → Point → Float32 → Nat → Quadtree × Nat
  | _, [], _, _, slot => (.empty, slot)
  | _, [b], _, size, slot => (.leaf (summary strength [b] size slot) [b], slot + 1)
  | 0, bodies, _, size, slot => (.leaf (summary strength bodies size slot) bodies, slot + 1)
  | levels + 1, bodies, corner, size, slot =>
    let half := size / 2
    let mid := corner + ⟨half, half⟩
    let right := fun b : Body => decide (b.position.x ≥ mid.x)
    let high := fun b : Body => decide (b.position.y ≥ mid.y)
    let (a, next) := grow strength levels (bodies.filter fun b => !right b && !high b)
      corner half (slot + 1)
    let (b, next) := grow strength levels (bodies.filter fun b => right b && !high b)
      ⟨mid.x, corner.y⟩ half next
    let (c, next) := grow strength levels (bodies.filter fun b => !right b && high b)
      ⟨corner.x, mid.y⟩ half next
    let (d, next) := grow strength levels (bodies.filter fun b => right b && high b) mid half next
    (.branch (summary strength bodies size slot) a b c d, next)

def bodiesOf (positions : List Point) : List Body :=
  positions.mapIdx Body.mk

def ofPoints (strength : Float32) : List Point → Quadtree
  | [] => .empty
  | p :: ps =>
    let low : Point := (p :: ps).foldl (fun m q => ⟨Number.least m.x q.x, Number.least m.y q.y⟩) p
    let high : Point :=
      (p :: ps).foldl (fun m q => ⟨Number.greatest m.x q.x, Number.greatest m.y q.y⟩) p
    let size := Number.greatest (Number.greatest (high.x - low.x) (high.y - low.y)) 1
    (grow strength maxDepth (bodiesOf (p :: ps)) low size 0).1

inductive Source where
  | far (cell : Cell)
  | near (body : Body)

/-- A cell counts as one point when its size is small against its distance. -/
def isFar (theta2 : Float32) (origin : Point) (cell : Cell) : Bool :=
  cell.size * cell.size / theta2 < (cell.center - origin).lengthSquared

/-- Everything that acts on body `index` at `origin`, in the order of summation. -/
def sources (theta2 : Float32) (index : Nat) (origin : Point) : Quadtree → List Source
  | .empty => []
  | .leaf cell bodies =>
    if isFar theta2 origin cell then [.far cell]
    else (bodies.filter (·.index != index)).map .near
  | .branch cell a b c d =>
    if isFar theta2 origin cell then [.far cell]
    else sources theta2 index origin d ++ sources theta2 index origin c ++
      sources theta2 index origin b ++ sources theta2 index origin a

def pull (d : Point) (weight alpha : Float32) (seed : UInt64) : Point :=
  let dist2 := d.separatedSquare d.lengthSquared seed
  let dist2 := if dist2 < softening then (softening * dist2).sqrt else dist2
  d.separated seed * (weight * alpha / dist2)

def pullOf (strength alpha : Float32) (salt : UInt64) (index : Nat) (origin : Point) :
    Source → Point
  | .far cell => pull (cell.center - origin) cell.weight alpha (salt ^^^ cell.slot.toUInt64)
  | .near body => pull (body.position - origin) strength alpha
      (salt ^^^ ((index.toUInt64 <<< 32) ||| body.index.toUInt64))

def forceOn (strength alpha theta2 : Float32) (salt : UInt64) (tree : Quadtree)
    (index : Nat) (origin : Point) : Point :=
  Point.sum ((sources theta2 index origin tree).map (pullOf strength alpha salt index origin))

structure NoSuchBody where
  count : Nat
  index : Nat

def NoSuchBody.message (e : NoSuchBody) : String :=
  s!"index out of bounds: the len is {e.count} but the index is {e.index}"

/-- The force on one body of a list of points. Where there are no points there is no force. -/
def forceAt (strength alpha theta2 : Float32) (salt : UInt64) (positions : List Point)
    (index : Nat) : Except NoSuchBody Point :=
  match positions, positions[index]? with
  | [], _ => .ok Point.zero
  | _, none => .error ⟨positions.length, index⟩
  | _, some origin =>
    .ok (forceOn strength alpha theta2 salt (ofPoints strength positions) index origin)

end Quadtree

end CodeAtlas
