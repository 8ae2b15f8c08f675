import CodeAtlas.Layout.Arena
import CodeAtlas.Layout.Simulation

namespace CodeAtlas

namespace Quadtree

section Build

variable (atLeast : Float32 → Float32 → Bool) (strength : Float32) (positions : List Point)

def bodiesAt? (indices : List Nat) : Option (List Body) :=
  indices.mapM fun i => positions[i]?.map (Body.mk i)

def reserve? (indices : List Nat) (size : Float32) (arena : List Entry) : Option (List Entry) := do
  let bodies ← bodiesAt? positions indices
  some (arena ++ [.ofCell (summary strength bodies size arena.length) (.leaf [])])

def patch? (arena : List Entry) (slot : Nat) (content : Content) : Option (List Entry) :=
  if slot < arena.length then some (patch arena slot content) else none

def addQuarter? (place : List Nat → Point → Float32 → List Entry → Option (Nat × List Entry))
    (indices : List Nat) (corner : Point) (size : Float32) (row : List Nat × List Entry) (q : Nat) :
    Option (List Nat × List Entry) := do
  let mid := middle corner size
  let bodies ← bodiesAt? positions indices
  let bucket := (bodies.filter (quadrant atLeast mid ·.position == q)).map Body.index
  if bucket = [] then some row
  else
    let (child, arena) ← place bucket (quarterCorner corner mid q) (size / 2) row.2
    some (row.1 ++ [child], arena)

/-- Fill an arena. There is no result if the number of a body or a slot is out of range. -/
def fill? : (levels : Nat) → List Nat → Point → Float32 → List Entry → Option (Nat × List Entry)
  | 0, indices, _, size, arena => do
    let reserved ← reserve? strength positions indices size arena
    let filled ← patch? reserved arena.length (.leaf indices)
    some (arena.length, filled)
  | levels + 1, indices, corner, size, arena => do
    let reserved ← reserve? strength positions indices size arena
    if indices.length = 1 then
      let filled ← patch? reserved arena.length (.leaf indices)
      some (arena.length, filled)
    else
      let (children, filled) ← [0, 1, 2, 3].foldlM
        (addQuarter? atLeast positions (fill? levels) indices corner size) ([], reserved)
      let filled ← patch? filled arena.length (.branch children)
      some (arena.length, filled)

end Build

def build? (strength : Float32) (positions : List Point) : Option (List Entry) :=
  if positions = [] then some []
  else do
    let first ← positions[0]?
    let square := squareAround first positions
    let (_, arena) ← fill? (fun x y => decide (x ≥ y)) strength positions maxDepth
      (List.range positions.length) square.1 square.2 []
    some arena

def forceOn? (strength alpha theta2 : Float32) (salt : UInt64) (arena : List Entry)
    (positions : List Point) (index : Nat) : Option Point :=
  if arena.isEmpty then some Point.zero
  else do
    let origin ← positions[index]?
    let (_, found) ← walk? arena theta2 positions index origin arena.length [0]
    some (Point.sum (found.map (pullOf strength alpha salt index origin)))

end Quadtree

namespace Simulation

def change? (ps : Array Particle) (i : Nat) (f : Particle → Particle) : Option (Array Particle) :=
  if i < ps.size then some (ps.modify i f) else none

def pullLink? (distance alpha : Float32) (salt : UInt64) (ps : Array Particle)
    (link : Link × Nat) : Option (Array Particle) := do
  let l := link.1
  let target ← ps[l.target]?
  let source ← ps[l.source]?
  let d := (target.predicted - source.predicted).separated (salt ^^^ link.2.toUInt64)
  let length := d.length
  let d := d * ((length - distance) / length * alpha * l.strength)
  let ps ← change? ps l.target (·.pushBack (d * l.bias))
  change? ps l.source (·.push (d * (1 - l.bias)))

def pullLinks? (s : Simulation) (alpha : Float32) (ps : Array Particle) :
    Option (Array Particle) :=
  s.links.zipIdx.foldlM (pullLink? s.forces.linkDistance alpha (salt s.ticks 1)) ps

def repel? (s : Simulation) (alpha : Float32) (ps : Array Particle) : Option (Array Particle) :=
  let strength := s.forces.chargeStrength
  if strength == 0 then some ps
  else do
    let positions := ps.toList.map (·.position)
    let arena ← Quadtree.build? strength positions
    let theta2 := s.forces.theta * s.forces.theta
    let changes ← (List.range ps.size).mapM
      (Quadtree.forceOn? strength alpha theta2 (salt s.ticks 2) arena positions)
    some (Array.zipWith Particle.push ps changes.toArray)

def separate? (contact : Float32) (salt : UInt64) (i : Nat) (predicted : Point)
    (ps : Array Particle) (j : Nat) : Option (Array Particle) := do
  let other ← ps[j]?
  let d := predicted - other.predicted
  let dist2 := d.lengthSquared
  if dist2 ≥ contact * contact then some ps
  else
    let seed := salt ^^^ ((i.toUInt64 <<< 20) ||| j.toUInt64)
    let length := (d.separatedSquare dist2 seed).sqrt
    let d := d.separated seed * ((contact - length) / length * 0.5)
    let ps ← change? ps i (·.push d)
    change? ps j (·.pushBack d)

def collideFrom? (contact : Float32) (salt : UInt64) (grid : Grid) (ps : Array Particle)
    (i : Nat) : Option (Array Particle) := do
  let particle ← ps[i]?
  let predicted := particle.predicted
  (partners grid (GridCell.ofPoint contact predicted) i).foldlM
    (separate? contact salt i predicted) ps

def collide? (s : Simulation) (ps : Array Particle) : Option (Array Particle) :=
  let radius := s.forces.collideRadius
  if radius ≤ 0 then some ps
  else
    let contact := radius * 2
    let grid := gridOf contact ps
    (List.range ps.size).foldlM (collideFrom? contact (salt s.ticks 3) grid) ps

/-- A tick that fails at the first index that is out of range. -/
def tick? (s : Simulation) : Option Simulation := do
  let alpha := s.alpha + (0 - s.alpha) * s.forces.alphaDecay
  let ps ← s.pullLinks? alpha s.particles
  let ps ← s.repel? alpha ps
  let ps := gather s.center ps
  let ps ← s.collide? ps
  some { s with
    particles := drift s.forces.velocityDecay ps
    alpha := alpha
    ticks := s.ticks + 1 }

/-- The particles, and the pairs that have been examined so far, in order. -/
structure Sweep where
  particles : Array Particle
  examined : List (Nat × Nat)

/-- Come to particle `j` in a cell near particle `i`. Only a later particle is examined. -/
def Sweep.meet (contact : Float32) (salt : UInt64) (i : Nat) (predicted : Point) (w : Sweep)
    (j : Nat) : Sweep :=
  if j ≤ i then w
  else ⟨separate contact salt i predicted w.particles j, w.examined ++ [(i, j)]⟩

def Sweep.visit (contact : Float32) (salt : UInt64) (grid : Grid) (w : Sweep) (i : Nat) : Sweep :=
  let predicted := (w.particles.getD i default).predicted
  (GridCell.ofPoint contact predicted).around.foldl (fun w n =>
    (grid.getD n []).foldl (Sweep.meet contact salt i predicted) w) w

/-- The sweep over the first `n` particles: what it is when it comes to particle `n`. -/
def sweepTo (s : Simulation) (ps : Array Particle) (n : Nat) : Sweep :=
  let contact := s.forces.collideRadius * 2
  (List.range n).foldl (Sweep.visit contact (salt s.ticks 3) (gridOf contact ps)) ⟨ps, []⟩

def sweep (s : Simulation) (ps : Array Particle) : Sweep :=
  if s.forces.collideRadius ≤ 0 then ⟨ps, []⟩ else s.sweepTo ps ps.size

end Simulation

end CodeAtlas
