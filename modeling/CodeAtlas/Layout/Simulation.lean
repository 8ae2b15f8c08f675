import CodeAtlas.Layout.Forces
import CodeAtlas.Layout.Quadtree
import Std.Data.HashMap

namespace CodeAtlas

structure Particle where
  position : Point
  velocity : Point

namespace Particle

def still (position : Point) : Particle := ⟨position, Point.zero⟩

instance : Inhabited Particle := ⟨still Point.zero⟩

def predicted (p : Particle) : Point :=
  p.position + p.velocity

def push (p : Particle) (d : Point) : Particle :=
  { p with velocity := p.velocity + d }

def pushBack (p : Particle) (d : Point) : Particle :=
  { p with velocity := p.velocity - d }

end Particle

structure Link where
  source : Nat
  target : Nat
  strength : Float32
  /-- Share of the correction that moves the target. -/
  bias : Float32

structure Simulation where
  particles : Array Particle
  links : List Link
  forces : Forces
  center : Point
  alpha : Float32
  ticks : Nat

namespace Simulation

def startingPoint (index : Nat) : Point :=
  let turn := (3.14159265358979323846 : Float32) * (3 - (5 : Float32).sqrt)
  let radius := 10 * (0.5 + Float32.ofNat index).sqrt
  let angle := Float32.ofNat index * turn
  ⟨radius * angle.cos, radius * angle.sin⟩

def degree (endpoints : List (Nat × Nat)) (node : Nat) : Nat :=
  endpoints.countP (·.1 == node) + endpoints.countP (·.2 == node)

def linkOf (endpoints : List (Nat × Nat)) (ends : Nat × Nat) : Link :=
  let s := degree endpoints ends.1
  let t := degree endpoints ends.2
  ⟨ends.1, ends.2, 1 / Float32.ofNat (min s t), Float32.ofNat s / Float32.ofNat (s + t)⟩

def start (nodeCount : Nat) (endpoints : List (Nat × Nat)) (forces : Forces) (center : Point) :
    Simulation where
  particles := ((List.range nodeCount).map fun i => Particle.still (startingPoint i)).toArray
  links := endpoints.map (linkOf endpoints)
  forces := forces
  center := center
  alpha := 1
  ticks := 0

def positions (s : Simulation) : List Point :=
  s.particles.toList.map (·.position)

def isSettled (s : Simulation) : Bool :=
  s.alpha < s.forces.alphaMin

def setCenter (s : Simulation) (center : Point) : Simulation :=
  { s with center := center }

/-- Seeds differ from tick to tick and from force to force. -/
def salt (ticks force : Nat) : UInt64 :=
  (ticks.toUInt64 * 31 + force.toUInt64) <<< 40

def pullLink (distance alpha : Float32) (salt : UInt64) (ps : Array Particle) (link : Link × Nat) :
    Array Particle :=
  let l := link.1
  let d := (ps.getD l.target default).predicted - (ps.getD l.source default).predicted
  let d := d.separated (salt ^^^ link.2.toUInt64)
  let length := d.length
  let d := d * ((length - distance) / length * alpha * l.strength)
  (ps.modify l.target (·.pushBack (d * l.bias))).modify l.source (·.push (d * (1 - l.bias)))

def pullLinks (s : Simulation) (alpha : Float32) (ps : Array Particle) : Array Particle :=
  s.links.zipIdx.foldl (pullLink s.forces.linkDistance alpha (salt s.ticks 1)) ps

def repel (s : Simulation) (alpha : Float32) (ps : Array Particle) : Array Particle :=
  let strength := s.forces.chargeStrength
  if strength == 0 then ps
  else
    let tree := Quadtree.ofPoints strength (ps.toList.map (·.position))
    let theta2 := s.forces.theta * s.forces.theta
    ps.mapIdx fun i p =>
      p.push (tree.forceOn strength alpha theta2 (salt s.ticks 2) i p.position)

def gather (center : Point) (ps : Array Particle) : Array Particle :=
  let shift := Point.mean (ps.toList.map (·.position)) - center
  ps.map fun p => { p with position := p.position - shift }

structure GridCell where
  column : Int32
  row : Int32
deriving DecidableEq, Hashable

namespace GridCell

def ofPoint (contact : Float32) (p : Point) : GridCell :=
  ⟨Number.cellIndex (p.x / contact), Number.cellIndex (p.y / contact)⟩

def around (c : GridCell) : List GridCell :=
  [-1, 0, 1].flatMap fun dx => [-1, 0, 1].map fun dy => ⟨c.column + dx, c.row + dy⟩

end GridCell

abbrev Grid := Std.HashMap GridCell (List Nat)

/-- Where each particle is headed, by cell; a cell lists its particles in increasing order. -/
def gridOf (contact : Float32) (ps : Array Particle) : Grid :=
  ps.toList.zipIdx.foldl (fun g p =>
    let c := GridCell.ofPoint contact p.1.predicted
    g.insert c (g.getD c [] ++ [p.2])) ∅

def partners (grid : Grid) (c : GridCell) (i : Nat) : List Nat :=
  c.around.flatMap fun n => (grid.getD n []).filter (i < ·)

def separate (contact : Float32) (salt : UInt64) (i : Nat) (predicted : Point)
    (ps : Array Particle) (j : Nat) : Array Particle :=
  let d := predicted - (ps.getD j default).predicted
  let dist2 := d.lengthSquared
  if dist2 ≥ contact * contact then ps
  else
    let seed := salt ^^^ ((i.toUInt64 <<< 20) ||| j.toUInt64)
    let length := (d.separatedSquare dist2 seed).sqrt
    let d := d.separated seed * ((contact - length) / length * 0.5)
    (ps.modify i (·.push d)).modify j (·.pushBack d)

def collideFrom (contact : Float32) (salt : UInt64) (grid : Grid) (ps : Array Particle) (i : Nat) :
    Array Particle :=
  let predicted := (ps.getD i default).predicted
  (partners grid (GridCell.ofPoint contact predicted) i).foldl
    (separate contact salt i predicted) ps

/-- Keep particles at a distance. The grid is that of the particles as they are at the start. -/
def collide (s : Simulation) (ps : Array Particle) : Array Particle :=
  let radius := s.forces.collideRadius
  if radius ≤ 0 then ps
  else
    let contact := radius * 2
    let grid := gridOf contact ps
    (List.range ps.size).foldl (collideFrom contact (salt s.ticks 3) grid) ps

def drift (velocityDecay : Float32) (ps : Array Particle) : Array Particle :=
  let keep := 1 - velocityDecay
  ps.map fun p =>
    let velocity : Point := p.velocity * keep
    ⟨p.position + velocity, velocity⟩

def tick (s : Simulation) : Simulation :=
  let alpha := s.alpha + (0 - s.alpha) * s.forces.alphaDecay
  let ps := s.pullLinks alpha s.particles
  let ps := s.repel alpha ps
  let ps := gather s.center ps
  let ps := s.collide ps
  { s with
    particles := drift s.forces.velocityDecay ps
    alpha := alpha
    ticks := s.ticks + 1 }

end Simulation

end CodeAtlas
