import CodeAtlas.Layout.Quadtree

namespace CodeAtlas.Quadtree

/-- What lies inside a cell: bodies, by their numbers, or smaller cells, by their slots. -/
inductive Content where
  | leaf (bodies : List Nat)
  | branch (children : List Nat)
deriving DecidableEq

/-- A cell as it is kept in an arena, where its place is its slot. -/
structure Entry where
  size : Float32
  center : Point
  weight : Float32
  content : Content

namespace Entry

def ofCell (cell : Cell) (content : Content) : Entry :=
  ⟨cell.size, cell.center, cell.weight, content⟩

def cell (e : Entry) (slot : Nat) : Cell :=
  ⟨slot, e.size, e.center, e.weight⟩

def children (e : Entry) : List Nat :=
  match e.content with
  | .leaf _ => []
  | .branch children => children

def bodies (e : Entry) : List Nat :=
  match e.content with
  | .leaf bodies => bodies
  | .branch _ => []

end Entry

def middle (corner : Point) (size : Float32) : Point :=
  corner + ⟨size / 2, size / 2⟩

/-- The number of the quarter in which a point counts. The coordinates are compared by `atLeast`,
which may answer what it likes. -/
def quadrant (atLeast : Float32 → Float32 → Bool) (mid p : Point) : Nat :=
  (atLeast p.x mid.x).toNat ||| (atLeast p.y mid.y).toNat <<< 1

def quarterCorner (corner mid : Point) (q : Nat) : Point :=
  ⟨if q &&& 1 = 1 then mid.x else corner.x, if q &&& 2 = 2 then mid.y else corner.y⟩

def bodiesAt (positions : List Point) (indices : List Nat) : List Body :=
  indices.map fun i => ⟨i, positions.getD i default⟩

section Build

variable (atLeast : Float32 → Float32 → Bool) (strength : Float32) (positions : List Point)

/-- Put one quarter of a square into an arena by `place`, unless no body is there, and note its
slot. -/
def addQuarter (place : List Nat → Point → Float32 → List Entry → Nat × List Entry)
    (indices : List Nat) (corner : Point) (size : Float32) (row : List Nat × List Entry) (q : Nat) :
    List Nat × List Entry :=
  let mid := middle corner size
  let bucket := indices.filter fun i => quadrant atLeast mid (positions.getD i default) == q
  if bucket = [] then row
  else
    let (child, arena) := place bucket (quarterCorner corner mid q) (size / 2) row.2
    (row.1 ++ [child], arena)

def patch (arena : List Entry) (slot : Nat) (content : Content) : List Entry :=
  arena.modify slot fun e => { e with content := content }

/-- Take the next slot of an arena for a cell of which only the summary is known. -/
def reserve (indices : List Nat) (size : Float32) (arena : List Entry) : List Entry :=
  arena ++ [.ofCell (summary strength (bodiesAt positions indices) size arena.length) (.leaf [])]

/-- Put a square into an arena: reserve a slot, put the quarters behind it, and then write into the
slot what they turned out to be. The first result is the slot. -/
def fill : (levels : Nat) → List Nat → Point → Float32 → List Entry → Nat × List Entry
  | 0, indices, _, size, arena =>
    (arena.length, patch (reserve strength positions indices size arena) arena.length
      (.leaf indices))
  | levels + 1, indices, corner, size, arena =>
    let reserved := reserve strength positions indices size arena
    if indices.length = 1 then (arena.length, patch reserved arena.length (.leaf indices))
    else
      let (children, filled) := [0, 1, 2, 3].foldl
        (addQuarter atLeast positions (fill levels) indices corner size) ([], reserved)
      (arena.length, patch filled arena.length (.branch children))

end Build

def squareAround (first : Point) (points : List Point) : Point × Float32 :=
  let low : Point := points.foldl (fun m q => ⟨Number.least m.x q.x, Number.least m.y q.y⟩) first
  let high : Point :=
    points.foldl (fun m q => ⟨Number.greatest m.x q.x, Number.greatest m.y q.y⟩) first
  (low, Number.greatest (Number.greatest (high.x - low.x) (high.y - low.y)) 1)

def square (points : List Point) : Point × Float32 :=
  squareAround (points.headD .zero) points

/-- The arena of all points, where nothing is known of the square and of how coordinates compare. -/
def fillAll (atLeast : Float32 → Float32 → Bool) (strength : Float32) (positions : List Point)
    (corner : Point) (size : Float32) : List Entry :=
  (fill atLeast strength positions maxDepth (List.range positions.length) corner size []).2

def build (strength : Float32) (positions : List Point) : List Entry :=
  if positions = [] then []
  else fillAll (fun x y => decide (x ≥ y)) strength positions (square positions).1
    (square positions).2

/-- What a cell adds when it is looked at, and the slots of the cells to be looked at in its place,
the last one first. The position of a body is looked up by its number. -/
def Entry.look? (theta2 : Float32) (positions : List Point) (index : Nat) (origin : Point)
    (slot : Nat) (e : Entry) : Option (List Source × List Nat) :=
  if isFar theta2 origin (e.cell slot) then some ([.far (e.cell slot)], [])
  else
    match e.content with
    | .branch children => some ([], children.reverse)
    | .leaf bodies => do
      let found ← (bodies.filter (· != index)).mapM fun j =>
        positions[j]?.map fun p => .near ⟨j, p⟩
      some (found, [])

/-- Take the slot on top of the stack, look its cell up, and put the slots of the cells to be opened
in its place, until the stack is empty: the slots taken, and what their cells added. There is no
result if a slot or a body is out of range, or if some slot is left after `turns` turns. -/
def walk? (arena : List Entry) (theta2 : Float32) (positions : List Point) (index : Nat)
    (origin : Point) : (turns : Nat) → (stack : List Nat) → Option (List Nat × List Source)
  | _, [] => some ([], [])
  | 0, _ :: _ => none
  | turns + 1, slot :: stack => do
    let e ← arena[slot]?
    let (found, opened) ← e.look? theta2 positions index origin slot
    let (slots, more) ← walk? arena theta2 positions index origin turns (opened ++ stack)
    some (slot :: slots, found ++ more)

end CodeAtlas.Quadtree
