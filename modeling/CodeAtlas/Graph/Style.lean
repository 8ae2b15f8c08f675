import CodeAtlas.Graph.Basic

namespace CodeAtlas

structure Color where
  red : UInt8
  green : UInt8
  blue : UInt8
  alpha : UInt8
deriving DecidableEq

namespace Color

def solid (red green blue : UInt8) : Color := ⟨red, green, blue, 255⟩

/-- The color written as six hexadecimal digits; anything above them is ignored. -/
def ofHex (n : Nat) : Color :=
  solid (n / 65536).toUInt8 (n / 256).toUInt8 n.toUInt8

def folderFill : Color := ofHex 0x69b3a2
def nodeStroke : Color := solid 255 255 255
def selectedStroke : Color := solid 255 0 0
def edge : Color := ⟨153, 153, 153, 153⟩
def emphasizedEdge : Color := solid 255 140 0

def categories : List Color :=
  [0x1f77b4, 0xff7f0e, 0x2ca02c, 0xd62728, 0x9467bd, 0x8c564b, 0xe377c2, 0x7f7f7f, 0xbcbd22,
    0x17becf].map ofHex

def category (n : Nat) : Color :=
  categories.getD (n % categories.length) folderFill

end Color

/-- The color of each group, in the order in which the groups first came. -/
structure Palette where
  colors : OrderedMap String Color

namespace Palette

def empty : Palette := ⟨.empty⟩

def size (p : Palette) : Nat := p.colors.size

def isEmpty (p : Palette) : Bool := p.colors.isEmpty

def get? (p : Palette) (key : String) : Option Color := p.colors.get? key

/-- The color of a key; a key that has none yet is given the category after the last one given. -/
def colorFor (p : Palette) (key : String) : Color × Palette :=
  match p.get? key with
  | some color => (color, p)
  | none =>
    let color := Color.category p.size
    (color, ⟨p.colors.insert key color⟩)

def assign (p : Palette) (key : String) : Palette := (p.colorFor key).2

def keyOf (n : Node) : String :=
  n.group.getD n.id

def ofNodes (nodes : List Node) : Palette :=
  ((nodes.filter (·.kind == .function)).map keyOf).foldl assign empty

end Palette

structure NodeStyle where
  radius : Float32
  fill : Color
  stroke : Color
  strokeWidth : Float32

def NodeKind.radius : NodeKind → Float32
  | folder => 20
  | function => 10

def Node.style (n : Node) (palette : Palette) (selected : Bool) : NodeStyle where
  radius := n.kind.radius
  fill := match n.kind with
    | .folder => Color.folderFill
    | .function => (palette.get? (Palette.keyOf n)).getD (Color.category 0)
  stroke := if selected then Color.selectedStroke else Color.nodeStroke
  strokeWidth := if selected then 2 else 1.5

structure EdgeStyle where
  color : Color
  width : Float32

def Edge.style (emphasized : Bool) : EdgeStyle :=
  if emphasized then ⟨Color.emphasizedEdge, 3⟩ else ⟨Color.edge, 1⟩

end CodeAtlas
