namespace CodeAtlas.Text

def isSpace (c : Char) : Bool :=
  let n := c.toNat
  (0x09 ≤ n && n ≤ 0x0d) || n == 0x20 || n == 0x85 || n == 0xa0 || n == 0x1680 ||
    (0x2000 ≤ n && n ≤ 0x200a) || n == 0x2028 || n == 0x2029 || n == 0x202f || n == 0x205f ||
    n == 0x3000

def trimLeft (cs : List Char) : List Char :=
  cs.dropWhile isSpace

def trim (cs : List Char) : List Char :=
  (trimLeft (trimLeft cs).reverse).reverse

def dropReturn (line : List Char) : List Char :=
  match line.getLast? with
  | some '\r' => line.dropLast
  | _ => line

def splitLines : List Char → List (List Char)
  | [] => [[]]
  | c :: cs =>
    match c, splitLines cs with
    | '\n', lines => [] :: lines
    | c, [] => [[c]]
    | c, line :: lines => (c :: line) :: lines

/-- The lines of a text. A line ends with a line feed, of which a carriage return just before it is
a part; an empty last line is none. -/
def lines (cs : List Char) : List (List Char) :=
  let pieces := splitLines cs
  let ended := pieces.dropLast.map dropReturn
  match pieces.getLast? with
  | some (c :: last) => ended ++ [c :: last]
  | _ => ended

end CodeAtlas.Text
