namespace CodeAtlas.Path

/-- The pieces of a path between slashes; pieces may be empty. -/
def split : List Char → List (List Char)
  | [] => [[]]
  | c :: cs =>
    if c = '/' then [] :: split cs
    else
      match split cs with
      | [] => [[c]]
      | s :: ss => (c :: s) :: ss

def segments (path : String) : List String :=
  (split path.toList).map String.ofList

def root (path : String) : String :=
  String.ofList (path.toList.takeWhile (· ≠ '/'))

def join (folder name : String) : String :=
  folder ++ "/" ++ name

def trailFrom (folder : String) : List String → List (String × String)
  | [] => []
  | s :: ss => (join folder s, s) :: trailFrom (join folder s) ss

/-- Every folder on the way down a path, the whole path last, each with its own segment. -/
def trail (path : String) : List (String × String) :=
  match segments path with
  | [] => []
  | s :: ss => (s, s) :: trailFrom s ss

end CodeAtlas.Path
