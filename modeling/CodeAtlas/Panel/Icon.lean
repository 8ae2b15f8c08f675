namespace CodeAtlas.Panel

inductive Icon where
  | openFolder
  | closedFolder
  | function
  | file
  | info
  | arrow
deriving DecidableEq

structure Caption where
  icon : Option Icon
  text : String
deriving DecidableEq

namespace Caption

def plain (text : String) : Caption := ⟨none, text⟩

def iconed (icon : Icon) (text : String) : Caption := ⟨some icon, text⟩

end Caption

end CodeAtlas.Panel
