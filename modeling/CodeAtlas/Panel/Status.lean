import CodeAtlas.Number.Single
import CodeAtlas.Panel.Icon
import CodeAtlas.Time

namespace CodeAtlas

structure Status where
  source : String
  folders : Nat
  functions : Nat
  edges : Nat
  ticks : Nat
  remaining : Option Duration

namespace Status

open Panel

def progress : Option Duration → String
  | some d => "Laying out... " ++ Number.oneDecimal d.toSeconds ++ "s"
  | none => "Ready"

def captions (s : Status) (message : String) : List Caption :=
  [.plain (progress s.remaining), .iconed .file s.source] ++
    (if message.isEmpty then [] else [.plain message]) ++
    [.plain s!"{s.ticks} ticks", .plain s!"{s.edges} edges",
      .plain s!"{s.folders} folders / {s.functions} functions"]

end Status

end CodeAtlas
