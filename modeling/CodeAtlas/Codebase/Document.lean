import CodeAtlas.Codebase.Basic
import CodeAtlas.Json.Value
import CodeAtlas.Json.Record

namespace CodeAtlas

namespace Json

variable {α : Type}

def entryRound (value : Reader α) (d : OrderedMap String α × Bool) :
    Reader (Round (OrderedMap String α × Bool) (OrderedMap String α)) := fun cs => do
  match ← nextKey d.2 cs with
  | (none, rest) => .ok (.done d.1, rest)
  | (some key, rest) =>
    let (_, rest) ← colon rest
    let (a, rest) ← value rest
    .ok (.more (d.1.insert key a, false), rest)

/-- An object with arbitrary keys. A key that comes again keeps its place and changes its value. -/
def dictionary (value : Reader α) : Reader (OrderedMap String α) := fun cs =>
  match skipBlank cs with
  | '{' :: rest => loop (entryRound value) (.empty, true) rest
  | _ => refuse cs

end Json

namespace FunctionInfo

def toJson (f : FunctionInfo) : Json :=
  .obj (Json.member? "documentation" (f.documentation.map .str) ++
    [("calls", .arr (f.calls.map .str))])

def fields : List (Json.Field FunctionInfo) :=
  [.defaulted "documentation" (Json.optional Json.string) fun d f => { f with documentation := d },
    .defaulted "calls" (Json.optional (Json.list Json.string)) fun c f =>
      { f with calls := c.getD [] }]

def reader : Json.Reader FunctionInfo :=
  Json.record fields ⟨none, []⟩

end FunctionInfo

namespace Codebase

def toJson (c : Codebase) : Json :=
  .obj (c.folders.entries.map fun (path, folder) =>
    (path, .obj (folder.entries.map fun (name, info) => (name, info.toJson))))

def reader : Json.Reader Codebase := fun cs => do
  let (folders, rest) ← Json.dictionary (Json.dictionary FunctionInfo.reader) cs
  .ok (⟨folders⟩, rest)

inductive Source where
  | missing
  | directory
  | file (bytes : ByteArray)

inductive Unavailable where
  | notFound
  | isDirectory
  | notText

inductive LoadError where
  | unavailable (cause : Unavailable)
  | invalid (cause : Json.ReadError)
  | empty

namespace LoadError

def userMessage (_ : LoadError) : String :=
  "The JSON file is empty or invalid. Check the contents of functions.json."

def emptyMessage : String := "mapping contains no folders"

end LoadError

/-- Read a codebase document. One without folders is refused. -/
def ofText (text : String) : Except LoadError Codebase :=
  match Json.read reader text with
  | .error e => .error (.invalid e)
  | .ok c => if c.isEmpty then .error .empty else .ok c

def load : Source → Except LoadError Codebase
  | .missing => .error (.unavailable .notFound)
  | .directory => .error (.unavailable .isDirectory)
  | .file bytes =>
    match String.fromUTF8? bytes with
    | none => .error (.unavailable .notText)
    | some text => ofText text

end Codebase

end CodeAtlas
