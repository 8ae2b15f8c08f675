import CodeAtlas.Json.Reader

namespace CodeAtlas.Json

variable {σ α β : Type}

structure Field (σ : Type) where
  name : String
  required : Bool
  reader : Reader (σ → σ)

namespace Field

def put (value : Reader β) (set : β → σ → σ) : Reader (σ → σ) := fun cs => do
  let (b, rest) ← value cs
  .ok (set b, rest)

def needed (name : String) (value : Reader β) (set : β → σ → σ) : Field σ :=
  ⟨name, true, put value set⟩

def defaulted (name : String) (value : Reader β) (set : β → σ → σ) : Field σ :=
  ⟨name, false, put value set⟩

end Field

structure Draft (σ : Type) where
  value : σ
  seen : List String
  first : Bool

def Draft.isComplete (d : Draft σ) (fields : List (Field σ)) : Bool :=
  fields.all fun f => !f.required || d.seen.contains f.name

/-- One member of a record in object form. A field must not come twice; a member that is no field
is skipped. -/
def memberRound (fields : List (Field σ)) (d : Draft σ) : Reader (Round (Draft σ) σ) := fun cs => do
  match ← nextKey d.first cs with
  | (none, rest) => if d.isComplete fields then .ok (.done d.value, rest) else .error .wrongShape
  | (some key, rest) =>
    match fields.find? (·.name == key) with
    | none =>
      let (_, rest) ← colon rest
      let (_, rest) ← skipValue rest
      .ok (.more { d with first := false }, rest)
    | some f =>
      if d.seen.contains key then .error .wrongShape
      else
        let (_, rest) ← colon rest
        let (set, rest) ← f.reader rest
        .ok (.more ⟨set d.value, key :: d.seen, false⟩, rest)

/-- A record in array form: the fields in order, of which the last ones may be missing. -/
def positional : List (Field σ) → (first : Bool) → σ → Reader σ
  | [], _, value, cs => do
    let (_, rest) ← closeArray cs
    .ok (value, rest)
  | f :: fields, first, value, cs => do
    let (goesOn, rest) ← nextItem first cs
    if goesOn then
      let (set, rest) ← f.reader rest
      positional fields false (set value) rest
    else if f.required then .error .wrongShape
    else positional fields first value rest

/-- A record, as an object or as an array; fields that are missing keep their value in `blank`. -/
def record (fields : List (Field σ)) (blank : σ) : Reader σ := fun cs =>
  match skipBlank cs with
  | '{' :: rest => loop (memberRound fields) ⟨blank, [], true⟩ rest
  | '[' :: rest => positional fields true blank rest
  | _ => refuse cs

inductive Case (α : Type) where
  | bare (value : α)
  | holding (value : Reader α)

def closeChoice : Reader Unit := fun cs =>
  match skipBlank cs with
  | [] => .error .endOfText
  | '}' :: rest => .ok ((), rest)
  | _ => .error .malformed

def choiceName : Reader String := fun cs =>
  match skipBlank cs with
  | [] => .error .endOfText
  | '"' :: rest => quoted rest
  | _ => .error .malformed

def choice (cases : List (String × Case α)) : Reader α := fun cs =>
  match skipBlank cs with
  | [] => .error .endOfText
  | '"' :: rest => do
    let (name, rest) ← quoted rest
    match cases.lookup name with
    | some (.bare a) => .ok (a, rest)
    | _ => .error .wrongShape
  | '{' :: rest => do
    let (name, rest) ← choiceName rest
    match cases.lookup name with
    | none => .error .wrongShape
    | some (.bare a) =>
      let (_, rest) ← colon rest
      let (_, rest) ← nothing rest
      let (_, rest) ← closeChoice rest
      .ok (a, rest)
    | some (.holding value) =>
      let (_, rest) ← colon rest
      let (a, rest) ← value rest
      let (_, rest) ← closeChoice rest
      .ok (a, rest)
  | _ => .error .malformed

end CodeAtlas.Json
