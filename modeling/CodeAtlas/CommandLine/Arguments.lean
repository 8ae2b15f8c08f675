namespace CodeAtlas.CommandLine

inductive UsageError where
  | helpAsked
  | versionAsked
  | nothingGiven
  | unknownCommand
  | unknownArgument
  | missingArgument
  | repeatedOption
  | unwantedValue
  | missingValue
deriving DecidableEq

inductive Command where
  | summary (file : String)
  | graph (file : String) (pretty : Bool)
  | doc (file folder function : String)
  | search (file query : String)
  | calls (file entry : String)
deriving DecidableEq

structure OptionShape where
  name : String
  takesValue : Bool

/-- What a command accepts. The first operand is a file and must not be empty. -/
structure Shape where
  operands : Nat
  options : List OptionShape

/-- An operand or the value of an option is settled only when the next argument comes. -/
inductive Unsettled where
  | operand (value : String)
  | option (name : String) (value : Option String)

structure Reading where
  operands : List String
  options : List (String × String)
  unsettled : Option Unsettled
  operandsOnly : Bool

namespace Reading

def start : Reading := ⟨[], [], none, false⟩

def addOption (r : Reading) (name value : String) : Except UsageError Reading :=
  if (r.options.lookup name).isSome then .error .repeatedOption
  else .ok { r with options := r.options ++ [(name, value)] }

def settle (r : Reading) : Except UsageError Reading :=
  let settled := { r with unsettled := none }
  match r.unsettled with
  | none => .ok settled
  | some (.operand value) =>
    if r.operands.isEmpty && value.isEmpty then .error .missingValue
    else .ok { settled with operands := r.operands ++ [value] }
  | some (.option _ none) => .error .missingValue
  | some (.option name (some value)) => settled.addOption name value

def operandCount (r : Reading) : Nat :=
  match r.unsettled with
  | some (.operand _) => r.operands.length + 1
  | _ => r.operands.length

def addOperand (shape : Shape) (r : Reading) (value : String) : Except UsageError Reading :=
  if r.operandCount < shape.operands then do
    let r ← r.settle
    return { r with unsettled := some (.operand value) }
  else .error .unknownArgument

end Reading

def splitLong (body : List Char) : String × Option String :=
  match body.span (· != '=') with
  | (name, _ :: value) => (String.ofList name, some (String.ofList value))
  | (name, []) => (String.ofList name, none)

def readLong (shape : Shape) (r : Reading) (body : List Char) : Except UsageError Reading := do
  match splitLong body with
  | ("help", none) =>
    let _ ← r.settle
    .error .helpAsked
  | ("help", some _) => .error .unwantedValue
  | (name, value) =>
    match shape.options.find? (·.name == name), value with
    | none, _ => .error .unknownArgument
    | some o, none =>
      let r ← r.settle
      if o.takesValue then return { r with unsettled := some (.option name none) }
      else r.addOption name ""
    | some o, some value =>
      if o.takesValue then
        let r ← r.settle
        r.addOption name value
      else .error .unwantedValue

def readShort (r : Reading) (body : List Char) : Except UsageError Reading := do
  match body with
  | 'h' :: _ =>
    let _ ← r.settle
    .error .helpAsked
  | _ => .error .unknownArgument

/-- A word that is neither option nor double dash is the value of an option that waits for one, or
else an operand. -/
def readWord (shape : Shape) (r : Reading) (word : String) : Except UsageError Reading :=
  match r.unsettled with
  | some (.option name none) => .ok { r with unsettled := some (.option name (some word)) }
  | _ => r.addOperand shape word

def readArgument (shape : Shape) (r : Reading) (argument : String) : Except UsageError Reading :=
  if r.operandsOnly then r.addOperand shape argument
  else
    match argument.toList with
    | ['-', '-'] => .ok { r with operandsOnly := true }
    | '-' :: '-' :: body => readLong shape r body
    | '-' :: c :: body => readShort r (c :: body)
    | _ => readWord shape r argument

def readArguments (shape : Shape) (arguments : List String) : Except UsageError Reading := do
  let r ← arguments.foldlM (readArgument shape) Reading.start
  let r ← r.settle
  if r.operands.length < shape.operands then .error .missingArgument else return r

def defaultEntry : String := "_main"

def readSummary (arguments : List String) : Except UsageError Command := do
  match (← readArguments ⟨1, []⟩ arguments).operands with
  | [file] => return .summary file
  | _ => .error .missingArgument

def readGraph (arguments : List String) : Except UsageError Command := do
  let r ← readArguments ⟨1, [⟨"pretty", false⟩]⟩ arguments
  match r.operands with
  | [file] => return .graph file (r.options.lookup "pretty").isSome
  | _ => .error .missingArgument

def readDoc (arguments : List String) : Except UsageError Command := do
  match (← readArguments ⟨3, []⟩ arguments).operands with
  | [file, folder, function] => return .doc file folder function
  | _ => .error .missingArgument

def readSearch (arguments : List String) : Except UsageError Command := do
  match (← readArguments ⟨2, []⟩ arguments).operands with
  | [file, query] => return .search file query
  | _ => .error .missingArgument

def readCalls (arguments : List String) : Except UsageError Command := do
  let r ← readArguments ⟨1, [⟨"from", true⟩]⟩ arguments
  match r.operands with
  | [file] => return .calls file ((r.options.lookup "from").getD defaultEntry)
  | _ => .error .missingArgument

def commandNames : List String := ["summary", "export", "doc", "search", "calls", "help"]

/-- Help on a command. Commands have no commands of their own. -/
def readHelp : List String → UsageError
  | [] => .helpAsked
  | [name] => if commandNames.contains name then .helpAsked else .unknownCommand
  | _ => .unknownCommand

def notACommand (argument : String) (rest : List String) : UsageError :=
  match argument.toList with
  | ['-', '-'] =>
    match rest with
    | [] => .nothingGiven
    | name :: _ => if commandNames.contains name then .unknownArgument else .unknownCommand
  | '-' :: '-' :: body =>
    match splitLong body with
    | ("help", none) => .helpAsked
    | ("version", none) => .versionAsked
    | ("help", some _) => .unwantedValue
    | ("version", some _) => .unwantedValue
    | _ => .unknownArgument
  | '-' :: 'h' :: _ => .helpAsked
  | '-' :: 'V' :: _ => .versionAsked
  | '-' :: _ :: _ => .unknownArgument
  | _ => .unknownCommand

def readCommand : List String → Except UsageError Command
  | [] => .error .nothingGiven
  | "summary" :: rest => readSummary rest
  | "export" :: rest => readGraph rest
  | "doc" :: rest => readDoc rest
  | "search" :: rest => readSearch rest
  | "calls" :: rest => readCalls rest
  | "help" :: rest => .error (readHelp rest)
  | argument :: rest => .error (notACommand argument rest)

end CodeAtlas.CommandLine
