import CodeAtlas.CommandLine.Report

namespace CodeAtlas.CommandLine

def usage : String :=
  unlines ["Inspect a folder/function mapping", "",
    "Usage: code-atlas <COMMAND>", "", "Commands:",
    "  summary <FILE>                    Print node, edge, folder and function counts",
    "  export [--pretty] <FILE>          Print the graph as JSON",
    "  doc <FILE> <FOLDER> <FUNCTION>    Print the documentation and calls of one function",
    "  search <FILE> <QUERY>             Print menu labels matching a query",
    "  calls [--from <FROM>] <FILE>      Print the calls reachable from a function"]

def UsageError.message : UsageError → String
  | .helpAsked => usage
  | .versionAsked => "code-atlas"
  | .nothingGiven => usage
  | .unknownCommand => "error: unrecognized subcommand"
  | .unknownArgument => "error: unexpected argument found"
  | .missingArgument => "error: a required argument was not provided"
  | .repeatedOption => "error: an option cannot be used multiple times"
  | .unwantedValue => "error: unexpected value for an option"
  | .missingValue => "error: a value is required but none was supplied"

def Failure.detail : Failure → String
  | .cannotLoad _ cause => cause.userMessage
  | .noSuchFunction _ _ => ""

def sourceAt (path : String) : IO Codebase.Source := do
  try
    return .file (← IO.FS.readBinFile path)
  catch
    | .noFileOrDirectory .. => return .missing
    | _ => return .directory

end CodeAtlas.CommandLine

open CodeAtlas.CommandLine in
def main (arguments : List String) : IO UInt32 := do
  match readCommand arguments with
  | .error .helpAsked =>
    IO.print usage
    return 0
  | .error .versionAsked =>
    IO.println (UsageError.message .versionAsked)
    return 0
  | .error e =>
    IO.eprintln e.message
    return 2
  | .ok command =>
    match run command (← sourceAt command.file) with
    | .ok text =>
      IO.print text
      return 0
    | .error e =>
      IO.eprintln ("Error: " ++ e.message)
      unless e.detail.isEmpty do IO.eprintln e.detail
      return 1
