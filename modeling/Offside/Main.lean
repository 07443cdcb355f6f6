import Offside.CommandLine

/-!
# The program

Reads the file that the arguments name, and prints what comes of it: output on the standard output,
errors on the standard error.
-/

open Offside

/-- The lines that tell an error. -/
def errorLines (error : Error) : List String :=
  match error with
  | .parse cause =>
    ["[" ++ cause.fault.code ++ "] Error: " ++ cause.fault.message,
     "at bytes " ++ Text.Decimal.ofNat cause.span.start ++ ".." ++
       Text.Decimal.ofNat cause.span.stop ++ ": " ++ cause.fault.label] ++
      (cause.fault.note?.map ("Note: " ++ ·)).toList
  | .lex cause =>
    ["[Lex Error] Error: " ++ cause.message,
     "at bytes " ++ Text.Decimal.ofNat cause.span.start ++ ".." ++
       Text.Decimal.ofNat cause.span.stop ++ ": this is not a valid token"]
  | other => ["error: " ++ other.message]

/-- The text of a file, unless it is missing or no text. -/
def readText (path : String) : IO (Option String) := do
  try
    let bytes ← IO.FS.readBinFile path
    return String.fromUTF8? bytes
  catch _ => return none

/-- Runs the command. -/
def main (arguments : List String) : IO UInt32 := do
  match Arguments.parse? arguments with
  | none =>
    IO.eprintln "usage: [--no-check] [--max-depth N] [--dump STAGE] [-v] PATH"
    return 2
  | some parsed =>
    match ← readText parsed.path with
    | none =>
      IO.eprintln ("failed to read `" ++ parsed.path ++ "`")
      return 1
    | some source =>
      let (out, error) := parsed.execute source .addressed
      IO.print out
      match error with
      | none => return 0
      | some error =>
        for line in errorLines error do
          IO.eprintln line
        return 1
