import ListLang.CommandLine

/-!
# The program
-/

namespace ListLang.CommandLine

/-- The text of the file at `path`, if it can be read. -/
def readText (path : String) : IO (Option String) := do
  try
    let text ← IO.FS.readFile path
    pure (some text)
  catch _ => pure none

/-- Answers the arguments and gives the exit code. -/
def perform (args : List String) : IO UInt32 := do
  let request := Request.ofArgs args
  let text ← match request.path? with
    | some path => readText path
    | none => pure none
  let output := request.answer fun _ => text
  IO.print output.out
  IO.eprint output.err
  pure output.exitCode.toUInt32

end ListLang.CommandLine

/-- Answers the arguments. -/
def main (args : List String) : IO UInt32 := ListLang.CommandLine.perform args
