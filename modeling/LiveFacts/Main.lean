import LiveFacts.CommandLine.Answer

/-!
# The program

Ends with code 0 when a request is answered, 1 when it fails, and 2 when it cannot be read.
-/

namespace LiveFacts

def contentOf? (file : String) : IO (Option String) := do
  try
    return some (← IO.FS.readFile file)
  catch _ =>
    return none

end LiveFacts

open LiveFacts

def main (arguments : List String) : IO UInt32 := do
  match Request.read arguments with
  | none =>
    IO.eprint (Topic.text .program true)
    return 2
  | some request =>
    let content? ← match request.file? with
      | some file => contentOf? file
      | none => pure none
    match request.answer content? with
    | .error failure =>
      IO.eprintln failure.report
      return 1
    | .ok output =>
      if let some summary := output.summary? then
        IO.eprintln summary
      IO.print output.text
      return 0
