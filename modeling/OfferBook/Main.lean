import OfferBook.Command.Run
import OfferBook.Node.Recording

/-!
# The command line

The program reads a recorded node from its standard input, runs the command that its arguments
name on it, through the usual client and without being interrupted, and writes what the command
writes. Notices of some weight and the fault that ended the run, if one did, go to the standard
error.
-/

namespace OfferBook.Command

/-- Whether a notice is shown to the person at the terminal. -/
def isShown (n : Notice) : Bool :=
  match n.level with
  | .trace | .debug => false
  | .info | .warn | .error => true

/-- What the process reports to its caller: nothing went wrong, a run failed, or the command line
was not understood. -/
inductive Exit where
  | done | failed | misused
  deriving DecidableEq

/-- The number of an exit. -/
def Exit.code : Exit → UInt32
  | done => 0
  | failed => 1
  | misused => 2

/-- How the program ends when its command line says nothing that can be run. -/
def UsageFault.exit : UsageFault → Exit
  | displayHelp | displayVersion => .done
  | _ => .misused

/-- The lines of the standard input. -/
partial def readLines (input : IO.FS.Stream) (lines : List String) : IO (List String) := do
  let line ← input.getLine
  if line.isEmpty then return lines.reverse
  readLines input (line.trimAsciiEnd.toString :: lines)

/-- Writes what a run came to. -/
def report (outcome : Traced Outcome) : IO Exit := do
  for n in outcome.notices do
    if isShown n then IO.eprintln n.text
  IO.print (Piece.writtenAll outcome.value.written)
  match outcome.value.fault with
  | none => return .done
  | some fault =>
    IO.eprintln s!"Error: {fault.message}"
    return .failed

/-- Runs the program on its arguments. -/
def runProgram (arguments : List String) : IO Exit := do
  match Options.ofArguments arguments with
  | .error fault =>
    IO.eprintln fault.name
    return fault.exit
  | .ok options =>
    match Recording.read (← readLines (← IO.getStdin) []) with
    | .error line =>
      IO.eprintln s!"Error: {line.message}"
      return .failed
    | .ok node => report (run options false (.undisturbed node))

end OfferBook.Command

/-- The program. -/
def main (arguments : List String) : IO UInt32 := do
  let exit ← OfferBook.Command.runProgram arguments
  return exit.code
