import Mustache.CommandLine.Run

/-! # The program

The command line over the real files. The run itself is a function of what has been read; whenever it
asks for a path that has not been looked at, the path is read and the run starts again.
-/
namespace Mustache.Main

def usage : String :=
  "usage: mustc [-h] [-V] [-v] render|dump template [--config FILE]\n" ++
    "             [--data FILE] [--partials DIR]\n"

/-- What is known of the files, newest first. -/
abbrev Known := List (Path × Option (List UInt8))

def filesOf (known : Known) : Files where
  find path :=
    match known.find? (·.1 = path) with
    | some (_, some bytes) => .content bytes
    | some (_, none) => .absent
    | none => .unread

def readBytes (path : Path) : IO (Option (List UInt8)) := do
  try
    return some (← IO.FS.readBinFile path.toString).toList
  catch _ => return none

/-- Runs until every file that the run asks for has been read. -/
partial def runWith (known : Known) (arguments : List String) : IO UInt32 := do
  match CommandLine.run (filesOf known) arguments with
  | .ended .help =>
    IO.print usage
    return 0
  | .ended .version =>
    IO.print CommandLine.versionLine
    return 0
  | .ended .usageError =>
    IO.eprint usage
    return 2
  | .finished code stdout stderr =>
    IO.eprint stderr
    IO.print stdout
    return UInt32.ofNat code
  | .failed e =>
    IO.eprintln e.message
    return 1
  | .needs path => runWith ((path, ← readBytes path) :: known) arguments

end Mustache.Main

def main (arguments : List String) : IO UInt32 :=
  Mustache.Main.runWith [] arguments
