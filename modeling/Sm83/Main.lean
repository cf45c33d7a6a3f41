import Sm83.Host.CommandLine

/-!
# The program

Runs the image named on the command line. This is the only module that touches files and streams.

## Main definitions

* `readFile`: the content of a file, or why there is none
* `main`: the program
-/

namespace Sm83

/-- The number of a failure. The system negates it within 32 bits. -/
def failureNumber (code : UInt32) : Nat := (if code < 0x80000000 then code else 0 - code).toNat

/-- The failure that the system reports for a file. -/
def readError : IO.Error → ReadError
  | .noFileOrDirectory _ code details | .inappropriateType _ code details
  | .permissionDenied _ code details | .invalidArgument _ code details
  | .resourceExhausted _ code details | .noSuchThing _ code details
  | .otherError code details | .hardwareFault code details =>
    .ofCode (failureNumber code) details.capitalize
  | e => .ofCode 0 (toString e)

/-- Reads a file. -/
def readFile (path : String) : IO (Except ReadError (List UInt8)) := do
  try
    let content ← IO.FS.readBinFile path
    pure (.ok content.data.toList)
  catch e => pure (.error (readError e))

end Sm83

/-- The program: prints what the command line asks for and returns the exit code. -/
def main (args : List String) : IO UInt32 := do
  let output ← Sm83.CommandLine.run Sm83.readFile args
  IO.print output.stdout
  IO.eprint output.stderr
  pure (UInt32.ofNat output.code)
