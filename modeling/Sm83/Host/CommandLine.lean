import Sm83.Host.Directory
import Sm83.Host.Report

/-!
# The command line

The program reads its options, reads the image, runs it and prints the registers, the counts and
why the run ended. A lock-up, and any error before the run, is reported on the error stream with
exit code one.

## Main definitions

* `RunError`: why a run that was asked for cannot be made
* `runFile`: the report of a run whose image is read from a file
* `CommandLine.run`: what the program prints, and its exit code
-/

namespace Sm83

/-- Why a run that was asked for cannot be made. -/
inductive RunError where
  /-- The image cannot be read. -/
  | unreadable (path : String) (cause : ReadError)
  | image (e : ImageError)
  deriving DecidableEq

namespace RunError

/-- The message of an error. -/
def message : RunError → String
  | unreadable path _ => "failed to read image '" ++ path ++ "'"
  | image e => e.message

/-- The messages of what lies behind an error, outermost first. -/
def causes : RunError → List String
  | unreadable _ cause => [cause.message]
  | image _ => []

end RunError

/-- The report of a run whose image has been read, or could not be. -/
def runFile (o : Options) (content : Except ReadError (List UInt8)) (verbosity : Verbosity) :
    Except RunError Report :=
  match content with
  | .ok image => (runImage image o verbosity).mapError .image
  | .error cause => .error (.unreadable o.image cause)

namespace CommandLine

/-- What the program prints, and its exit code. -/
structure Output where
  code : Nat
  stdout : String := ""
  stderr : String := ""
  deriving DecidableEq

/-- The text of an error: its message and, below a heading, the message of each cause. -/
def errorText (message : String) (causes : List String) : String :=
  let heading := if causes.isEmpty then "" else "\nCaused by:\n"
  "Error: " ++ message ++ "\n" ++ heading ++
    String.join (causes.map fun cause => "    " ++ cause ++ "\n")

/-- The output for an error. -/
def failure (message : String) (causes : List String) : Output :=
  { code := 1, stderr := errorText message causes }

/-- The line that shows the registers. -/
def registersLine (r : Registers) : String :=
  "AF=" ++ hexWord r.af ++ " BC=" ++ hexWord r.bc ++ " DE=" ++ hexWord r.de ++ " HL=" ++
    hexWord r.hl ++ " SP=" ++ hexWord r.sp ++ " PC=" ++ hexWord r.pc ++ "\n"

/-- The line that shows the counts. -/
def countsLine (r : Report) : String :=
  toString r.ticks ++ " ticks, " ++ toString r.instructions ++ " instructions\n"

/-- The output for a run. -/
def success (r : Report) : Output :=
  let lines := registersLine r.core.regs ++ countsLine r
  match r.ending with
  | .tickLimit => { code := 0, stdout := lines ++ "tick limit reached\n" }
  | .idle mode => { code := 0, stdout := lines ++ "core idle: " ++ mode.text ++ "\n" }
  | .lockedUp fault => { code := 1, stdout := lines, stderr := fault.message ++ "\n" }

/-- The output of the program for its arguments, where files are read by `read`. -/
def run {m : Type → Type} [Monad m] (read : String → m (Except ReadError (List UInt8)))
    (args : List String) : m Output :=
  match Options.parse args with
  | .error e => pure (failure e.message e.causes)
  | .ok options => do
    match runFile options (← read options.image) none with
    | .error e => pure (failure e.message e.causes)
    | .ok report => pure (success report)

end CommandLine

end Sm83
