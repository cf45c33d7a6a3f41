import Sm83.Core
import Sm83.Numeral

/-!
# Options

The command line names one image and sets where it is loaded, where the program starts, how many
ticks it may run and how the core powers on. Flags may stand in any order; the last of several
equal ones counts. A flag with a value takes the next word, whatever that word looks like.

## Main definitions

* `Options`: the settings of a run
* `Options.parse`: the settings of a command line
* `UsageError`: what is wrong with a command line
* `Options.config`: how the core powers on
-/

namespace Sm83

/-- How the program is called. -/
def usage : String :=
  "usage: retroboy <image> [--load <addr>] [--pc <addr>] [--ticks <n>] [--zeroed]"

/-- The settings of a run. -/
structure Options where
  /-- The path of the image. -/
  image : String
  /-- The address that the image is copied to. -/
  load : UInt16 := 0
  /-- The entry point, where it is not that of the boot profile. -/
  pc : Option UInt16 := none
  /-- The most ticks that the program may run. -/
  ticks : Nat := 1000000
  boot : BootProfile := .dmg
  deriving DecidableEq

/-- What is wrong with a command line. -/
inductive UsageError where
  /-- A flag stands at the end without its value. -/
  | missingValue (flag : String)
  | badAddress (text : String) (cause : NumeralError)
  | badTicks (text : String) (cause : NumeralError)
  | unknownOption (word : String)
  | secondImage
  | noImage
  deriving DecidableEq

namespace UsageError

/-- The message of an error. -/
def message : UsageError → String
  | missingValue flag => flag ++ " expects a value"
  | badAddress text _ => "invalid address '" ++ text ++ "'"
  | badTicks text _ => "invalid tick count '" ++ text ++ "'"
  | unknownOption word => "unknown option '" ++ word ++ "'\n" ++ usage
  | secondImage => "more than one image path given\n" ++ usage
  | noImage => "no image path given\n" ++ usage

/-- The messages of what lies behind an error, outermost first. -/
def causes : UsageError → List String
  | badAddress _ cause | badTicks _ cause => [cause.message]
  | _ => []

end UsageError

namespace Options

/-- The settings read so far: the image may still be missing. -/
structure Draft where
  image : Option String := none
  load : UInt16 := 0
  pc : Option UInt16 := none
  ticks : Nat := 1000000
  boot : BootProfile := .dmg
  deriving DecidableEq

/-- Whether a word is meant as a flag. -/
def isFlag (word : String) : Bool :=
  match word.toList with
  | '-' :: '-' :: _ => true
  | _ => false

/-- Reads the value of an address flag. -/
def readAddress (text : String) : Except UsageError UInt16 :=
  (parseAddress text).mapError (.badAddress text)

/-- Reads the value of the tick flag. -/
def readTicks (text : String) : Except UsageError Nat :=
  (parseTicks text).mapError (.badTicks text)

/-- The draft after a flag with its value. -/
def Draft.readValue (d : Draft) (flag value : String) : Except UsageError Draft :=
  if flag = "--load" then (readAddress value).map fun load => { d with load }
  else if flag = "--pc" then (readAddress value).map fun pc => { d with pc := some pc }
  else (readTicks value).map fun ticks => { d with ticks }

/-- The draft after a word that takes no value. -/
def Draft.readWord (d : Draft) (word : String) : Except UsageError Draft :=
  if word = "--zeroed" then .ok { d with boot := .zeroed }
  else if isFlag word then .error (.unknownOption word)
  else if d.image.isSome then .error .secondImage
  else .ok { d with image := some word }

/-- Whether a word is a flag that takes a value. -/
def takesValue (word : String) : Bool := word ∈ ["--load", "--pc", "--ticks"]

/-- The draft after the words of a command line, read from left to right. -/
def Draft.read (d : Draft) : List String → Except UsageError Draft
  | [] => .ok d
  | word :: rest =>
    if takesValue word then
      match rest with
      | [] => .error (.missingValue word)
      -- The next word is the value even if it looks like a flag.
      | value :: rest => (d.readValue word value).bind fun d => d.read rest
    else (d.readWord word).bind fun d => d.read rest

/-- The settings of a command line. -/
def parse (words : List String) : Except UsageError Options :=
  (Draft.read {} words).bind fun d =>
    match d.image with
    | some image =>
      .ok { image, load := d.load, pc := d.pc, ticks := d.ticks, boot := d.boot }
    | none => .error .noImage

/-- How the core powers on. -/
def config (o : Options) : Config := { boot := o.boot, entry := o.pc }

end Options

end Sm83
