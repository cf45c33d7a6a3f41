import Sm83.Host.Basic
import Sm83.Host.Options
import Sm83.Run

/-!
# Running an image

An image is copied to memory that is zero elsewhere, and the core runs from its entry point until
it waits, locks up or has used its ticks.

## Main definitions

* `Report`, `Ending`: how a run ended
* `Options.start`: the machine before the first tick
* `runImage`: the report of running an image
* `ImageError`: why an image cannot be run

## Main results

* `runImage_eq_error_iff`: an image is refused exactly if it does not fit
-/

namespace Sm83

/-- Why a run ended. -/
inductive Ending where
  | tickLimit
  /-- The core waits, and there is nothing to wake it. -/
  | idle (mode : Mode)
  | lockedUp (fault : Fault)
  deriving DecidableEq

/-- How a run ended. -/
structure Report where
  ending : Ending
  ticks : Nat
  instructions : Nat
  core : Core
  /-- The lines that were logged, as far as they are kept. -/
  log : List Entry

/-- Why an image cannot be run. -/
inductive ImageError where
  /-- The image reaches beyond the last address. -/
  | doesNotFit (size : Nat) (load : UInt16)
  deriving DecidableEq

/-- The message of an error. -/
def ImageError.message : ImageError → String
  | doesNotFit size load =>
    "image of " ++ toString size ++ " bytes does not fit at 0x" ++ hexWord load

/-- Why a run ended, given the step that ended it; if there is none, it was at its limit. -/
def Ending.ofResult : Option StepResult → Ending
  | some (.ok (.idle mode)) => idle mode
  | some (.error fault) => lockedUp fault
  | _ => tickLimit

namespace Options

/-- The machine before the first tick. -/
def start (o : Options) (image : List UInt8) : Machine Host where
  core := .powerOn o.config
  env := { memory := Memory.zero.load o.load image }

/-- The line logged before the first tick. -/
def startRemark (o : Options) (image : List UInt8) : Remark where
  level := .info
  text :=
    "loaded " ++ toString image.length ++ " bytes at 0x" ++ hexWord o.load ++ ", entry 0x" ++
      hexWord o.config.registers.pc

end Options

/-- The report of a run. -/
def Run.report (run : Run Host) : Report where
  ending := .ofResult run.ending
  ticks := run.ticks
  instructions := run.machine.env.instructions
  core := run.machine.core
  log := run.log.toList

/-- Runs an image, and keeps the log lines of the given verbosity. -/
def runImage (image : List UInt8) (o : Options) (verbosity : Verbosity) :
    Except ImageError Report :=
  if o.load.toNat + image.length ≤ 65536 then
    -- Memory is zero outside the image, and no byte of the image wraps around.
    let log := Run.keep verbosity #[] [.host (o.startRemark image)]
    let start : Run Host := { machine := o.start image, log }
    .ok (start.forTicks Host.bus verbosity o.ticks).report
  else
    .error (.doesNotFit image.length o.load)

/-- An image is refused exactly if it does not fit. -/
theorem runImage_eq_error_iff (image : List UInt8) (o : Options) (verbosity : Verbosity)
    (e : ImageError) :
    runImage image o verbosity = .error e ↔
      65536 < o.load.toNat + image.length ∧ e = .doesNotFit image.length o.load := by
  unfold runImage
  split
  · simp; omega
  · simp only [Except.error.injEq]
    constructor
    · rintro rfl
      exact ⟨by omega, rfl⟩
    · exact fun h => h.2.symm

end Sm83
