import Sm83.Machine

/-!
# Runs

A run steps a machine tick by tick, up to a limit, until a step finds the core waiting or fails.

## Main definitions

* `StepResult.continues`: whether a run goes on after a step
* `Run`: the machine during a run, with what has been counted and logged
* `Run.forTicks`: a run of at most so many ticks

## Main results

* `Run.forTicks_add`: a run may be interrupted and taken up again
-/

namespace Sm83

/-- Whether a run goes on after a step: the core is busy or has executed an instruction. -/
def StepResult.continues : StepResult → Bool
  | .ok (.busy _) | .ok (.executed _) => true
  | .ok (.idle _) | .error _ => false

/-- Whether a step executed an instruction. -/
def StepResult.isExecuted : StepResult → Bool
  | .ok (.executed _) => true
  | _ => false

/-- A machine during a run. -/
structure Run (σ : Type) where
  machine : Machine σ
  /-- The steps made so far. -/
  ticks : Nat := 0
  /-- The instructions executed so far. -/
  executed : Nat := 0
  /-- The report of the step that ended the run, if one has. -/
  ending : Option StepResult := none
  /-- The lines logged so far, as far as they are kept. -/
  log : Array Entry := #[]

namespace Run

variable {σ : Type}

/-- The log with the lines that are kept. -/
def keep (verbosity : Verbosity) (log : Array Entry) (lines : List Entry) : Array Entry :=
  lines.foldl (fun log e => if verbosity.keeps e then log.push e else log) log

/-- The run after one more step. -/
def tick (bus : Bus σ) (verbosity : Verbosity) : Run σ → Run σ
  | ⟨machine, ticks, executed, _, log⟩ =>
    let ⟨result, machine, lines⟩ := machine.step bus
    { machine
      ticks := ticks + 1
      executed := if result.isExecuted then executed + 1 else executed
      ending := if result.continues then none else some result
      log := keep verbosity log lines }

/-- The run after at most so many more steps. -/
def forTicks (bus : Bus σ) (verbosity : Verbosity) : Nat → Run σ → Run σ
  | 0, run => run
  | n + 1, run =>
    -- A run that has ended makes no more steps, so its last report stays.
    if run.ending.isSome then run else (run.tick bus verbosity).forTicks bus verbosity n

/-- A run that has ended stays as it is. -/
theorem forTicks_of_ended (bus : Bus σ) (verbosity : Verbosity) (n : Nat) {run : Run σ}
    (h : run.ending.isSome = true) : run.forTicks bus verbosity n = run := by
  cases n with
  | zero => rfl
  | succ n => rw [forTicks, if_pos h]

/-- A run may be interrupted and taken up again. -/
theorem forTicks_add (bus : Bus σ) (verbosity : Verbosity) (m n : Nat) (run : Run σ) :
    run.forTicks bus verbosity (m + n) =
      (run.forTicks bus verbosity m).forTicks bus verbosity n := by
  induction m generalizing run with
  | zero => rw [Nat.zero_add]; rfl
  | succ m ih =>
    by_cases h : run.ending.isSome = true
    · rw [forTicks_of_ended _ _ _ h, forTicks_of_ended _ _ _ h, forTicks_of_ended _ _ _ h]
    · rw [Nat.succ_add, forTicks, forTicks, if_neg h, if_neg h, ih]

end Run

end Sm83
