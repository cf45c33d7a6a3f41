import Mathlib.Data.ENat.Lattice
import Sm83.Host.Report
import Sm83.Proofs.Buses
import Sm83.Proofs.LockUp

/-!
# Running an image

The host steps the core until its limit is reached or a step finds it waiting or fails. So what the
host does is a prefix of the steps that the core would make by itself, on nothing but memory: the
limit says how long the prefix is at most, and the first step that does not go on says where it
ends otherwise. What the host reports is read off this prefix.

## Main definitions

* `Machine.replies`, `Machine.stepped`, `Machine.stepReport`: the sequence of steps of a machine
* `Machine.firstStop`: the first step after which a run does not go on
* `Machine.flat`: the core of the host's machine on nothing but memory
* `Report.Accounts`: what a report says of the sequence of steps
* `Options.run`: the run that the host makes

## Main results

* `Run.forTicks_cases`: the two ways in which a run comes out
* `Machine.flat_stepped`: the host's machine does what its core does on memory
* `Run.accounts_report`: what the host reports, for any limit
* `runImage_law`: what running an image comes to, and what a larger limit changes
-/

namespace Sm83

variable {σ : Type}

/-! ## The sequence of steps -/

namespace Machine

variable (bus : Bus σ)

/-- The replies to so many steps. -/
def replies (n : Nat) (m : Machine σ) : List (Reply σ) := (m.commands bus (.replicate n .step)).1

/-- The machine after so many steps. -/
def stepped (n : Nat) (m : Machine σ) : Machine σ := (m.commands bus (.replicate n .step)).2

/-- The report of the step that comes after so many. -/
def stepReport (n : Nat) (m : Machine σ) : StepResult := ((m.stepped bus n).step bus).result

/-- The index, counted from one, of the first step after which a run does not go on; infinity if
there is none. -/
noncomputable def firstStop (m : Machine σ) : ℕ∞ :=
  ⨅ (n : Nat) (_ : (m.stepReport bus n).continues = false), (n + 1 : ℕ∞)

variable {m : Machine σ}

theorem commands_replicate_succ (n : Nat) (m : Machine σ) :
    m.commands bus (.replicate (n + 1) .step) =
      (m.replies bus n ++ [(m.stepped bus n).command bus .step],
        ((m.stepped bus n).step bus).machine) := by
  rw [List.replicate_succ', commands_append]
  rfl

theorem replies_succ (n : Nat) (m : Machine σ) :
    m.replies bus (n + 1) = m.replies bus n ++ [(m.stepped bus n).command bus .step] :=
  congrArg Prod.fst (commands_replicate_succ bus n m)

theorem stepped_succ (n : Nat) (m : Machine σ) :
    m.stepped bus (n + 1) = ((m.stepped bus n).step bus).machine :=
  congrArg Prod.snd (commands_replicate_succ bus n m)

/-! ### The first stop -/

theorem firstStop_le {n : Nat} (h : (m.stepReport bus n).continues = false) :
    m.firstStop bus ≤ n + 1 := iInf₂_le n h

/-- So many steps come before the first stop exactly if a run goes on after each of them. -/
theorem lt_firstStop_iff {n : Nat} :
    (n : ℕ∞) < m.firstStop bus ↔ ∀ i < n, (m.stepReport bus i).continues = true := by
  constructor
  · intro h i hi
    by_contra hstop
    have hle := firstStop_le bus (Bool.eq_false_iff.2 hstop)
    have hin : (i + 1 : ℕ∞) ≤ n := by exact_mod_cast hi
    exact absurd (hle.trans hin) (not_le.2 h)
  · intro h
    refine (ENat.add_one_le_iff (ENat.natCast_ne_top n)).1 (le_iInf₂ fun i hi => ?_)
    have hni : n ≤ i := by
      by_contra hlt
      rw [h i (Nat.lt_of_not_le hlt)] at hi
      cases hi
    exact_mod_cast Nat.succ_le_succ hni

theorem firstStop_eq {n : Nat} (hn : (n : ℕ∞) < m.firstStop bus)
    (h : (m.stepReport bus n).continues = false) : m.firstStop bus = n + 1 :=
  le_antisymm (firstStop_le bus h) ((ENat.add_one_le_iff (ENat.natCast_ne_top n)).2 hn)

theorem succ_lt_firstStop {n : Nat} (hn : (n : ℕ∞) < m.firstStop bus)
    (h : (m.stepReport bus n).continues = true) : ((n + 1 : Nat) : ℕ∞) < m.firstStop bus := by
  refine (lt_firstStop_iff bus).2 fun i hi => ?_
  rcases Nat.lt_succ_iff_lt_or_eq.1 hi with hi | rfl
  · exact (lt_firstStop_iff bus).1 hn i hi
  · exact h

theorem lt_firstStop_of_eq {n : Nat} (h : m.firstStop bus = n + 1) :
    (n : ℕ∞) < m.firstStop bus := by
  rw [h]
  exact_mod_cast n.lt_succ_self

theorem not_continues_of_firstStop_eq {n : Nat} (h : m.firstStop bus = n + 1) :
    (m.stepReport bus n).continues = false := by
  by_contra hc
  have hlt := succ_lt_firstStop bus (lt_firstStop_of_eq bus h) (Bool.not_eq_false _ ▸ hc)
  rw [h] at hlt
  exact lt_irrefl _ hlt

/-! ### What a step finds -/

/-- Up to the first stop, the core is not locked up. -/
theorem isLocked_stepped (hm : m.core.mode.isLocked = false) {n : Nat}
    (hn : (n : ℕ∞) < m.firstStop bus) : (m.stepped bus n).core.mode.isLocked = false := by
  rw [lt_firstStop_iff] at hn
  induction n with
  | zero => exact hm
  | succ n ih =>
    rw [stepped_succ]
    refine isLocked_step bus (ih fun i hi => hn i (Nat.lt_succ_of_lt hi)) fun opcode addr h => ?_
    have hcontinues := hn n n.lt_succ_self
    rw [stepReport, h] at hcontinues
    cases hcontinues

/-- The replies that report a core waiting or failing are those after which a run does not go on. -/
theorem countP_replies (n : Nat) (m : Machine σ) :
    (m.replies bus n).countP Reply.isIdle + (m.replies bus n).countP Reply.isError =
      (List.range n).countP fun i => !(m.stepReport bus i).continues := by
  induction n with
  | zero => rfl
  | succ n ih =>
    have hlast : [(m.stepped bus n).command bus .step].countP Reply.isIdle +
        [(m.stepped bus n).command bus .step].countP Reply.isError =
          [n].countP fun i => !(m.stepReport bus i).continues := by
      rw [command_step]
      simp only [List.countP_singleton, stepReport]
      rcases ((m.stepped bus n).step bus).result with _ | (_ | _ | _) <;> rfl
    rw [replies_succ, List.range_succ, List.countP_append, List.countP_append, List.countP_append,
      ← ih, ← hlast]
    omega

end Machine

/-! ## Runs with a limit -/

/-- **The two ways in which a run comes out.** Either the limit comes before the first stop, and
all steps are made that it allows; or the first stop comes within the limit, and it is the last
step. -/
theorem Run.forTicks_cases (bus : Bus σ) (verbosity : Verbosity) {run : Run σ}
    (h : run.ending = none) (n : Nat) :
    let later := run.forTicks bus verbosity n
    (n < run.machine.firstStop bus ∧ later.ending = none ∧ later.ticks = run.ticks + n ∧
        later.machine = run.machine.stepped bus n) ∨
      ∃ i < n, run.machine.firstStop bus = i + 1 ∧
        later.ending = some (run.machine.stepReport bus i) ∧ later.ticks = run.ticks + (i + 1) ∧
        later.machine = run.machine.stepped bus (i + 1) := by
  induction n with
  | zero => exact .inl ⟨(Machine.lt_firstStop_iff bus).2 (by simp), h, rfl, rfl⟩
  | succ n ih =>
    intro later
    have hlater : later = (run.forTicks bus verbosity n).forTicks bus verbosity 1 :=
      run.forTicks_add bus verbosity n 1
    rcases ih with ⟨hn, hending, hticks, hmachine⟩ | ⟨i, hi, hstop, hending, hrest⟩
    · -- The run has not ended, so it makes one more step.
      have htick : later = (run.forTicks bus verbosity n).tick bus verbosity := by
        rw [hlater, forTicks, hending]
        rfl
      have hstep : later.machine = run.machine.stepped bus (n + 1) := by
        rw [htick, Machine.stepped_succ, ← hmachine]
        rfl
      have hcount : later.ticks = run.ticks + (n + 1) := by
        rw [htick, ← Nat.add_assoc, ← hticks]
        rfl
      have hlast : later.ending = if (run.machine.stepReport bus n).continues then none else
          some (run.machine.stepReport bus n) := by
        rw [htick, Machine.stepReport, ← hmachine]
        rfl
      cases hc : (run.machine.stepReport bus n).continues with
      | true =>
        rw [hc] at hlast
        exact .inl ⟨Machine.succ_lt_firstStop bus hn hc, hlast, hcount, hstep⟩
      | false =>
        rw [hc] at hlast
        exact .inr ⟨n, n.lt_succ_self, Machine.firstStop_eq bus hn hc, hlast, hcount, hstep⟩
    · -- The run has ended, so it stays as it is.
      have hsame : later = run.forTicks bus verbosity n := by
        rw [hlater, forTicks_of_ended _ _ _ (by rw [hending]; rfl)]
      rw [hsame]
      exact .inr ⟨i, Nat.lt_succ_of_lt hi, hstop, hending, hrest⟩

/-- A run makes as many steps as its limit and the first stop allow. -/
theorem Run.forTicks_steps (bus : Bus σ) (verbosity : Verbosity) {run : Run σ}
    (h : run.ending = none) (n : Nat) :
    ∃ t : Nat, (t : ℕ∞) = min (n : ℕ∞) (run.machine.firstStop bus) ∧
      (run.forTicks bus verbosity n).ticks = run.ticks + t ∧
      (run.forTicks bus verbosity n).machine = run.machine.stepped bus t := by
  rcases forTicks_cases bus verbosity h n with
    ⟨hn, -, hticks, hmachine⟩ | ⟨i, hi, hstop, -, hticks, hmachine⟩
  · exact ⟨n, (min_eq_left hn.le).symm, hticks, hmachine⟩
  · have hle : run.machine.firstStop bus ≤ n := by
      rw [hstop]
      exact_mod_cast hi
    refine ⟨i + 1, ?_, hticks, hmachine⟩
    rw [min_eq_right hle, hstop]
    rfl

/-! ## The host and its memory -/

namespace Machine

/-- The core of the host's machine, on nothing but the memory. -/
def flat (m : Machine Host) : Machine Memory := ⟨m.core, m.env.memory⟩

theorem flat_commands (cs : List Command) (m : Machine Host) :
    (m.commands Host.bus cs).2.flat = (m.flat.commands Memory.bus cs).2 ∧
      (m.commands Host.bus cs).1.map Reply.result =
        (m.flat.commands Memory.bus cs).1.map Reply.result := by
  have h : Machine.Rel (· = ·) (fun memory host => host.memory = memory) m.flat m :=
    ⟨.refl m.core, rfl⟩
  obtain ⟨hreplies, hcore, hmemory⟩ := h.commands_eq Host.sim cs
  refine ⟨?_, map_eq_map_of_forall₂ (hreplies.flip.imp fun _ _ hr => hr.1.symm)⟩
  rw [flat, ← hcore, hmemory]

/-- **The host's machine does what its core does on memory.** -/
theorem flat_stepped (n : Nat) (m : Machine Host) :
    (m.stepped Host.bus n).flat = m.flat.stepped Memory.bus n := (flat_commands _ m).1

theorem stepReport_flat (n : Nat) (m : Machine Host) :
    m.stepReport Host.bus n = m.flat.stepReport Memory.bus n := by
  have h := (flat_commands [.step] (m.stepped Host.bus n)).2
  rw [flat_stepped] at h
  exact Option.some_inj.1 (List.head_eq_of_cons_eq h)

theorem firstStop_flat (m : Machine Host) :
    m.firstStop Host.bus = m.flat.firstStop Memory.bus := by
  simp only [firstStop, stepReport_flat]

end Machine

/-! ## What the host reports -/

/-- What a report says of the steps that a machine would make by itself. -/
structure Report.Accounts (m : Machine Memory) (limit : Nat) (report : Report) : Prop where
  ticks : (report.ticks : ℕ∞) = min (limit : ℕ∞) (m.firstStop Memory.bus)
  core : report.core = (m.stepped Memory.bus report.ticks).core
  tickLimit : report.ending = .tickLimit ↔ (limit : ℕ∞) < m.firstStop Memory.bus
  /-- No run ends by finding the core locked up already. -/
  ending : report.ending = .tickLimit ∨ report.ending = .idle .halted ∨
    report.ending = .idle .stopped ∨
    ∃ opcode addr, report.ending = .lockedUp (.invalidOpcode opcode addr)
  /-- The last step says why the run has ended. -/
  last (n : Nat) : report.ticks = n + 1 →
    report.ending = .ofResult (some (m.stepReport Memory.bus n))
  instructions :
    report.instructions = (m.replies Memory.bus report.ticks).countP Reply.isExecuted
  /-- The ticks made and those still in flight are those of the executed instructions, and one more
  if the last step has ended the run. -/
  balance : report.ticks + report.core.budget =
    (((m.replies Memory.bus report.ticks).filter Reply.isExecuted).map
        fun r => 1 + r.machine.core.budget).sum +
      if report.ending = .tickLimit then 0 else 1

theorem Ending.ofResult_eq_tickLimit {r : StepResult} :
    ofResult (some r) = tickLimit ↔ r.continues = true := by
  rcases r with _ | (_ | _ | _) <;> simp [ofResult, StepResult.continues]

/-- **What ends a run** of a core that is not locked up: HALT, STOP or an unassigned opcode. -/
theorem Ending.ofResult_of_not_continues {bus : Bus σ} {m : Machine σ}
    (hm : m.core.mode.isLocked = false) (h : (m.step bus).result.continues = false) :
    ofResult (some (m.step bus).result) = idle .halted ∨
      ofResult (some (m.step bus).result) = idle .stopped ∨
      ∃ opcode addr, ofResult (some (m.step bus).result) =
        lockedUp (.invalidOpcode opcode addr) := by
  have ht := m.tick_step bus
  generalize m.step bus = o at h ht ⊢
  cases ht with
  | idle hw =>
    simp only [ofResult]
    cases hmode : m.core.mode with
    | halted => exact .inl rfl
    | stopped => exact .inr (.inl rfl)
    | running | locked =>
      rw [hmode] at hw
      cases hw
  | lockedUp => exact .inr (.inr ⟨_, _, rfl⟩)
  | locked hl =>
    rw [hl] at hm
    cases hm
  | busy | executed => cases h

namespace Machine

/-- The ticks of the steps before the limit and up to the first stop. -/
theorem ticks_stepped {m : Machine σ} (bus : Bus σ) (h : m.core.budget = 0) (n : Nat) :
    n + (m.stepped bus n).core.budget =
      (((m.replies bus n).filter Reply.isExecuted).map fun r => 1 + r.machine.core.budget).sum +
        (List.range n).countP fun i => !(m.stepReport bus i).continues := by
  have hsteps : ∀ c ∈ List.replicate n Command.step, c = .step ∨ c = .wake := fun c hc =>
    .inl (List.eq_of_mem_replicate hc)
  have hbudget := budget_commands bus hsteps m
  rw [List.count_replicate_self, h, Nat.zero_add, Reply.sum_ticks, Nat.add_assoc] at hbudget
  rw [← countP_replies]
  exact hbudget

theorem countP_range_of_lt {m : Machine σ} (bus : Bus σ) {n : Nat}
    (h : (n : ℕ∞) < m.firstStop bus) :
    (List.range n).countP (fun i => !(m.stepReport bus i).continues) = 0 := by
  rw [List.countP_eq_zero]
  intro i hi
  rw [(lt_firstStop_iff bus).1 h i (List.mem_range.1 hi)]
  decide

theorem countP_range_of_eq {m : Machine σ} (bus : Bus σ) {n : Nat}
    (h : m.firstStop bus = n + 1) :
    (List.range (n + 1)).countP (fun i => !(m.stepReport bus i).continues) = 1 := by
  rw [List.range_succ, List.countP_append, countP_range_of_lt bus (lt_firstStop_of_eq bus h),
    List.countP_singleton, not_continues_of_firstStop_eq bus h]
  rfl

end Machine

/-- What the host has done is what its core does on memory, and it has counted the instructions. -/
theorem Run.flat_forTicks (verbosity : Verbosity) {run : Run Host} (h : run.ending = none)
    (hticks : run.ticks = 0) (n : Nat) :
    let later := run.forTicks Host.bus verbosity n
    let m := run.machine.flat
    (later.ticks : ℕ∞) = min (n : ℕ∞) (m.firstStop Memory.bus) ∧
      later.machine.flat = m.stepped Memory.bus later.ticks ∧
      later.machine.env.instructions = run.machine.env.instructions +
        (m.replies Memory.bus later.ticks).countP Reply.isExecuted := by
  intro later m
  obtain ⟨t, hmin, ht, hmachine⟩ := forTicks_steps Host.bus verbosity h n
  have hlater : later.ticks = t := by rw [ht, hticks, Nat.zero_add]
  rw [Machine.firstStop_flat] at hmin
  rw [hlater, hmachine, Machine.flat_stepped]
  exact ⟨hmin, rfl, (Machine.host_law run.machine.core run.machine.env (.replicate t .step)).1⟩

/-- **The account of a run** that starts with a host that has not counted anything. -/
theorem Run.accounts_report (verbosity : Verbosity) {run : Run Host} (h : run.ending = none)
    (hticks : run.ticks = 0) (hbudget : run.machine.core.budget = 0)
    (hmode : run.machine.core.mode.isLocked = false)
    (hinstructions : run.machine.env.instructions = 0) (n : Nat) :
    (run.forTicks Host.bus verbosity n).report.Accounts run.machine.flat n := by
  obtain ⟨hmin, hflat, hcount⟩ := flat_forTicks verbosity h hticks n
  have hcases := forTicks_cases Host.bus verbosity h n
  simp only [Machine.firstStop_flat, Machine.stepReport_flat, hticks, Nat.zero_add] at hcases
  rw [hinstructions, Nat.zero_add] at hcount
  set later := run.forTicks Host.bus verbosity n
  set m := run.machine.flat
  have hcore : later.machine.core = (m.stepped Memory.bus later.ticks).core :=
    congrArg Machine.core hflat
  have hbalance := Machine.ticks_stepped (m := m) Memory.bus hbudget later.ticks
  rw [← hcore] at hbalance
  rcases hcases with ⟨hn, hending, hlast, -⟩ | ⟨i, hi, hstop, hending, hlast, -⟩
  · -- The limit comes first: a run goes on after every step, also after the last.
    have hreport : later.report.ending = .tickLimit := by
      rw [Run.report, hending]
      rfl
    exact
      { ticks := hmin
        core := hcore
        tickLimit := iff_of_true hreport hn
        ending := .inl hreport
        last := by
          intro j hj
          have hjn : j < n := Nat.lt_of_succ_le (hj.symm.trans hlast).le
          rw [hreport, Ending.ofResult_eq_tickLimit.2 ((Machine.lt_firstStop_iff _).1 hn j hjn)]
        instructions := hcount
        balance := by
          rw [hlast, Machine.countP_range_of_lt Memory.bus hn, ← hlast] at hbalance
          rw [if_pos hreport]
          exact hbalance }
  · -- The stop comes first, or together with the limit: it is the last step.
    have hreport : later.report.ending = .ofResult (some (m.stepReport Memory.bus i)) := by
      rw [Run.report, hending]
    have hstopped := Machine.not_continues_of_firstStop_eq Memory.bus hstop
    have hended : later.report.ending ≠ .tickLimit := by
      rw [hreport, Ne, Ending.ofResult_eq_tickLimit, hstopped]
      decide
    have hle : m.firstStop Memory.bus ≤ n := by
      rw [hstop]
      exact_mod_cast hi
    exact
      { ticks := hmin
        core := hcore
        tickLimit := iff_of_false hended (not_lt.2 hle)
        ending := by
          have hunlocked :=
            Machine.isLocked_stepped Memory.bus hmode (Machine.lt_firstStop_of_eq _ hstop)
          rw [hreport]
          exact .inr (Ending.ofResult_of_not_continues hunlocked hstopped)
        last := by
          intro j hj
          obtain rfl : i = j := Nat.succ.inj (hlast.symm.trans hj)
          exact hreport
        instructions := hcount
        balance := by
          rw [hlast, Machine.countP_range_of_eq Memory.bus hstop, ← hlast] at hbalance
          rw [if_neg hended]
          exact hbalance }

/-- Only a run that may go on reports its limit. -/
theorem Run.ending_report_forTicks (verbosity : Verbosity) {run : Run Host}
    (h : run.ending = none) (n : Nat) :
    let later := run.forTicks Host.bus verbosity n
    later.report.ending = .tickLimit ↔ later.ending = none := by
  intro later
  rcases forTicks_cases Host.bus verbosity h n with ⟨-, hending, -⟩ | ⟨i, -, hstop, hending, -⟩
  · exact iff_of_true (by rw [Run.report, hending]; rfl) hending
  · refine iff_of_false ?_ (by rw [hending]; nofun)
    rw [Run.report, hending, Ending.ofResult_eq_tickLimit,
      Machine.not_continues_of_firstStop_eq Host.bus hstop]
    decide

/-! ## The law of runs -/

namespace Options

/-- The host before the first tick, with the line that it logs first. -/
def ready (o : Options) (image : List UInt8) (verbosity : Verbosity) : Run Host where
  machine := o.start image
  log := Run.keep verbosity #[] [.host (o.startRemark image)]

/-- The run that the host makes. -/
def run (o : Options) (image : List UInt8) (verbosity : Verbosity) : Run Host :=
  (o.ready image verbosity).forTicks Host.bus verbosity o.ticks

end Options

theorem runImage_eq_ok {image : List UInt8} {o : Options}
    (h : o.load.toNat + image.length ≤ 65536) (verbosity : Verbosity) :
    runImage image o verbosity = .ok (o.run image verbosity).report := if_pos h

/-- **The law of running an image.** The image fits, so there is a report, and it gives the account
of as many of the core's own steps on the loaded memory as the limit allows: up to the first that
finds the core waiting or fails. The host's core and memory are those after these steps. A larger
limit changes nothing for a run that has ended before its limit; any other run is taken up where it
was left, by the steps that its core makes on its memory. -/
theorem runImage_law (image : List UInt8) (o : Options) (verbosity : Verbosity)
    (hfit : o.load.toNat + image.length ≤ 65536) :
    let m : Machine Memory := ⟨.powerOn o.config, Memory.zero.load o.load image⟩
    let run := o.run image verbosity
    runImage image o verbosity = .ok run.report ∧
      run.report.Accounts m o.ticks ∧
      run.machine.flat = m.stepped Memory.bus run.report.ticks ∧
      ∀ n, o.ticks ≤ n →
        let later := ({ o with ticks := n } : Options).run image verbosity
        runImage image { o with ticks := n } verbosity = .ok later.report ∧
          (run.report.ending ≠ .tickLimit → later.report = run.report) ∧
          (run.report.ending = .tickLimit →
            later = run.forTicks Host.bus verbosity (n - o.ticks) ∧
              ∃ t : Nat,
                (t : ℕ∞) = min ((n - o.ticks : Nat) : ℕ∞)
                  (run.machine.flat.firstStop Memory.bus) ∧
                later.report.ticks = run.report.ticks + t ∧
                later.machine.flat = run.machine.flat.stepped Memory.bus t) := by
  intro m run
  let ready := o.ready image verbosity
  have hready : ready.ending = none := rfl
  have haccounts : run.report.Accounts m o.ticks :=
    Run.accounts_report verbosity hready rfl rfl rfl rfl o.ticks
  obtain ⟨-, hflat, -⟩ := Run.flat_forTicks verbosity hready rfl o.ticks
  refine ⟨runImage_eq_ok hfit verbosity, haccounts, hflat, ?_⟩
  intro n hn later
  have hlater : later = run.forTicks Host.bus verbosity (n - o.ticks) := by
    have hsplit := ready.forTicks_add Host.bus verbosity o.ticks (n - o.ticks)
    rw [Nat.add_sub_cancel' hn] at hsplit
    exact hsplit
  have hlimit : run.report.ending = .tickLimit ↔ run.ending = none :=
    Run.ending_report_forTicks verbosity hready o.ticks
  refine ⟨runImage_eq_ok (o := { o with ticks := n }) hfit verbosity, ?_, ?_⟩
  · intro hended
    rw [hlater, Run.forTicks_of_ended _ _ _ (Option.isSome_iff_ne_none.2 (mt hlimit.2 hended))]
  · intro hended
    refine ⟨hlater, ?_⟩
    obtain ⟨t, hmin, ht, hmachine⟩ :=
      Run.forTicks_steps Host.bus verbosity (hlimit.1 hended) (n - o.ticks)
    rw [Machine.firstStop_flat] at hmin
    refine ⟨t, hmin, ?_, ?_⟩
    · rw [hlater]
      exact ht
    · rw [hlater, hmachine, Machine.flat_stepped]

/-- Two instructions, HALT being the second. A limit of ten ticks comes one before the tick that
finds the core waiting. -/
theorem runImage_law_halt :
    let image : List UInt8 := [0x00, 0x76]
    let limited (ticks : Nat) : Options := { image := "halt", boot := .zeroed, ticks }
    let m : Machine Memory := ⟨.powerOn ⟨.zeroed, none⟩, Memory.zero.load 0 image⟩
    let run (ticks : Nat) : Run Host := (limited ticks).run image none
    let report (ticks : Nat) : Report := (run ticks).report
    (∀ ticks, runImage image (limited ticks) none = .ok (report ticks)) ∧
      m.firstStop Memory.bus = 11 ∧
      (report 10).ending = .tickLimit ∧ (report 10).ticks = 10 ∧
      (report 11).ending = .idle .halted ∧ (report 11).instructions = 2 ∧
      report 20 = report 11 ∧ run 20 = (run 10).forTicks Host.bus none 10 := by
  intro image limited m run report
  have hfit (ticks : Nat) : (limited ticks).load.toNat + image.length ≤ 65536 :=
    show 2 ≤ 65536 by decide
  obtain ⟨hlimit, hticks, hidle, hinstructions⟩ :
      (report 10).ending = .tickLimit ∧ (report 10).ticks = 10 ∧
        (report 11).ending = .idle .halted ∧ (report 11).instructions = 2 := by
    decide +kernel
  have hended : (report 11).ending ≠ .tickLimit := by rw [hidle]; nofun
  obtain ⟨-, hten, -, hlater⟩ := runImage_law image (limited 10) none (hfit 10)
  obtain ⟨-, heleven, -, hsame⟩ := runImage_law image (limited 11) none (hfit 11)
  have hfirst : m.firstStop Memory.bus = 11 :=
    le_antisymm (not_lt.1 (mt heleven.tickLimit.2 hended))
      ((ENat.add_one_le_iff (ENat.natCast_ne_top 10)).2 (hten.tickLimit.1 hlimit))
  obtain ⟨-, hfixed, -⟩ := hsame 20 (by decide)
  obtain ⟨-, -, hgoes⟩ := hlater 20 (by decide)
  exact ⟨fun ticks => (runImage_law image (limited ticks) none (hfit ticks)).1, hfirst, hlimit,
    hticks, hidle, hinstructions, hfixed hended, (hgoes hlimit).1⟩

end Sm83
