import Mathlib.Algebra.GroupWithZero.Nat
import Sm83.Proofs.Dispatch

/-!
# Tick accounting

Every step takes one tick. The tick either uses up one that was in flight, or it is the one in
which an instruction is executed, whose own ticks are then in flight, or nothing happens in it.
Waking takes no tick and leaves those in flight alone. So the ticks of a run are accounted for by
what its steps report.

## Main definitions

* `Reply.isExecuted`, `Reply.isIdle`, `Reply.isError`: the replies that account for ticks
* `Reply.ticks`: the ticks that a reply accounts for

## Main results

* `Machine.budget_command_of_step_or_wake`: the account of one command
* `Machine.budget_commands`: the account of a run
* `Machine.busy_of_lt_budget`: the ticks in flight are counted down one by one
* `Machine.tick_accounting`: the account of a run, and what the ticks in flight are
-/

namespace Sm83

namespace Reply

variable {σ : Type}

def isExecuted (reply : Reply σ) : Bool :=
  match reply.result with
  | some (.ok (.executed _)) => true
  | _ => false

def isIdle (reply : Reply σ) : Bool :=
  match reply.result with
  | some (.ok (.idle _)) => true
  | _ => false

def isError (reply : Reply σ) : Bool :=
  match reply.result with
  | some (.error _) => true
  | _ => false

/-- The ticks that a reply accounts for: the tick in which something else than counting down
happened, and the ticks that it has put in flight. -/
def ticks (reply : Reply σ) : Nat :=
  (if reply.isExecuted then 1 + reply.machine.core.budget else 0) +
    (if reply.isIdle then 1 else 0) + (if reply.isError then 1 else 0)

theorem sum_ticks (replies : List (Reply σ)) :
    (replies.map ticks).sum =
      ((replies.filter isExecuted).map fun r => 1 + r.machine.core.budget).sum +
        replies.countP isIdle + replies.countP isError := by
  induction replies with
  | nil => rfl
  | cons r replies ih =>
    rw [List.map_cons, List.sum_cons, ih, List.countP_cons, List.countP_cons, ticks]
    cases he : r.isExecuted with
    | true =>
      rw [List.filter_cons_of_pos he, List.map_cons, List.sum_cons, if_pos rfl]
      omega
    | false =>
      rw [List.filter_cons_of_neg (by rw [he]; decide), if_neg (by decide)]
      omega

end Reply

namespace Machine

variable {σ : Type} (bus : Bus σ)

/-! ## The account of a run -/

@[simp] theorem budget_wake (m : Machine σ) : m.wake.1.core.budget = m.core.budget := by
  show m.core.wake.1.budget = _
  unfold Core.wake
  split <;> rfl

theorem isLocked_wake {m : Machine σ} (h : m.core.mode.isLocked = false) :
    m.wake.1.core.mode.isLocked = false := by
  show m.core.wake.1.mode.isLocked = _
  unfold Core.wake
  split
  · rfl
  · exact h

/-- **The account of one command**: what is left of the ticks, and one more for a step, is what
there was and what the reply accounts for. -/
theorem budget_command_of_step_or_wake {c : Command} (h : c = .step ∨ c = .wake) (m : Machine σ) :
    [c].count .step + (m.command bus c).machine.core.budget =
      m.core.budget + (m.command bus c).ticks := by
  rcases h with rfl | rfl
  · rw [command_step, List.count_singleton_self]
    have ht := m.tick_step bus
    generalize m.step bus = o at ht ⊢
    cases ht with
    | locked | idle => exact Nat.add_comm 1 _
    | @busy n _ hb =>
      rw [hb]
      exact Nat.add_comm 1 n
    | executed _ hb _ =>
      rw [hb, Nat.zero_add]
      rfl
    | lockedUp _ hb _ =>
      rw [hb]
      rfl
  · show 0 + m.wake.1.core.budget = m.core.budget + 0
    rw [budget_wake, Nat.zero_add, Nat.add_zero]

/-- **The account of a run.** -/
theorem budget_commands {cs : List Command} (hcs : ∀ c ∈ cs, c = .step ∨ c = .wake)
    (m : Machine σ) :
    cs.count .step + (m.commands bus cs).2.core.budget =
      m.core.budget + ((m.commands bus cs).1.map Reply.ticks).sum := by
  induction cs generalizing m with
  | nil => exact Nat.add_comm 0 _
  | cons c cs ih =>
    obtain ⟨hc, hcs⟩ := List.forall_mem_cons.1 hcs
    have hhead := budget_command_of_step_or_wake bus hc m
    have htail := ih hcs (m.command bus c).machine
    have hcount : (c :: cs).count .step = [c].count .step + cs.count .step := by
      rw [← List.count_append, List.singleton_append]
    have hsum : ((m.commands bus (c :: cs)).1.map Reply.ticks).sum =
        (m.command bus c).ticks +
          (((m.command bus c).machine.commands bus cs).1.map Reply.ticks).sum := List.sum_cons
    have hlast : (m.commands bus (c :: cs)).2 = ((m.command bus c).machine.commands bus cs).2 := rfl
    rw [hcount, hsum, hlast]
    omega

/-! ## Ticks in flight -/

/-- The reports of the steps in a list of commands. -/
def results (cs : List Command) (m : Machine σ) : List StepResult :=
  (m.commands bus cs).1.filterMap Reply.result

/-- **The ticks in flight are counted down one by one**, however often the core is woken meanwhile,
and the step after them is not busy. -/
theorem busy_of_lt_budget {cs : List Command} (hcs : ∀ c ∈ cs, c = .step ∨ c = .wake)
    {m : Machine σ} (hm : m.core.mode.isLocked = false) {i : Nat} {r : StepResult}
    (h : (m.results bus cs)[i]? = some r) :
    (i < m.core.budget → r = .ok (.busy (m.core.budget - 1 - i))) ∧
      (i = m.core.budget → ∀ n, r ≠ .ok (.busy n)) := by
  induction cs generalizing m i with
  | nil => cases h
  | cons c cs ih =>
    obtain ⟨hc, hrest⟩ := List.forall_mem_cons.1 hcs
    rcases hc with rfl | rfl
    · have hcons : m.results bus (.step :: cs) =
          (m.step bus).result :: (m.step bus).machine.results bus cs := rfl
      rw [hcons] at h
      cases hb : m.core.budget with
      | zero =>
        refine ⟨nofun, ?_⟩
        rintro rfl n hr
        cases h
        have := (budget_step_of_busy hr).1
        omega
      | succ b =>
        rw [step_of_inFlight bus hm hb] at h
        cases i with
        | zero =>
          cases h
          exact ⟨fun _ => rfl, nofun⟩
        | succ i =>
          obtain ⟨hbusy, hlast⟩ := ih hrest (m := ⟨{ m.core with budget := b }, m.env⟩) hm h
          refine ⟨?_, ?_⟩
          · intro hi
            rw [hbusy (by simpa using hi)]
            congr 2
            simp only
            omega
          · intro hi
            exact hlast (Nat.succ.inj hi)
    · have hcons : m.results bus (.wake :: cs) = m.wake.1.results bus cs := rfl
      rw [hcons] at h
      rw [← budget_wake]
      exact ih hrest (isLocked_wake hm) h

/-- A busy step changes nothing but the ticks in flight, whatever the bus. -/
theorem step_of_busy {m : Machine σ} {n : Nat} (h : (m.step bus).result = .ok (.busy n))
    {τ : Type} (other : Bus τ) (env : τ) :
    Machine.step other ⟨m.core, env⟩ =
      ⟨.ok (.busy n), ⟨{ m.core with budget := n }, env⟩, []⟩ := by
  have ht := m.tick_step bus
  generalize m.step bus = o at h ht
  cases ht with
  | busy hm hb =>
    cases h
    exact step_of_inFlight other hm hb
  | locked | idle | executed | lockedUp => cases h

/-- **Tick accounting.** The steps of a run and the ticks left in the end are the ticks left in the
beginning, for each executed instruction those that it loads and one for itself, and one for each
step that finds the core waiting or fails. The ticks that an instruction loads are counted down by
just as many busy steps, and these change nothing else and do not touch the bus: they do the same
on any other bus. -/
theorem tick_accounting {cs : List Command} (hcs : ∀ c ∈ cs, c = .step ∨ c = .wake)
    (m : Machine σ) :
    let replies := (m.commands bus cs).1
    cs.count .step + (m.commands bus cs).2.core.budget =
        m.core.budget +
          ((replies.filter Reply.isExecuted).map fun r => 1 + r.machine.core.budget).sum +
          replies.countP Reply.isIdle + replies.countP Reply.isError ∧
    (∀ x, (m.step bus).result = .ok (.executed x) →
      let loaded := (m.step bus).machine.core.budget
      ∀ i r, ((m.step bus).machine.results bus cs)[i]? = some r →
        (i < loaded → r = .ok (.busy (loaded - 1 - i))) ∧
          (i = loaded → ∀ n, r ≠ .ok (.busy n))) ∧
    ∀ n, (m.step bus).result = .ok (.busy n) →
      m.core.budget = n + 1 ∧
        ∀ {τ : Type} (other : Bus τ) (env : τ), Machine.step other ⟨m.core, env⟩ =
          ⟨.ok (.busy n), ⟨{ m.core with budget := n }, env⟩, []⟩ := by
  intro replies
  refine ⟨?_, ?_, ?_⟩
  · rw [budget_commands bus hcs, Reply.sum_ticks]
    simp only [replies, Nat.add_assoc]
  · intro x hx loaded i r hr
    obtain ⟨hm, -, -, -, hs⟩ := executed_of_step bus hx
    refine busy_of_lt_budget bus hcs ?_ hr
    rw [hs]
    exact m.isLocked_nextResponse bus hm
  · intro n hn
    exact ⟨(budget_step_of_busy hn).1, step_of_busy bus hn⟩

/-- The four ticks of an instruction, with a wake between the first two. -/
theorem tick_accounting_nop :
    let bus := Bus.rom [0x00]
    let m : Machine Unit := ⟨.powerOn ⟨.zeroed, none⟩, ()⟩
    let cs : List Command := [.step, .wake, .step, .step, .step, .step]
    (∀ c ∈ cs, c = .step ∨ c = .wake) ∧
      (m.step bus).result = .ok (.executed ⟨0, ⟨#v[0, 0, 0], 1⟩, lookup 0⟩) ∧
      (m.step bus).machine.core.budget = 4 ∧
      (∀ r, ((m.step bus).machine.results bus cs)[1]? = some r → r = .ok (.busy 2)) ∧
      (∀ r n, ((m.step bus).machine.results bus cs)[4]? = some r → r ≠ .ok (.busy n)) ∧
      ((m.step bus).machine.step bus).result = .ok (.busy 3) ∧
      ∀ env, Machine.step bus ⟨(m.step bus).machine.core, env⟩ =
        ⟨.ok (.busy 3), ⟨{ (m.step bus).machine.core with budget := 3 }, env⟩, []⟩ := by
  intro bus m cs
  have hcs : ∀ c ∈ cs, c = .step ∨ c = .wake := by decide
  have hx : (m.step bus).result = .ok (.executed ⟨0, ⟨#v[0, 0, 0], 1⟩, lookup 0⟩) :=
    StepResult.execution?_eq_some.1 (by decide +kernel)
  have hb : (m.step bus).machine.core.budget = 4 := by decide +kernel
  have hbusy : ((m.step bus).machine.step bus).result = .ok (.busy 3) := by
    rw [step_of_inFlight bus (by decide +kernel) hb]
  obtain ⟨-, hcount, -⟩ := tick_accounting bus hcs m
  obtain ⟨-, -, hstep⟩ := tick_accounting bus hcs (m.step bus).machine
  simp only [hb] at hcount
  exact ⟨hcs, hx, hb, fun r hr => (hcount _ hx 1 r hr).1 (by decide),
    fun r n hr => (hcount _ hx 4 r hr).2 rfl n, hbusy, (hstep 3 hbusy).2 bus⟩

end Machine

end Sm83
