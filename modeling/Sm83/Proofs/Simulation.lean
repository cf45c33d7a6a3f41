import Mathlib.Data.List.Forall2
import Sm83.Proofs.Dispatch

/-!
# Machines in step

Two machines on two buses stay in step if their buses answer reads alike and respond to the same
calls in a related way. The cores may differ in what their fetch records hold, along a relation
that fetching preserves, since no instruction reads the record; the machines then do the same
except that the records of executed instructions are related and not equal.

## Main definitions

* `FetchRecord.IsCongruence`: a relation between records that fetching preserves
* `Core.Rel`, `Machine.Rel`, `Outcome.Rel`, `Reply.Rel`: cores, machines and reports that agree up
  to related records
* `Bus.Agree`, `Bus.Sim`: buses that agree along a relation between their states

## Main results

* `Machine.Rel.step`: what one step of machines in step preserves
* `Machine.Rel.command`, `Machine.Rel.commands`: what commands preserve
-/

namespace Sm83

variable {σ τ : Type}

/-! ## What is compared -/

/-- A relation between fetch records that fetching preserves. -/
structure FetchRecord.IsCongruence (S : FetchRecord → FetchRecord → Prop) : Prop where
  restart {r s : FetchRecord} (h : S r s) : S r.restart s.restart
  push {r s : FetchRecord} (h : S r s) (b : UInt8) : S (r.push b) (s.push b)

theorem FetchRecord.IsCongruence.eq : IsCongruence (· = ·) where
  restart h := congrArg FetchRecord.restart h
  push h b := congrArg (FetchRecord.push · b) h

/-- Executed instructions that differ in their records only. -/
structure Execution.Rel (S : FetchRecord → FetchRecord → Prop) (x y : Execution) : Prop where
  addr : x.addr = y.addr
  record : S x.record y.record
  instruction : x.instruction = y.instruction

theorem Execution.Rel.eq {x y : Execution} (h : x.Rel (· = ·) y) : x = y := by
  obtain ⟨addr, record, instruction⟩ := x
  obtain ⟨rfl, rfl, rfl⟩ := h
  rfl

/-- Reports of steps that differ in the record of an executed instruction only. -/
inductive StepResult.Rel (S : FetchRecord → FetchRecord → Prop) : StepResult → StepResult → Prop
  | busy (n : Nat) : Rel S (.ok (.busy n)) (.ok (.busy n))
  | executed {x y : Execution} (h : x.Rel S y) : Rel S (.ok (.executed x)) (.ok (.executed y))
  | idle (mode : Mode) : Rel S (.ok (.idle mode)) (.ok (.idle mode))
  | error (f : Fault) : Rel S (.error f) (.error f)

theorem StepResult.Rel.eq {r q : StepResult} (h : r.Rel (· = ·) q) : r = q := by
  cases h with
  | executed hx => rw [hx.eq]
  | busy | idle | error => rfl

/-- Log lines that differ in the record of an executed instruction only. -/
inductive Entry.Rel (S : FetchRecord → FetchRecord → Prop) : Entry → Entry → Prop
  | same (e : Entry) : Rel S e e
  | executed {x y : Execution} (h : x.Rel S y) : Rel S (.core (.executed x)) (.core (.executed y))

theorem Entry.rel_self (S : FetchRecord → FetchRecord → Prop) (log : List Entry) :
    List.Forall₂ (Entry.Rel S) log log := List.forall₂_same.2 fun e _ => .same e

/-- Cores that differ in their fetch records only. -/
structure Core.Rel (S : FetchRecord → FetchRecord → Prop) (c d : Core) : Prop where
  regs : c.regs = d.regs
  budget : c.budget = d.budget
  mode : c.mode = d.mode
  interrupts : c.interrupts = d.interrupts
  config : c.config = d.config
  fetched : S c.fetched d.fetched

section

variable (S : FetchRecord → FetchRecord → Prop) (R : σ → τ → Prop)

/-- Machines in step. -/
structure Machine.Rel (m : Machine σ) (n : Machine τ) : Prop where
  core : m.core.Rel S n.core
  env : R m.env n.env

/-- Outcomes of machines in step. The log holds comments of the bus, so the logs agree only where
the buses comment alike. -/
structure Outcome.Rel (alike : Prop) (o : Outcome σ) (p : Outcome τ) : Prop where
  result : o.result.Rel S p.result
  machine : o.machine.Rel S R p.machine
  log : alike → List.Forall₂ (Entry.Rel S) o.log p.log

/-- Replies of machines in step. -/
structure Reply.Rel (alike : Prop) (r : Reply σ) (q : Reply τ) : Prop where
  result : Option.Rel (StepResult.Rel S) r.result q.result
  machine : r.machine.Rel S R q.machine
  log : alike → List.Forall₂ (Entry.Rel S) r.log q.log

end

theorem map_eq_map_of_forall₂ {α β γ : Type} {f : α → γ} {g : β → γ} {xs : List α} {ys : List β}
    (h : List.Forall₂ (fun x y => f x = g y) xs ys) : xs.map f = ys.map g := by
  rw [← List.forall₂_eq_eq_eq, List.forall₂_map_left_iff, List.forall₂_map_right_iff]
  exact h

/-- Replies of machines in step report the same as far as related reports are the same. -/
theorem Reply.Rel.map_result {S : FetchRecord → FetchRecord → Prop} {R : σ → τ → Prop}
    {alike : Prop} {r : Reply σ} {q : Reply τ} (h : r.Rel S R alike q) {α : Type}
    {f : StepResult → α} (hf : ∀ {a b}, StepResult.Rel S a b → f a = f b) :
    r.result.map f = q.result.map f := by
  have hr := h.result
  generalize r.result = a, q.result = b at hr ⊢
  cases hr with
  | none => rfl
  | some hr => exact congrArg some (hf hr)

/-! ## Buses that agree -/

/-- Buses that agree on what is read, and whose states stay related through reads, writes and
events. -/
structure Bus.Agree (b₁ : Bus σ) (b₂ : Bus τ) (R : σ → τ → Prop) : Prop where
  value {s : σ} {t : τ} (h : R s t) (addr : UInt16) : (b₁.read addr s).1 = (b₂.read addr t).1
  read {s : σ} {t : τ} (h : R s t) (addr : UInt16) : R (b₁.read addr s).2 (b₂.read addr t).2
  write {s : σ} {t : τ} (h : R s t) (addr : UInt16) (v : UInt8) :
    R (b₁.write addr v s) (b₂.write addr v t)
  notify {s : σ} {t : τ} (h : R s t) (e : Event) : R (b₁.notify e s) (b₂.notify e t)

/-- Buses that agree, and whose states stay related when they learn of related executed
instructions. -/
structure Bus.Sim (S : FetchRecord → FetchRecord → Prop) (b₁ : Bus σ) (b₂ : Bus τ)
    (R : σ → τ → Prop) : Prop extends b₁.Agree b₂ R where
  executed {s : σ} {t : τ} (h : R s t) {x y : Execution} (hx : x.Rel S y) :
    R (b₁.executed x s) (b₂.executed y t)

namespace Bus.Agree

variable {b₁ : Bus σ} {b₂ : Bus τ} {R : σ → τ → Prop} {s : σ} {t : τ}

theorem readAll (hb : b₁.Agree b₂ R) (addrs : List UInt16) (h : R s t) :
    (b₁.readAll addrs s).1 = (b₂.readAll addrs t).1 ∧
      R (b₁.readAll addrs s).2 (b₂.readAll addrs t).2 := by
  induction addrs generalizing s t with
  | nil => exact ⟨rfl, h⟩
  | cons addr addrs ih =>
    obtain ⟨hv, hs⟩ := ih (hb.read h addr)
    refine ⟨?_, hs⟩
    rw [Bus.readAll_cons, Bus.readAll_cons, hb.value h addr, hv]

theorem writeAll (hb : b₁.Agree b₂ R) (stores : List (UInt16 × UInt8)) (h : R s t) :
    R (b₁.writeAll stores s) (b₂.writeAll stores t) := by
  induction stores generalizing s t with
  | nil => exact h
  | cons store stores ih => exact ih (hb.write h store.1 store.2)

theorem learn (hb : b₁.Agree b₂ R) (e : Option Event) (h : R s t) :
    R (b₁.learn e s) (b₂.learn e t) := by
  cases e with
  | none => exact h
  | some e => exact hb.notify h e

end Bus.Agree

/-! ## Cores in step -/

namespace Core.Rel

variable {S : FetchRecord → FetchRecord → Prop} {c d : Core}

theorem beginFetch (hS : FetchRecord.IsCongruence S) (h : c.Rel S d) :
    c.beginFetch.Rel S d.beginFetch :=
  { h with fetched := hS.restart h.fetched }

theorem fetch (hS : FetchRecord.IsCongruence S) (h : c.Rel S d) (b : UInt8) :
    (c.fetch b).Rel S (d.fetch b) :=
  { h with
    regs := by rw [Core.fetch, Core.fetch, h.regs]
    fetched := hS.push h.fetched b }

theorem fetchAll (hS : FetchRecord.IsCongruence S) (h : c.Rel S d) (bytes : List UInt8) :
    (c.fetchAll bytes).Rel S (d.fetchAll bytes) := by
  induction bytes generalizing c d with
  | nil => exact h
  | cons b bytes ih => exact ih (h.fetch hS b)

theorem signal (h : c.Rel S d) (e : Event) :
    (c.signal e).1.Rel S (d.signal e).1 ∧ (c.signal e).2 = (d.signal e).2 := by
  cases e with
  | interruptsEnabled | interruptsDisabled =>
    refine ⟨{ h with interrupts := rfl }, ?_⟩
    simp only [Core.signal, Core.setInterrupts, h.interrupts, h.regs]
  | halted | stopped =>
    refine ⟨{ h with mode := rfl }, ?_⟩
    simp only [Core.signal, h.regs]
  | lockedUp opcode addr =>
    refine ⟨{ h with budget := rfl, mode := rfl }, ?_⟩
    simp only [Core.signal, h.regs]

theorem respond (h : c.Rel S d) (e : Option Event) :
    (c.respond e).1.Rel S (d.respond e).1 ∧ (c.respond e).2 = (d.respond e).2 := by
  cases e with
  | none => exact ⟨h, rfl⟩
  | some e => exact h.signal e

theorem wake (h : c.Rel S d) : c.wake.1.Rel S d.wake.1 ∧ c.wake.2 = d.wake.2 := by
  cases hw : c.mode.isWaiting with
  | true =>
    rw [wake_of_isWaiting hw, wake_of_isWaiting (h.mode ▸ hw)]
    refine ⟨{ h with mode := rfl }, ?_⟩
    rw [h.mode, h.regs]
  | false =>
    rw [wake_of_not_isWaiting hw, wake_of_not_isWaiting (h.mode ▸ hw)]
    exact ⟨h, rfl⟩

theorem reset (hS : FetchRecord.IsCongruence S) (h : c.Rel S d) : c.reset.Rel S d.reset where
  regs := congrArg Config.registers h.config
  budget := rfl
  mode := rfl
  interrupts := rfl
  config := h.config
  fetched := hS.restart h.fetched

/-- A change of registers that depends on nothing else keeps cores in step. -/
theorem mapRegs (h : c.Rel S d) (f : Registers → Registers) :
    ({ c with regs := f c.regs } : Core).Rel S { d with regs := f d.regs } :=
  { h with regs := congrArg f h.regs }

theorem refl (c : Core) : c.Rel (· = ·) c := ⟨rfl, rfl, rfl, rfl, rfl, rfl⟩

theorem eq (h : c.Rel (· = ·) d) : c = d := by
  obtain ⟨regs, budget, mode, interrupts, config, fetched⟩ := c
  obtain ⟨rfl, rfl, rfl, rfl, rfl, rfl⟩ := h
  rfl

end Core.Rel

/-! ## The next instruction

Machines in step fetch the same bytes, so they find the same instruction and the same operand, and
since their registers are equal they read at the same addresses and come to the same effect. -/

namespace Machine.Rel

variable {S : FetchRecord → FetchRecord → Prop} {R : σ → τ → Prop}
variable {b₁ : Bus σ} {b₂ : Bus τ} {m : Machine σ} {n : Machine τ}

theorem nextInstruction_eq (hb : b₁.Agree b₂ R) (h : m.Rel S R n) :
    m.nextInstruction b₁ = n.nextInstruction b₂ := by
  have hpc : m.core.regs.pc = n.core.regs.pc := congrArg Registers.pc h.core.regs
  have hv := hb.value h.env n.core.regs.pc
  by_cases he : (b₂.read n.core.regs.pc n.env).1 = escapeByte
  · rw [nextInstruction_of_escape b₂ he, nextInstruction_of_escape b₁ (by rw [hpc, hv, he]), hpc,
      hb.value (hb.read h.env _)]
  · rw [nextInstruction_of_ne_escape b₂ he,
      nextInstruction_of_ne_escape b₁ (by rw [hpc, hv]; exact he), hpc, hv]

theorem nextFetch (hb : b₁.Agree b₂ R) (h : m.Rel S R n) :
    (m.nextFetch b₁).1 = (n.nextFetch b₂).1 ∧ R (m.nextFetch b₁).2 (n.nextFetch b₂).2 := by
  rw [Machine.nextFetch, Machine.nextFetch, h.nextInstruction_eq hb, h.core.regs]
  exact hb.readAll _ h.env

theorem fetchedCore (hS : FetchRecord.IsCongruence S) (hb : b₁.Agree b₂ R) (h : m.Rel S R n) :
    (m.fetchedCore b₁).Rel S (n.fetchedCore b₂) := by
  rw [Machine.fetchedCore, Machine.fetchedCore, h.nextInstruction_eq hb, (h.nextFetch hb).1]
  exact { (h.core.beginFetch hS).fetchAll hS _ with budget := rfl }

theorem nextOperand_eq (hb : b₁.Agree b₂ R) (h : m.Rel S R n) :
    m.nextOperand b₁ = n.nextOperand b₂ := by
  rw [nextOperand, nextOperand, nextOperands, nextOperands, h.nextInstruction_eq hb,
    (h.nextFetch hb).1]

theorem regs_fetchedCore_eq (hb : b₁.Agree b₂ R) (h : m.Rel S R n) :
    (m.fetchedCore b₁).regs = (n.fetchedCore b₂).regs := by
  rw [regs_fetchedCore, regs_fetchedCore, h.nextInstruction_eq hb, h.core.regs]

theorem nextLoads (hb : b₁.Agree b₂ R) (h : m.Rel S R n) :
    (m.nextLoads b₁).1 = (n.nextLoads b₂).1 ∧ R (m.nextLoads b₁).2 (n.nextLoads b₂).2 := by
  rw [Machine.nextLoads, Machine.nextLoads, h.nextInstruction_eq hb, h.regs_fetchedCore_eq hb,
    h.nextOperand_eq hb]
  exact hb.readAll _ (h.nextFetch hb).2

theorem nextEffect_eq (hb : b₁.Agree b₂ R) (h : m.Rel S R n) :
    m.nextEffect b₁ = n.nextEffect b₂ := by
  rw [nextEffect, nextEffect, h.nextInstruction_eq hb, h.regs_fetchedCore_eq hb,
    h.nextOperand_eq hb, (h.nextLoads hb).1]

theorem nextTicks_eq (hb : b₁.Agree b₂ R) (h : m.Rel S R n) :
    m.nextTicks b₁ = n.nextTicks b₂ := by
  rw [nextTicks, nextTicks, h.nextInstruction_eq hb, h.core.regs]

theorem nextExecution (hS : FetchRecord.IsCongruence S) (hb : b₁.Agree b₂ R) (h : m.Rel S R n) :
    (m.nextExecution b₁).Rel S (n.nextExecution b₂) where
  addr := congrArg Registers.pc h.core.regs
  record := (h.fetchedCore hS hb).fetched
  instruction := h.nextInstruction_eq hb

theorem nextResponse (hS : FetchRecord.IsCongruence S) (hb : b₁.Agree b₂ R) (h : m.Rel S R n) :
    (m.nextResponse b₁).1.Rel S (n.nextResponse b₂).1 ∧
      (m.nextResponse b₁).2 = (n.nextResponse b₂).2 := by
  have hcore := h.fetchedCore hS hb
  rw [Machine.nextResponse, Machine.nextResponse, h.nextInstruction_eq hb, h.nextEffect_eq hb,
    h.nextTicks_eq hb]
  apply Core.Rel.respond
  exact { hcore with regs := rfl, budget := rfl }

/-! ## Steps -/

theorem executed (hS : FetchRecord.IsCongruence S) (hb : b₁.Sim S b₂ R) (h : m.Rel S R n) :
    (m.executed b₁).Rel S R (b₁.remarks = b₂.remarks) (n.executed b₂) := by
  have hx := h.nextExecution hS hb.toAgree
  obtain ⟨hcore, hmessages⟩ := h.nextResponse hS hb.toAgree
  refine ⟨.executed hx, ⟨hcore, ?_⟩, ?_⟩
  · simp only [Machine.executed, h.nextInstruction_eq hb.toAgree, h.nextEffect_eq hb.toAgree]
    exact hb.executed (hb.learn _ (hb.writeAll _ (h.nextLoads hb.toAgree).2)) hx
  · intro hr
    simp only [Machine.executed, Bus.comments, h.nextInstruction_eq hb.toAgree, hmessages, hr]
    exact List.rel_append (Entry.rel_self S _) (.cons (.executed hx) .nil)

theorem lockedUp (hS : FetchRecord.IsCongruence S) (hb : b₁.Agree b₂ R) (h : m.Rel S R n) :
    (m.lockedUp b₁).Rel S R (b₁.remarks = b₂.remarks) (n.lockedUp b₂) := by
  have hcore := h.core.beginFetch hS
  simp only [Machine.lockedUp, h.core.regs, hb.value h.env]
  refine ⟨.error _, ⟨?_, ?_⟩, ?_⟩
  · exact { hcore.fetch hS _ with budget := rfl, mode := rfl }
  · exact hb.notify (hb.read h.env _) _
  · intro hr
    simp only [hr, (hcore.fetch hS _).regs]
    exact Entry.rel_self S _

/-- **One step keeps machines in step.** -/
theorem step (hS : FetchRecord.IsCongruence S) (hb : b₁.Sim S b₂ R) (h : m.Rel S R n) :
    (m.step b₁).Rel S R (b₁.remarks = b₂.remarks) (n.step b₂) := by
  have ht := m.tick_step b₁
  generalize m.step b₁ = o at ht ⊢
  -- The modes, the ticks and the instructions found are equal, so the other machine makes the same
  -- move.
  cases ht with
  | locked hm =>
    rw [step_of_locked b₂ (h.core.mode ▸ hm)]
    exact ⟨.error _, h, fun _ => .nil⟩
  | busy hm hn =>
    rw [step_of_inFlight b₂ (h.core.mode ▸ hm) (h.core.budget ▸ hn)]
    exact ⟨.busy _, ⟨{ h.core with budget := rfl }, h.env⟩, fun _ => .nil⟩
  | idle hm hn =>
    rw [step_of_isWaiting b₂ (h.core.mode ▸ hm) (h.core.budget ▸ hn), ← h.core.mode]
    exact ⟨.idle _, h, fun _ => .nil⟩
  | executed hm hn hi =>
    rw [step_of_running b₂ (h.core.mode ▸ hm) (h.core.budget ▸ hn),
      executeNext_of_isValid b₂ n (h.nextInstruction_eq hb.toAgree ▸ hi)]
    exact h.executed hS hb
  | lockedUp hm hn hi =>
    rw [step_of_running b₂ (h.core.mode ▸ hm) (h.core.budget ▸ hn),
      executeNext_of_not_isValid b₂ n (h.nextInstruction_eq hb.toAgree ▸ hi)]
    exact h.lockedUp hS hb.toAgree

theorem drained (h : m.Rel S R n) : m.drained.Rel S R n.drained := by
  unfold Machine.drained
  rw [h.core.mode]
  split
  · exact h
  · exact ⟨{ h.core with budget := rfl }, h.env⟩

/-! ## Commands -/

/-- **One command keeps machines in step.** -/
theorem command (hS : FetchRecord.IsCongruence S) (hb : b₁.Sim S b₂ R) (h : m.Rel S R n)
    (c : Command) :
    (m.command b₁ c).Rel S R (b₁.remarks = b₂.remarks) (n.command b₂ c) := by
  have mapCore {f : Core → Core} (hf : (f m.core).Rel S (f n.core)) :
      Reply.Rel S R (b₁.remarks = b₂.remarks) ⟨none, m.mapCore f, []⟩ ⟨none, n.mapCore f, []⟩ :=
    ⟨.none, ⟨hf, h.env⟩, fun _ => .nil⟩
  cases c with
  | step =>
    have ho := h.step hS hb
    exact ⟨.some ho.result, ho.machine, ho.log⟩
  | stepInstruction =>
    simp only [Machine.command, stepInstruction_eq]
    have ho := h.drained.step hS hb
    exact ⟨.some ho.result, ho.machine, ho.log⟩
  | wake =>
    -- The message tells the mode and the program counter, in which the cores agree.
    obtain ⟨hcore, hmessages⟩ := h.core.wake
    refine ⟨.none, ⟨hcore, h.env⟩, fun _ => ?_⟩
    simp only [Machine.command, Machine.wake, hmessages]
    exact Entry.rel_self S _
  | reset => exact mapCore (h.core.reset hS)
  | assign a => exact mapCore (h.core.mapRegs (·.assign a))
  | setFlags f value => exact mapCore (h.core.mapRegs fun r => r.setFlags (r.flags.assign f value))
  | clearFlags => exact mapCore (h.core.mapRegs fun r => r.setFlags .empty)

/-- **Commands keep machines in step**, and their replies agree one by one. -/
theorem commands (hS : FetchRecord.IsCongruence S) (hb : b₁.Sim S b₂ R) (h : m.Rel S R n)
    (cs : List Command) :
    List.Forall₂ (Reply.Rel S R (b₁.remarks = b₂.remarks)) (m.commands b₁ cs).1
        (n.commands b₂ cs).1 ∧
      (m.commands b₁ cs).2.Rel S R (n.commands b₂ cs).2 := by
  induction cs generalizing m n with
  | nil => exact ⟨.nil, h⟩
  | cons c cs ih =>
    have hc := h.command hS hb c
    obtain ⟨hreplies, hlast⟩ := ih hc.machine
    exact ⟨.cons hc hreplies, hlast⟩

end Machine.Rel

end Sm83
