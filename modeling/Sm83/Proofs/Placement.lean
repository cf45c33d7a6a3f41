import Mathlib.Data.List.GetD
import Sm83.Proofs.ImageRun

/-!
# Placing data in memory

Data that are copied to memory go on at address zero after the last address, and data that are
longer than memory overwrite themselves: a cell keeps the last byte that falls on it. An image is
accepted only if this cannot happen, so it starts in memory that holds the image, zeros in front of
it and zeros behind it. What is run is this memory and nothing else, so zeros that belong to the
image are as good as zeros that do not.

## Main definitions

* `bytesOn`: the bytes of some data that fall on a cell
* `Run.SameSteps`: runs that differ in what they have logged only
* `Report.SameRun`: reports of runs that ended alike

## Main results

* `Memory.get_load`: a cell keeps the last byte that falls on it
* `Memory.get_zero_load`: memory with an image is the image between zeros
* `runImage_congr`: runs from the same memory end alike
* `placement_law`: how an image is placed, and that zeros around it make no difference
-/

namespace Sm83

/-! ## Data in memory -/

/-- The bytes that fall on the cell `x` when data are copied to memory from `addr` upwards, in the
order in which they are copied. -/
def bytesOn (addr x : UInt16) (data : List UInt8) : List UInt8 :=
  (data.zipIdx.filter fun p => (addr.toNat + p.2) % 65536 = x.toNat).map Prod.fst

theorem add_ofNat_eq_iff (addr x : UInt16) (i : Nat) :
    addr + UInt16.ofNat i = x ↔ (addr.toNat + i) % 65536 = x.toNat := by
  rw [← UInt16.toNat_inj, UInt16.toNat_add, UInt16.toNat_ofNat', Nat.add_mod_mod]

theorem bytesOn_concat (addr x : UInt16) (data : List UInt8) (b : UInt8) :
    bytesOn addr x (data ++ [b]) =
      bytesOn addr x data ++ if addr + UInt16.ofNat data.length = x then [b] else [] := by
  rw [bytesOn, List.zipIdx_append, List.filter_append, List.map_append]
  congr 1
  by_cases h : addr + UInt16.ofNat data.length = x
  · rw [if_pos h]
    simp [(add_ofNat_eq_iff _ _ _).1 h]
  · rw [if_neg h]
    simp [mt (add_ofNat_eq_iff _ _ _).2 h]

/-- Behind the end of a list its default stands anyway. -/
theorem getD_append_replicate {α : Type} (l : List α) (d : α) (n i : Nat) :
    (l ++ List.replicate n d).getD i d = l.getD i d := by
  rcases Nat.lt_or_ge i l.length with hi | hi
  · exact List.getD_append _ _ _ _ hi
  · rw [List.getD_append_right _ _ _ _ hi, List.getD_eq_default l d hi]
    rcases Nat.lt_or_ge (i - l.length) n with hn | hn
    · exact List.getD_replicate _ hn
    · exact List.getD_eq_default _ _ (by rwa [List.length_replicate])

theorem getD_concat {α : Type} (l : List α) (a d : α) (i : Nat) :
    (l ++ [a]).getD i d = if l.length = i then a else l.getD i d := by
  rcases Nat.lt_trichotomy i l.length with hi | rfl | hi
  · rw [List.getD_append _ _ _ _ hi, if_neg hi.ne']
  · rw [List.getD_append_right _ _ _ _ le_rfl, if_pos rfl, Nat.sub_self]
    rfl
  · rw [if_neg hi.ne, List.getD_eq_default _ _ hi.le, List.getD_eq_default]
    rwa [List.length_append, List.length_singleton]

namespace Memory

variable (m : Memory) (addr : UInt16)

/-- Memories with the same cells are the same. -/
theorem ext_get {m n : Memory} (h : ∀ x, m.get x = n.get x) : m = n := by
  obtain ⟨cells⟩ := m
  obtain ⟨other⟩ := n
  refine congrArg Memory.mk (Vector.ext fun i hi => ?_)
  have hindex : (UInt16.ofNat i).toNat = i := UInt16.toNat_ofNat_of_lt' hi
  simpa only [get, hindex] using h (UInt16.ofNat i)

theorem load_concat (data : List UInt8) (b : UInt8) :
    m.load addr (data ++ [b]) =
      (m.load addr data).set (addr + UInt16.ofNat data.length) b := m.load_append addr data [b]

/-- **A cell keeps the last byte that falls on it**, and what it held before if none does. -/
theorem get_load (data : List UInt8) (x : UInt16) :
    (m.load addr data).get x = (bytesOn addr x data).getLastD (m.get x) := by
  induction data using List.reverseRecOn with
  | nil => rfl
  | append_singleton data b ih =>
    rw [load_concat, get_set, bytesOn_concat]
    split
    · rw [List.getLastD_concat]
    · rw [List.append_nil, ih]

/-- **Memory with an image is the image between zeros.** An image that fits does not reach its own
first byte again, so no byte of it is overwritten. -/
theorem get_zero_load {addr : UInt16} {data : List UInt8}
    (h : addr.toNat + data.length ≤ 65536) (x : UInt16) :
    (zero.load addr data).get x = (List.replicate addr.toNat 0 ++ data).getD x.toNat 0 := by
  induction data using List.reverseRecOn with
  | nil =>
    have hzeros := getD_append_replicate [] (0 : UInt8) addr.toNat x.toNat
    rw [List.nil_append] at hzeros
    rw [List.append_nil, hzeros]
    exact get_zero x
  | append_singleton data b ih =>
    rw [List.length_append, List.length_singleton] at h
    have hfits : addr.toNat + data.length < 65536 := by omega
    have hcell : addr + UInt16.ofNat data.length = x ↔ addr.toNat + data.length = x.toNat := by
      rw [add_ofNat_eq_iff, Nat.mod_eq_of_lt hfits]
    rw [load_concat, get_set, ih hfits.le, ← List.append_assoc, getD_concat, List.length_append,
      List.length_replicate]
    simp only [hcell]

section

variable {addr : UInt16} {data : List UInt8} (h : addr.toNat + data.length ≤ 65536)
include h

/-- Each byte of an image that fits has a cell of its own. -/
theorem get_zero_load_add {i : Nat} (hi : i < data.length) :
    (zero.load addr data).get (UInt16.ofNat (addr.toNat + i)) = data[i] := by
  have hindex : (UInt16.ofNat (addr.toNat + i)).toNat = addr.toNat + i :=
    UInt16.toNat_ofNat_of_lt' (by show _ < 65536; omega)
  rw [get_zero_load h, hindex, List.getD_append_right _ _ _ _ (by simp), List.length_replicate,
    Nat.add_sub_cancel_left, List.getD_eq_getElem _ _ hi]

/-- The other cells stay zero. -/
theorem get_zero_load_of_notMem {x : UInt16}
    (hx : x.toNat < addr.toNat ∨ addr.toNat + data.length ≤ x.toNat) :
    (zero.load addr data).get x = 0 := by
  rw [get_zero_load h]
  rcases hx with hx | hx
  · rw [List.getD_append _ _ _ _ (by rwa [List.length_replicate]), List.getD_replicate _ hx]
  · exact List.getD_eq_default _ _ (by rwa [List.length_append, List.length_replicate])

end

end Memory

/-! ## Runs and their logs -/

variable {σ : Type}

/-- Runs that differ in what they have logged only. -/
structure Run.SameSteps (run other : Run σ) : Prop where
  machine : run.machine = other.machine
  ticks : run.ticks = other.ticks
  executed : run.executed = other.executed
  ending : run.ending = other.ending

namespace Run.SameSteps

variable {run other : Run σ}

/-- What has been logged, and what is kept of it, makes no difference to a step. -/
theorem tick (h : run.SameSteps other) (bus : Bus σ) (v w : Verbosity) :
    (run.tick bus v).SameSteps (other.tick bus w) := by
  obtain ⟨machine, ticks, executed, ending, log⟩ := run
  obtain ⟨rfl, rfl, rfl, rfl⟩ := h
  exact ⟨rfl, rfl, rfl, rfl⟩

theorem forTicks (h : run.SameSteps other) (bus : Bus σ) (v w : Verbosity) (n : Nat) :
    (run.forTicks bus v n).SameSteps (other.forTicks bus w n) := by
  induction n generalizing run other with
  | zero => exact h
  | succ n ih =>
    rw [Run.forTicks, Run.forTicks, h.ending]
    split
    · exact h
    · exact ih (h.tick bus v w)

end Run.SameSteps

/-- Reports of runs that ended alike; the lines that were logged may differ. -/
structure Report.SameRun (report other : Report) : Prop where
  ending : report.ending = other.ending
  ticks : report.ticks = other.ticks
  instructions : report.instructions = other.instructions
  core : report.core = other.core

theorem Run.SameSteps.report {run other : Run Host} (h : run.SameSteps other) :
    run.report.SameRun other.report where
  ending := congrArg Ending.ofResult h.ending
  ticks := h.ticks
  instructions := congrArg (fun m => m.env.instructions) h.machine
  core := congrArg Machine.core h.machine

/-! ## Runs from the same memory -/

section

variable {image other : List UInt8} {o p : Options}

/-- **Runs from the same memory end alike.** The image and its address count only for what they
leave in memory, and for the line that tells of them. -/
theorem runImage_congr (hconfig : o.config = p.config) (hticks : o.ticks = p.ticks)
    (hmemory : Memory.zero.load o.load image = Memory.zero.load p.load other)
    (ho : o.load.toNat + image.length ≤ 65536) (hp : p.load.toNat + other.length ≤ 65536)
    (v w : Verbosity) :
    ∃ r s, runImage image o v = .ok r ∧ runImage other p w = .ok s ∧ r.SameRun s := by
  have hstart : o.start image = p.start other := by
    rw [Options.start, Options.start, hconfig, hmemory]
  have hready : (o.ready image v).SameSteps (p.ready other w) := ⟨hstart, rfl, rfl, rfl⟩
  have hrun : (o.run image v).SameSteps (p.run other w) := by
    rw [Options.run, Options.run, hticks]
    exact hready.forTicks Host.bus v w p.ticks
  exact ⟨_, _, runImage_eq_ok ho v, runImage_eq_ok hp w, hrun.report⟩

/-- Zeros behind an image are there without it. -/
theorem runImage_append_zeros {n : Nat} (h : o.load.toNat + image.length + n ≤ 65536)
    (v w : Verbosity) :
    ∃ r s, runImage image o v = .ok r ∧ runImage (image ++ .replicate n 0) o w = .ok s ∧
      r.SameRun s := by
  have himage : o.load.toNat + image.length ≤ 65536 := by omega
  have hlonger : o.load.toNat + (image ++ List.replicate n 0).length ≤ 65536 := by
    rw [List.length_append, List.length_replicate]
    omega
  refine runImage_congr rfl rfl (Memory.ext_get fun x => ?_) himage hlonger v w
  rw [Memory.get_zero_load himage, Memory.get_zero_load hlonger, ← List.append_assoc,
    getD_append_replicate]

/-- Zeros in front of an image are there without it, so it may as well start at address zero. -/
theorem runImage_zeros_append (h : o.load.toNat + image.length ≤ 65536) (v w : Verbosity) :
    ∃ r s, runImage image o v = .ok r ∧
      runImage (.replicate o.load.toNat 0 ++ image) { o with load := 0 } w = .ok s ∧
      r.SameRun s := by
  have hshifted : (0 : UInt16).toNat + (List.replicate o.load.toNat 0 ++ image).length ≤ 65536 := by
    rw [List.length_append, List.length_replicate]
    exact (Nat.zero_add _).trans_le h
  refine runImage_congr (o := o) (p := { o with load := 0 }) rfl rfl
    (Memory.ext_get fun x => ?_) h hshifted v w
  rw [Memory.get_zero_load h, Memory.get_zero_load hshifted]
  rfl

end

/-! ## The law of placement -/

/-- **The law of placement.** After data of any length are copied to memory from an address upwards,
each cell holds the last byte that falls on it, or what it held before; so data may be copied in
parts. An image is refused exactly if it reaches beyond the last address. Otherwise the host starts
from memory with each byte of the image in a cell of its own and zeros in all other cells; zeros
behind the image that still fit, and zeros in front of it down to address zero, change nothing in
the report but the lines that were logged. -/
theorem placement_law :
    (∀ (m : Memory) (addr : UInt16) (data : List UInt8),
      (∀ x, (m.load addr data).get x = (bytesOn addr x data).getLastD (m.get x)) ∧
      ∀ more, m.load addr (data ++ more) =
        (m.load addr data).load (UInt16.ofNat ((addr.toNat + data.length) % 65536)) more) ∧
    ∀ (image : List UInt8) (o : Options) (verbosity : Verbosity),
      ((∃ e, runImage image o verbosity = .error e) ↔ 65536 < o.load.toNat + image.length) ∧
      (o.load.toNat + image.length ≤ 65536 →
        let start := o.ready image verbosity
        let memory := start.machine.env.memory
        runImage image o verbosity =
            .ok (start.forTicks Host.bus verbosity o.ticks).report ∧
          (∀ i (hi : i < image.length), o.load.toNat + i < 65536 ∧
            memory.get (UInt16.ofNat (o.load.toNat + i)) = image[i]) ∧
          (∀ x : UInt16, x.toNat < o.load.toNat ∨ o.load.toNat + image.length ≤ x.toNat →
            memory.get x = 0) ∧
          (∀ n, o.load.toNat + image.length + n ≤ 65536 →
            ∃ r s, runImage image o verbosity = .ok r ∧
              runImage (image ++ .replicate n 0) o verbosity = .ok s ∧ r.SameRun s) ∧
          ∃ r s, runImage image o verbosity = .ok r ∧
            runImage (.replicate o.load.toNat 0 ++ image) { o with load := 0 } verbosity = .ok s ∧
            r.SameRun s) := by
  refine ⟨fun m addr data => ⟨m.get_load addr data, fun more => ?_⟩, ?_⟩
  · have haddr : addr + UInt16.ofNat data.length =
        UInt16.ofNat ((addr.toNat + data.length) % 65536) := by
      rw [add_ofNat_eq_iff, UInt16.toNat_ofNat', Nat.mod_mod]
    rw [m.load_append, haddr]
  intro image o verbosity
  refine ⟨?_, fun hfit => ⟨runImage_eq_ok hfit verbosity, ?_, ?_, ?_, ?_⟩⟩
  · simp only [runImage_eq_error_iff]
    exact ⟨fun ⟨_, h, _⟩ => h, fun h => ⟨_, h, rfl⟩⟩
  · intro i hi
    exact ⟨by omega, Memory.get_zero_load_add hfit hi⟩
  · intro x hx
    exact Memory.get_zero_load_of_notMem hfit hx
  · intro n hn
    exact runImage_append_zeros hn verbosity verbosity
  · exact runImage_zeros_append hfit verbosity verbosity

/-- Two bytes copied to the last address and on to the first, an image that is refused there, and
one that halts: with zeros down to address zero in front of it, it still does. -/
theorem placement_law_halt :
    let image : List UInt8 := [0x00, 0x76]
    let o : Options := { image := "halt", load := 3, pc := some 3, ticks := 20, boot := .zeroed }
    (Memory.zero.load 0xFFFF image).get 0 = 0x76 ∧
      (∃ e, runImage image { o with load := 0xFFFF } none = .error e) ∧
      o.load.toNat + image.length ≤ 65536 ∧
      ∃ r s, runImage image o none = .ok r ∧
        runImage (.replicate o.load.toNat 0 ++ image) { o with load := 0 } none = .ok s ∧
        s.ending = .idle .halted ∧ s.ticks = r.ticks ∧ s.core = r.core := by
  intro image o
  obtain ⟨hload, hrun⟩ := placement_law
  have hfit : o.load.toNat + image.length ≤ 65536 := by decide
  have hhalt : (o.run image none).report.ending = .idle .halted := by decide +kernel
  obtain ⟨hok, -, -, -, r, s, hr, hs, hsame⟩ := (hrun image o none).2 hfit
  obtain rfl : (o.run image none).report = r := Except.ok.inj (hok.symm.trans hr)
  refine ⟨?_, ?_, hfit, _, s, hr, hs, hsame.ending.symm.trans hhalt, hsame.ticks.symm,
    hsame.core.symm⟩
  · rw [(hload .zero 0xFFFF image).1 0]
    rfl
  · exact (hrun image { o with load := 0xFFFF } none).1.2 (by decide)

end Sm83
