import Mathlib.Data.List.Infix
import Armv8Driver.Gic.Machine
import Armv8Driver.Uart.Stranded

/-!
# Acknowledge and end of interrupt

`irq_handler` writes to `ICC_EOIR1_EL1` whatever it read from `ICC_IAR1_EL1`. The interrupts that the GIC
holds active are balanced in every run, since a special number neither activates nor ends one; but the
numbers that are written are those of acknowledged interrupts only if no special one is read.
-/

namespace Armv8Driver.Gic

open Transition
open Uart (IrqPc Config Reg TIMER_IRQ UART_IRQ)

/-- What a step writes to `ICC_EOIR1_EL1`. -/
def eoirWrite (s : Machine) : Act → Option (BitVec 64)
  | .handler =>
    match s.cpu.pc with
    | .endInterrupt irq => some (irq.setWidth 64)
    | _ => none
  | _ => none

/-- It is the number of the latest acknowledge that has not been ended. -/
def EndsLatest (s : Machine) (a : Act) : Prop :=
  ∀ w, eoirWrite s a = some w → ∃ id rest, s.active = id :: rest ∧ w = id.setWidth 64 ∧ ¬ Special id

/-- An acknowledge returns the number of an interrupt. -/
def Real (a : Act) : Prop := ∀ id, a = .acknowledge id → ¬ Special id

/-- Along a run, every end of interrupt is that of the latest acknowledge, and where the handler has
returned the active interrupts are those from before. -/
structure Paired (c : Config) (f : BitVec 64) (s : Machine) (acts : List Act) : Prop where
  ends : (system c f).Along EndsLatest s acts
  balanced : ∀ first, first <+: acts → ∀ t, (system c f).run s first = some t → t.cpu.pc = .returned →
    t.active = s.active

/-! ### The number in the handler's hands -/

def number : IrqPc → Option Reg
  | .acknowledge => none
  | .storeLast irq => some irq
  | .countTimer irq => some irq
  | .reloadTimer irq => some irq
  | .uart irq _ => some irq
  | .endInterrupt irq => some irq
  | .returned => none

/-- The handler holds no special number. -/
def Clean (s : Machine) : Prop := ∀ irq, number s.cpu.pc = some irq → ¬ Special (irq.setWidth 24)

/-- `before` is what was active when the handler was called. -/
inductive Balanced (before : List Intid) (s : Machine) : Prop where
  | idle (hnone : number s.cpu.pc = none) (h : s.active = before)
  | spurious (id : Intid) (hid : Special id) (hsome : number s.cpu.pc = some (id.setWidth 32))
    (h : s.active = before)
  | active (id : Intid) (hid : ¬ Special id) (hsome : number s.cpu.pc = some (id.setWidth 32))
    (h : s.active = id :: before)

variable {c : Config} {f : BitVec 64} {s t : Machine} {a : Act} {before : List Intid}

/-- The register sees these writes and no others. -/
theorem Moves.icc_eoir1_el1 (h : Moves f s a t) :
    t.cpu.icc_eoir1_el1 = s.cpu.icc_eoir1_el1 ++ (eoirWrite s a).toList := by
  cases h with
  | endInterrupt irq hpc =>
    have hwrite : eoirWrite s .handler = some (irq.setWidth 64) := by simp [eoirWrite, hpc]
    rw [hwrite]
    rfl
  | storeLast _ hpc | countTimer _ hpc | reloadTimer _ hpc | uart _ _ _ _ hpc | uartReturns _ _ hpc =>
    have hquiet : eoirWrite s .handler = none := by simp [eoirWrite, hpc]
    rw [hquiet]
    exact (List.append_nil _).symm
  | _ => exact (List.append_nil _).symm

@[simp] theorem number_afterTimer (irq : Reg) : number (.afterTimer irq) = some irq := by
  unfold IrqPc.afterTimer
  split_ifs <;> rfl

theorem setWidth_number (id : Intid) : (id.setWidth 32).setWidth 24 = id := by simp

theorem setWidth_write (id : Intid) : (id.setWidth 32).setWidth 64 = id.setWidth 64 := by simp

/-- A step that leaves the number and the active interrupts. -/
theorem Balanced.keep (h : Balanced before s) (hnumber : number t.cpu.pc = number s.cpu.pc)
    (hactive : t.active = s.active) : Balanced before t := by
  cases h with
  | idle hnone h => exact .idle (hnumber.trans hnone) (hactive.trans h)
  | spurious id hid hsome h => exact .spurious id hid (hnumber.trans hsome) (hactive.trans h)
  | active id hid hsome h => exact .active id hid (hnumber.trans hsome) (hactive.trans h)

theorem clean_congr (h : number t.cpu.pc = number s.cpu.pc) : Clean t ↔ Clean s := by
  unfold Clean
  rw [h]

theorem clean_of_none (h : number s.cpu.pc = none) : Clean s := by
  intro irq hsome
  rw [h] at hsome
  cases hsome

theorem clean_iff {id : Intid} (h : number s.cpu.pc = some (id.setWidth 32)) : Clean s ↔ ¬ Special id := by
  unfold Clean
  rw [h]
  simp only [Option.some.injEq, forall_eq']
  rw [setWidth_number]

theorem writeEoir_active (s : Machine) (id : Intid) :
    (s.writeEoir ((id.setWidth 32).setWidth 64)).active = if Special id then s.active else s.active.erase id := by
  have hwidth : ((id.setWidth 32).setWidth 64).setWidth 24 = id := by simp
  rw [Machine.writeEoir, hwidth]

theorem Balanced.clean_of_ends {irq : Reg} (h : Balanced before s) (hnumber : number s.cpu.pc = some irq)
    (hwrite : eoirWrite s a = some (irq.setWidth 64)) (hends : EndsLatest s a) : Clean s := by
  cases h with
  | idle hnone _ => exact clean_of_none hnone
  | active id hid hsome _ => exact (clean_iff hsome).mpr hid
  | spurious id hid hsome _ =>
    cases hnumber.symm.trans hsome
    obtain ⟨id', rest, -, hw, hreal⟩ := hends _ hwrite
    have hsame : id = id' := by
      rw [setWidth_write] at hw
      have hback := congrArg (BitVec.setWidth 24) hw
      simpa using hback
    exact absurd hid (hsame ▸ hreal)

theorem Balanced.ends_of_clean {irq : Reg} (h : Balanced before s) (hnumber : number s.cpu.pc = some irq)
    (hwrite : eoirWrite s a = some (irq.setWidth 64)) (hclean : Clean s) : EndsLatest s a := by
  intro w hw
  rw [hwrite] at hw
  cases hw
  cases h with
  | idle hnone _ => exact nomatch hnone.symm.trans hnumber
  | spurious id hid hsome _ => exact absurd hid ((clean_iff hsome).mp hclean)
  | active id hid hsome h =>
    cases hnumber.symm.trans hsome
    exact ⟨id, before, h, setWidth_write id, hid⟩

theorem Balanced.step (h : Balanced before s) (hstep : Moves f s a t) :
    Balanced before t ∧ (EndsLatest s a ∧ Clean t ↔ Clean s ∧ Real a) := by
  have hkeep : number t.cpu.pc = number s.cpu.pc → t.active = s.active → eoirWrite s a = none →
      (∀ id, a ≠ .acknowledge id) → Balanced before t ∧ (EndsLatest s a ∧ Clean t ↔ Clean s ∧ Real a) := by
    intro hnumber hactive hquiet hreal
    have hends : EndsLatest s a := by
      intro w hw
      rw [hquiet] at hw
      cases hw
    refine ⟨h.keep hnumber hactive, ?_⟩
    rw [clean_congr hnumber]
    exact ⟨fun hp => ⟨hp.2, fun id hid => absurd hid (hreal id)⟩, fun hp => ⟨hends, hp.1⟩⟩
  cases hstep with
  | tick | readFrequency | writeTval | boot | line => exact hkeep rfl rfl rfl nofun
  | irq _ hpc => exact hkeep (by rw [hpc]; rfl) rfl rfl nofun
  | storeLast irq hpc =>
    refine hkeep ?_ rfl (by simp [eoirWrite, hpc]) nofun
    dsimp only
    rw [hpc]
    split_ifs
    · rfl
    · exact number_afterTimer irq
  | reloadTimer irq hpc => exact hkeep (by rw [hpc]; exact number_afterTimer irq) rfl (by simp [eoirWrite, hpc]) nofun
  | countTimer _ hpc | uart _ _ _ _ hpc | uartReturns _ _ hpc =>
    exact hkeep (by rw [hpc]; rfl) rfl (by simp [eoirWrite, hpc]) nofun
  | acknowledge id hpc =>
    have hnone : number s.cpu.pc = none := by rw [hpc]; rfl
    have hbefore : s.active = before := by
      cases h with
      | idle _ h => exact h
      | spurious id' _ hsome _ | active id' _ hsome _ => exact nomatch hnone.symm.trans hsome
    constructor
    · by_cases hid : Special id
      · exact .spurious id hid rfl ((if_pos hid).trans hbefore)
      · exact .active id hid rfl ((if_neg hid).trans (congrArg (List.cons id) hbefore))
    · have hreal : Real (.acknowledge id) ↔ ¬ Special id := by simp [Real]
      rw [@clean_iff _ id rfl, hreal]
      exact ⟨fun hp => ⟨clean_of_none hnone, hp.2⟩, fun hp => ⟨nofun, hp.2⟩⟩
  | endInterrupt irq hpc =>
    have hwrite : eoirWrite s .handler = some (irq.setWidth 64) := by simp [eoirWrite, hpc]
    have hnumber : number s.cpu.pc = some irq := by rw [hpc]; rfl
    constructor
    rotate_left
    · exact ⟨fun hp => ⟨h.clean_of_ends hnumber hwrite hp.1, nofun⟩,
        fun hp => ⟨h.ends_of_clean hnumber hwrite hp.1, clean_of_none rfl⟩⟩
    apply Balanced.idle rfl
    cases h with
    | idle hnone _ => exact nomatch hnone.symm.trans hnumber
    | spurious id hid hsome h =>
      cases hnumber.symm.trans hsome
      exact (writeEoir_active s id).trans ((if_pos hid).trans h)
    | active id hid hsome h =>
      cases hnumber.symm.trans hsome
      rw [← List.erase_cons_head id before, ← h]
      exact (writeEoir_active s id).trans (if_neg hid)

theorem Balanced.run {acts : List Act} (h : Balanced before s) (hrun : (system c f).run s acts = some t) :
    Balanced before t := by
  have hsteps : (system c f).Steps System.Any s t := .of_run (fun _ _ _ => trivial) hrun
  exact hsteps.invariant h fun s a t hs _ hstep => (hs.step (step_moves hstep)).1

/-- The active interrupts are balanced, whatever `ICC_IAR1_EL1` returns. -/
theorem active_balanced {acts : List Act} (h0 : s.cpu.pc = .returned) (hrun : (system c f).run s acts = some t)
    (ht : t.cpu.pc = .returned) : t.active = s.active := by
  have hs : Balanced s.active s := .idle (by rw [h0]; rfl) rfl
  have hnone : number t.cpu.pc = none := by rw [ht]; rfl
  cases hs.run hrun with
  | idle _ h => exact h
  | spurious _ _ hsome _ | active _ _ hsome _ => exact nomatch hnone.symm.trans hsome

/-- In every run from outside the handler, acknowledge and end are paired if no special number is read, and
in a run that has left the handler again only then. -/
theorem paired_iff_real {acts : List Act} (h0 : s.cpu.pc = .returned) (hrun : (system c f).run s acts = some t) :
    ((∀ id, .acknowledge id ∈ acts → ¬ Special id) → Paired c f s acts) ∧
      (t.cpu.pc = .returned → Paired c f s acts → ∀ id, .acknowledge id ∈ acts → ¬ Special id) := by
  have hs : Balanced s.active s := .idle (by rw [h0]; rfl) rfl
  have hclean : Clean s := clean_of_none (by rw [h0]; rfl)
  have hiff := System.Along.deferred (P := EndsLatest) (Q := fun _ a => Real a)
    (fun s a t hs hstep => hs.step (step_moves hstep)) hs hrun
  rw [System.Along.forall_mem_iff hrun] at hiff
  constructor
  · intro hreal
    have hall : ∀ a ∈ acts, Real a := fun a ha id hid => hreal id (hid ▸ ha)
    refine ⟨(hiff.mpr ⟨hclean, hall⟩).1, fun first hfirst u hu hret => active_balanced h0 hu hret⟩
  · intro ht hpaired id hid
    have hall := (hiff.mp ⟨hpaired.ends, clean_of_none (by rw [ht]; rfl)⟩).2
    exact hall _ hid id rfl

/-- The machine in the loop of `main`. -/
def waiting : Machine := { started with main := .idle }

/-- One exception, which the handler does nothing about. -/
def exception (id : Intid) : List Act := [.irq, .acknowledge id, .handler, .handler]

theorem unhandled_paired :
    ((∀ id, .acknowledge id ∈ exception 40 → ¬ Special id) → Paired Uart.qemu 3 waiting (exception 40)) ∧
      (IrqPc.returned = .returned → Paired Uart.qemu 3 waiting (exception 40) →
        ∀ id, .acknowledge id ∈ exception 40 → ¬ Special id) :=
  paired_iff_real (t := ((system Uart.qemu 3).run waiting (exception 40)).get rfl) rfl (Option.some_get _).symm

/-- The line has fallen before the acknowledge, and the handler ends interrupt 1023. -/
theorem spurious_not_paired :
    ((system Uart.qemu 3).run waiting (exception 1023)).isSome ∧ ¬ Paired Uart.qemu 3 waiting (exception 1023) := by
  refine ⟨rfl, fun h => ?_⟩
  obtain ⟨-, h1⟩ := h.ends
  obtain ⟨-, h2⟩ := h1 _ rfl
  obtain ⟨-, h3⟩ := h2 _ rfl
  obtain ⟨hends, -⟩ := h3 _ rfl
  obtain ⟨id, rest, hactive, -⟩ := hends _ rfl
  cases hactive

end Armv8Driver.Gic
