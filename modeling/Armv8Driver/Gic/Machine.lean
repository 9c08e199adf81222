import Armv8Driver.Transition.Log
import Armv8Driver.Uart.Interrupt

/-!
# `irq_handler` between the timer and the GIC

`Uart.Interrupt` has the steps of `irq_handler`. This is what surrounds them: the counter of the generic
timer and its compare value, the interrupts that the GIC holds active, and `main` from `timer_init` up to
the loop at its end. Any time can pass between two steps. An IRQ exception is taken at any moment when
`main` has unmasked them and no other is being handled, and `ICC_IAR1_EL1` then returns any number.
-/

namespace Armv8Driver.Gic

open Transition
open Uart (Config IrqState IrqPc Reg TIMER_IRQ gic_acknowledge gic_end_interrupt irq_handler irqStep timer_reload uart_init
  uart_irq_enable)

/-- A number in the interface registers of the CPU. -/
abbrev Intid := BitVec 24

/-- There was nothing to acknowledge. -/
def Special (id : Intid) : Prop := 1020 ≤ id.toNat ∧ id.toNat ≤ 1023

instance (id : Intid) : Decidable (Special id) := inferInstanceAs (Decidable (_ ∧ _))

def TIMER_ENABLE : BitVec 64 := 1 <<< 0

/-- Where `main` is. The first three are in `timer_init`. -/
inductive MainPc where
  | readFrequency | writeTval | writeCtl
  | uartInit | uartIrqEnable
  | unmask
  | idle
  deriving DecidableEq

/-- `now` is `CNTPCT_EL0`, and `active` has the latest acknowledge first. -/
structure Machine where
  now : Nat
  cntp_cval_el0 : Int
  cntp_ctl_el0 : BitVec 64
  active : List Intid
  main : MainPc
  cpu : IrqState

namespace Machine

/-- The register holds a signed distance of 32 bits. -/
def writeTval (w : BitVec 64) (s : Machine) : Machine :=
  { s with cntp_cval_el0 := s.now + (w.setWidth 32).toInt }

/-- A write of a special number is ignored. -/
def writeEoir (w : BitVec 64) (s : Machine) : Machine :=
  let id : Intid := w.setWidth 24
  { s with active := if Special id then s.active else s.active.erase id }

/-- What has been written to a register since. -/
def since (before after : List (BitVec 64)) : List (BitVec 64) := after.drop before.length

/-- The CPU has come to a new state, and the timer and the GIC see what it has written to their registers. -/
def follow (s : Machine) (cpu : IrqState) : Machine :=
  let timed := (since s.cpu.cntp_tval_el0 cpu.cntp_tval_el0).foldl (fun s w => s.writeTval w) s
  { (since s.cpu.icc_eoir1_el1 cpu.icc_eoir1_el1).foldl (fun s w => s.writeEoir w) timed with cpu := cpu }

/-- `f` is what `CNTFRQ_EL0` holds. -/
def mainStep (f : BitVec 64) (s : Machine) : Option Machine :=
  match s.main with
  | .readFrequency => some { s with cpu := { s.cpu with timer_freq := f }, main := .writeTval }
  | .writeTval =>
    some { s.follow { s.cpu with cntp_tval_el0 := s.cpu.cntp_tval_el0 ++ [s.cpu.timer_freq] } with main := .writeCtl }
  | .writeCtl => some { s with cntp_ctl_el0 := TIMER_ENABLE, main := .uartInit }
  | .uartInit => some { s with cpu := { s.cpu with device := uart_init s.cpu.device }, main := .uartIrqEnable }
  | .uartIrqEnable => some { s with cpu := { s.cpu with device := uart_irq_enable s.cpu.device }, main := .unmask }
  | .unmask => some { s with main := .idle }
  | .idle => none

/-- The exception is taken. -/
def irq (s : Machine) : Option Machine :=
  if s.main = .idle ∧ s.cpu.pc = .returned then some { s with cpu := { s.cpu with pc := .acknowledge } } else none

def acknowledge (c : Config) (id : Intid) (s : Machine) : Option Machine :=
  if s.cpu.pc = .acknowledge then
    (irq_handler c { s.cpu with icc_iar1_el1 := id.setWidth 64 }).map fun cpu =>
      { s with cpu := cpu, active := if Special id then s.active else id :: s.active }
  else none

/-- A step of the handler behind the acknowledge. -/
def handler (c : Config) (s : Machine) : Option Machine :=
  if s.cpu.pc = .acknowledge then none else (irq_handler c s.cpu).map s.follow

end Machine

inductive Act where
  | tick
  | main
  | irq
  | acknowledge (id : Intid)
  | handler
  | line (a : Uart.Action)
  deriving DecidableEq

def step (c : Config) (f : BitVec 64) (s : Machine) : Act → Option Machine
  | .tick => some { s with now := s.now + 1 }
  | .main => s.mainStep f
  | .irq => s.irq
  | .acknowledge id => s.acknowledge c id
  | .handler => s.handler c
  | .line a => if a = .handler then none else (irqStep c s.cpu a).map fun cpu => { s with cpu := cpu }

/-- `timer_init` is called. -/
def system (c : Config) (f : BitVec 64) : System Machine Act where
  init s := s.main = .readFrequency ∧ s.cpu.pc = .returned ∧ s.cpu.timer_freq = 10 ∧ s.cpu.timer_irq_count = 0
  step := step c f

/-- An initial state, with the UART at rest. -/
def started : Machine where
  now := 5
  cntp_cval_el0 := 0
  cntp_ctl_el0 := 0
  active := []
  main := .readFrequency
  cpu :=
    { device := ⟨[], 0, 0, 0, 0, 0, [], []⟩
      icc_iar1_el1 := 0
      icc_eoir1_el1 := []
      cntp_tval_el0 := []
      timer_freq := 10
      timer_irq_count := 0
      last_irq := 0
      pc := .returned }

/-- `timer_init` has programmed the timer. -/
def MainPc.Programmed (pc : MainPc) : Prop := pc ≠ .readFrequency ∧ pc ≠ .writeTval

/-! ### What a step does -/

/-- The steps, whatever they do to the UART. -/
inductive Moves (f : BitVec 64) (s : Machine) : Act → Machine → Prop where
  | tick : Moves f s .tick { s with now := s.now + 1 }
  | readFrequency (h : s.main = .readFrequency) :
    Moves f s .main { s with cpu := { s.cpu with timer_freq := f }, main := .writeTval }
  | writeTval (h : s.main = .writeTval) :
    Moves f s .main { s.writeTval s.cpu.timer_freq with
      cpu := { s.cpu with cntp_tval_el0 := s.cpu.cntp_tval_el0 ++ [s.cpu.timer_freq] }, main := .writeCtl }
  | boot (ctl : BitVec 64) (d : Uart.Pl011) (pc : MainPc) (h : s.main.Programmed) (hpc : pc.Programmed) :
    Moves f s .main { s with cntp_ctl_el0 := ctl, cpu := { s.cpu with device := d }, main := pc }
  | irq (h : s.main = .idle) (hpc : s.cpu.pc = .returned) :
    Moves f s .irq { s with cpu := { s.cpu with pc := .acknowledge } }
  | acknowledge (id : Intid) (hpc : s.cpu.pc = .acknowledge) :
    Moves f s (.acknowledge id) { s with
      cpu := { s.cpu with icc_iar1_el1 := id.setWidth 64, pc := .storeLast (id.setWidth 32) }
      active := if Special id then s.active else id :: s.active }
  | storeLast (irq : Reg) (hpc : s.cpu.pc = .storeLast irq) :
    Moves f s .handler { s with cpu := { s.cpu with
      last_irq := irq.setWidth 64, pc := if irq = TIMER_IRQ then .countTimer irq else .afterTimer irq } }
  | countTimer (irq : Reg) (hpc : s.cpu.pc = .countTimer irq) :
    Moves f s .handler { s with cpu := { s.cpu with
      timer_irq_count := s.cpu.timer_irq_count + 1, pc := .reloadTimer irq } }
  | reloadTimer (irq : Reg) (hpc : s.cpu.pc = .reloadTimer irq) :
    Moves f s .handler { s.writeTval s.cpu.timer_freq with
      cpu := { timer_reload s.cpu with pc := .afterTimer irq } }
  | uart (irq : Reg) (h h' : Uart.HandlerPc) (d : Uart.Pl011) (hpc : s.cpu.pc = .uart irq h) :
    Moves f s .handler { s with cpu := { s.cpu with device := d, pc := .uart irq h' } }
  | uartReturns (irq : Reg) (h : Uart.HandlerPc) (hpc : s.cpu.pc = .uart irq h) :
    Moves f s .handler { s with cpu := { s.cpu with pc := .endInterrupt irq } }
  | endInterrupt (irq : Reg) (hpc : s.cpu.pc = .endInterrupt irq) :
    Moves f s .handler { s.writeEoir (irq.setWidth 64) with
      cpu := { gic_end_interrupt s.cpu irq with pc := .returned } }
  | line (a : Uart.Action) (d : Uart.Pl011) : Moves f s (.line a) { s with cpu := { s.cpu with device := d } }

variable {c : Config} {f : BitVec 64} {s t : Machine} {a : Act}

theorem since_self (l : List (BitVec 64)) : Machine.since l l = [] := List.drop_length

theorem since_concat (l : List (BitVec 64)) (w : BitVec 64) : Machine.since l (l ++ [w]) = [w] := List.drop_left

theorem follow_quiet {cpu : IrqState} (htval : cpu.cntp_tval_el0 = s.cpu.cntp_tval_el0)
    (heoir : cpu.icc_eoir1_el1 = s.cpu.icc_eoir1_el1) : s.follow cpu = { s with cpu := cpu } := by
  rw [Machine.follow, htval, heoir, since_self, since_self]
  rfl

/-- The timer sees the value that is written. -/
theorem follow_tval (cpu : IrqState) {w : BitVec 64} (htval : cpu.cntp_tval_el0 = s.cpu.cntp_tval_el0 ++ [w])
    (heoir : cpu.icc_eoir1_el1 = s.cpu.icc_eoir1_el1) : s.follow cpu = { s.writeTval w with cpu := cpu } := by
  rw [Machine.follow, htval, heoir, since_concat, since_self]
  rfl

/-- The GIC sees the number that is written. -/
theorem follow_eoir (cpu : IrqState) {w : BitVec 64} (htval : cpu.cntp_tval_el0 = s.cpu.cntp_tval_el0)
    (heoir : cpu.icc_eoir1_el1 = s.cpu.icc_eoir1_el1 ++ [w]) : s.follow cpu = { s.writeEoir w with cpu := cpu } := by
  rw [Machine.follow, htval, heoir, since_self, since_concat]
  rfl

theorem mainStep_moves (h : s.mainStep f = some t) : Moves f s .main t := by
  unfold Machine.mainStep at h
  split at h
  case h_1 hmain =>
    cases h
    exact .readFrequency hmain
  case h_2 hmain =>
    rw [follow_tval { s.cpu with cntp_tval_el0 := s.cpu.cntp_tval_el0 ++ [s.cpu.timer_freq] } rfl rfl] at h
    cases h
    exact .writeTval hmain
  case h_7 => cases h
  all_goals
    cases h
    exact .boot _ _ _ (by simp [MainPc.Programmed, *]) (by simp [MainPc.Programmed])

theorem acknowledge_moves {id : Intid} (h : s.acknowledge c id = some t) : Moves f s (.acknowledge id) t := by
  obtain ⟨hpc, h⟩ := Option.ite_none_right_eq_some.mp h
  obtain ⟨cpu, hcpu, rfl⟩ := Option.map_eq_some_iff.mp h
  simp only [irq_handler, hpc, gic_acknowledge, Option.some.injEq] at hcpu
  have hwidth : (id.setWidth 64).setWidth 32 = id.setWidth 32 := by simp
  rw [hwidth] at hcpu
  subst hcpu
  exact .acknowledge id hpc

theorem handler_moves (h : s.handler c = some t) : Moves f s .handler t := by
  obtain ⟨hne, h⟩ := Option.ite_none_left_eq_some.mp h
  obtain ⟨cpu, hcpu, rfl⟩ := Option.map_eq_some_iff.mp h
  cases hpc : s.cpu.pc with
  | acknowledge => exact absurd hpc hne
  | storeLast irq =>
    simp only [irq_handler, hpc, Option.some.injEq] at hcpu
    subst hcpu
    simp only [follow_quiet]
    exact .storeLast irq hpc
  | countTimer irq =>
    simp only [irq_handler, hpc, Option.some.injEq] at hcpu
    subst hcpu
    simp only [follow_quiet]
    exact .countTimer irq hpc
  | reloadTimer irq =>
    simp only [irq_handler, hpc, Option.some.injEq] at hcpu
    subst hcpu
    rw [follow_tval { timer_reload s.cpu with pc := .afterTimer irq } rfl rfl]
    exact .reloadTimer irq hpc
  | uart irq pc =>
    simp only [irq_handler, hpc] at hcpu
    split at hcpu
    case h_1 d pc' _ =>
      cases hcpu
      simp only [follow_quiet]
      exact .uart irq pc pc' d hpc
    case h_2 =>
      cases hcpu
      simp only [follow_quiet]
      exact .uartReturns irq pc hpc
  | endInterrupt irq =>
    simp only [irq_handler, hpc, Option.some.injEq] at hcpu
    subst hcpu
    rw [follow_eoir { gic_end_interrupt s.cpu irq with pc := .returned } rfl rfl]
    exact .endInterrupt irq hpc
  | returned => simp [irq_handler, hpc] at hcpu

/-- The line and its device leave the rest of the CPU. -/
theorem irqStep_device {cpu cpu' : IrqState} {a : Uart.Action} (ha : a ≠ .handler)
    (h : irqStep c cpu a = some cpu') : cpu' = { cpu with device := cpu'.device } := by
  cases a with
  | handler => exact absurd rfl ha
  | receive w =>
    cases h
    rfl
  | transmit =>
    obtain ⟨d, -, hd⟩ := Option.bind_eq_some_iff.mp h
    cases hd
    rfl
  | timeout =>
    obtain ⟨d, -, hd⟩ := Option.bind_eq_some_iff.mp h
    cases hd
    rfl

theorem step_moves (h : step c f s a = some t) : Moves f s a t := by
  cases a with
  | tick =>
    cases h
    exact .tick
  | main => exact mainStep_moves h
  | irq =>
    obtain ⟨hidle, h⟩ := Option.ite_none_right_eq_some.mp h
    cases h
    exact .irq hidle.1 hidle.2
  | acknowledge id => exact acknowledge_moves h
  | handler => exact handler_moves h
  | line a =>
    obtain ⟨ha, h⟩ := Option.ite_none_left_eq_some.mp h
    obtain ⟨cpu, hcpu, rfl⟩ := Option.map_eq_some_iff.mp h
    rw [irqStep_device ha hcpu]
    exact .line a cpu.device

end Armv8Driver.Gic
