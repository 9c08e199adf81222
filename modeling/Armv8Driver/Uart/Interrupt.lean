import Armv8Driver.Uart.Model

/-!
# `irq_handler` and the line of the PL011

`irq_handler` of `vectorHandler.c` around `uart_irq_handler`: it takes the number of the interrupt from
`ICC_IAR1_EL1`, serves the timer or the UART, and writes the number to `ICC_EOIR1_EL1`. A run starts where
IRQ 33 is taken, that is where one of the two sources that `uart_irq_enable` unmasks asserts the line.
`Enabled` is what holds of the device from `uart_irq_enable` on.
-/

namespace Armv8Driver.Uart

open Transition

/-- The two sources that `uart_irq_enable` unmasks. -/
def UART_INT : Reg := UART_INT_RX ||| UART_INT_RT

/-- The device asserts its interrupt line. -/
def Pl011.Asserted (d : Pl011) : Prop := d.mis &&& UART_INT ≠ 0

/-- The sources are unmasked, and a status that is set has its reason in the FIFO. -/
structure Enabled (c : Config) (d : Pl011) : Prop where
  rxMask : d.imsc.getLsbD 4 = true
  rtMask : d.imsc.getLsbD 6 = true
  rx : d.ris.getLsbD 4 = true → c.trigger ≤ d.rxFifo.length
  rt : d.ris.getLsbD 6 = true → d.rxFifo ≠ []

/-- Where `irq_handler` is, after `acknowledge` with the number of the interrupt. -/
inductive IrqPc where
  | acknowledge
  | storeLast (irq : Reg)
  | countTimer (irq : Reg) | reloadTimer (irq : Reg)
  | uart (irq : Reg) (h : HandlerPc)
  | endInterrupt (irq : Reg)
  | returned
  deriving DecidableEq

/-- `icc_iar1_el1` is what the CPU interface says when it is asked; `icc_eoir1_el1` and `cntp_tval_el0` are what
has been written to them so far. -/
structure IrqState where
  device : Pl011
  icc_iar1_el1 : BitVec 64
  icc_eoir1_el1 : List (BitVec 64)
  cntp_tval_el0 : List (BitVec 64)
  timer_freq : BitVec 64
  timer_irq_count : BitVec 64
  last_irq : BitVec 64
  pc : IrqPc

def UART_IRQ : Reg := 33
def TIMER_IRQ : Reg := 30

def gic_acknowledge (s : IrqState) : Reg := s.icc_iar1_el1.setWidth 32

def gic_end_interrupt (s : IrqState) (irq : Reg) : IrqState :=
  { s with icc_eoir1_el1 := s.icc_eoir1_el1 ++ [irq.setWidth 64] }

def timer_reload (s : IrqState) : IrqState := { s with cntp_tval_el0 := s.cntp_tval_el0 ++ [s.timer_freq] }

/-- Where `irq_handler` goes on behind its part for the timer. -/
def IrqPc.afterTimer (irq : Reg) : IrqPc := if irq = UART_IRQ then .uart irq .readMis else .endInterrupt irq

def irq_handler (c : Config) (s : IrqState) : Option IrqState :=
  match s.pc with
  | .acknowledge => some { s with pc := .storeLast (gic_acknowledge s) }
  | .storeLast irq =>
    some { s with last_irq := irq.setWidth 64, pc := if irq = TIMER_IRQ then .countTimer irq else .afterTimer irq }
  | .countTimer irq => some { s with timer_irq_count := s.timer_irq_count + 1, pc := .reloadTimer irq }
  | .reloadTimer irq => some { timer_reload s with pc := .afterTimer irq }
  | .uart irq h =>
    match uart_irq_handler c s.device h with
    | some (d, h') => some { s with device := d, pc := .uart irq h' }
    | none => some { s with pc := .endInterrupt irq }
  | .endInterrupt irq => some { gic_end_interrupt s irq with pc := .returned }
  | .returned => none

/-- The steps of the handler and of the line, as in `step`. -/
def irqStep (c : Config) (s : IrqState) : Action → Option IrqState
  | .handler => irq_handler c s
  | .receive w => some { s with device := s.device.receive c w }
  | .transmit => do
    let d ← s.device.transmit
    some { s with device := d }
  | .timeout => do
    let d ← s.device.timeout
    some { s with device := d }

/-- IRQ 33 is taken. -/
def irqSystem (c : Config) : System IrqState Action where
  init s := s.pc = .acknowledge ∧ gic_acknowledge s = UART_IRQ ∧ Enabled c s.device ∧ s.device.Asserted
  step := irqStep c

variable {c : Config} {s t : IrqState} {d : Pl011} {w : Reg}

/-! ### The two sources -/

theorem Enabled.asserted_iff (h : Enabled c d) :
    d.Asserted ↔ d.ris.getLsbD 4 = true ∨ d.ris.getLsbD 6 = true := by
  have hrx : d.mis &&& UART_INT_RX ≠ 0 ↔ d.ris.getLsbD 4 = true := by
    rw [UART_INT_RX, and_bit_ne_zero (by decide), Pl011.mis, BitVec.getLsbD_and, h.rxMask, Bool.and_true]
  have hrt : d.mis &&& UART_INT_RT ≠ 0 ↔ d.ris.getLsbD 6 = true := by
    rw [UART_INT_RT, and_bit_ne_zero (by decide), Pl011.mis, BitVec.getLsbD_and, h.rtMask, Bool.and_true]
  have hnone : ∀ x y : Reg, x ||| y = 0 ↔ x = 0 ∧ y = 0 := fun _ _ => BitVec.or_eq_zero_iff
  rw [← hrx, ← hrt, Pl011.Asserted, UART_INT, BitVec.and_or_distrib_left, ne_eq, hnone, not_and_or]

theorem Enabled.fifo_ne_nil (h : Enabled c d) (ha : d.Asserted) : d.rxFifo ≠ [] := by
  rcases h.asserted_iff.mp ha with hrx | hrt
  · have hlevel := h.rx hrx
    have hpos := c.trigger_pos
    intro hempty
    rw [hempty, List.length_nil] at hlevel
    omega
  · exact h.rt hrt

/-- An empty FIFO asserts nothing. -/
theorem Enabled.not_asserted (h : Enabled c d) (hempty : d.rxFifo = []) : ¬ d.Asserted :=
  fun ha => h.fifo_ne_nil ha hempty

/-! ### What keeps the device enabled -/

/-- The driver's two calls in `main` enable the device, whatever is in its FIFO. -/
theorem enabled_of_init : Enabled c (uart_irq_enable (uart_init d)) := by
  constructor <;> simp [uart_irq_enable, uart_init, Pl011.writeIcr, UART_INT_RX, UART_INT_RT]

/-- An operation that only clears status bits and leaves the FIFO. -/
theorem Enabled.clear {d' : Pl011} (h : Enabled c d) (hfifo : d'.rxFifo = d.rxFifo) (himsc : d'.imsc = d.imsc)
    (hris : ∀ i, d'.ris.getLsbD i = true → d.ris.getLsbD i = true) : Enabled c d' := by
  refine ⟨himsc ▸ h.rxMask, himsc ▸ h.rtMask, fun hrx => ?_, fun hrt => ?_⟩
  · rw [hfifo]
    exact h.rx (hris 4 hrx)
  · rw [hfifo]
    exact h.rt (hris 6 hrt)

theorem Enabled.writeIcr (h : Enabled c d) : Enabled c (d.writeIcr w) := by
  refine @Enabled.clear c d (d.writeIcr w) h rfl rfl ?_
  intro i hi
  simp only [Pl011.writeIcr, BitVec.getLsbD_and, Bool.and_eq_true] at hi
  exact hi.1

theorem Enabled.writeDr (h : Enabled c d) : Enabled c (d.writeDr c w) := h.clear rfl rfl fun _ hi => hi

theorem Enabled.transmit {d' : Pl011} (h : Enabled c d) (ht : d.transmit = some d') : Enabled c d' := by
  rw [Pl011.transmit_eq_some ht]
  exact h.clear rfl rfl fun _ hi => hi

theorem Enabled.timeout {d' : Pl011} (h : Enabled c d) (ht : d.timeout = some d') :
    Enabled c d' ∧ d'.rxFifo = d.rxFifo ∧ d'.rxPending = d.rxPending := by
  have hframe := Pl011.timeout_eq_some ht
  obtain ⟨hne, hs⟩ := Option.ite_none_left_eq_some.mp ht
  cases hs
  refine ⟨⟨h.rxMask, h.rtMask, fun hrx => h.rx ?_, fun _ => hne⟩, rfl, hframe.2⟩
  simpa [UART_INT_RT] using hrx

theorem Enabled.receive (h : Enabled c d) : Enabled c (d.receive c w) := by
  refine ⟨h.rxMask, h.rtMask, fun hrx => ?_, fun _ => by simp⟩
  rw [Pl011.receive_rxFifo, List.length_append, List.length_singleton]
  by_cases hlevel : d.rxFifo.length + 1 = c.trigger
  · omega
  · rw [Pl011.receive, if_neg hlevel] at hrx
    have hle := h.rx hrx
    omega

/-- Draining the FIFO takes the status away that has lost its reason. -/
theorem Enabled.readDr (h : Enabled c d) : Enabled c (d.readDr c).2 := by
  cases hfifo : d.rxFifo with
  | nil =>
    have hsame : (d.readDr c).2 = d := by rw [Pl011.readDr, hfifo]
    rw [hsame]
    exact h
  | cons w rest =>
    have hstatus : (d.readDr c).2 = { d with
        rxFifo := rest
        ris := if rest = [] then d.rxStatus c rest.length &&& ~~~UART_INT_RT else d.rxStatus c rest.length
        popped := d.popped ++ [w] } := by rw [Pl011.readDr, hfifo]
    rw [hstatus]
    have hrx : (d.rxStatus c rest.length).getLsbD 4 = true → c.trigger ≤ rest.length := by
      intro hrx
      by_contra hlow
      simp [Pl011.rxStatus, Nat.lt_of_not_le hlow, UART_INT_RX] at hrx
    refine ⟨h.rxMask, h.rtMask, fun hset => ?_, fun hset hempty => ?_⟩
    · apply hrx
      dsimp only at hset
      split_ifs at hset with hempty
      · simp only [BitVec.getLsbD_and, Bool.and_eq_true] at hset
        exact hset.1
      · exact hset
    · dsimp only at hset hempty
      simp [hempty, UART_INT_RT] at hset

theorem uart_irq_handler_enabled {d' : Pl011} {h h' : HandlerPc} (henabled : Enabled c d)
    (hstep : uart_irq_handler c d h = some (d', h')) : Enabled c d' := by
  cases h with
  | readDr =>
    obtain ⟨rfl, -⟩ := Prod.mk.inj (Option.some.inj hstep)
    exact henabled.readDr
  | writeDr ch rest =>
    cases hstep
    exact henabled.writeDr
  | writeIcr =>
    cases hstep
    exact henabled.writeIcr
  | returned => cases hstep
  | _ =>
    cases hstep
    exact henabled

/-- The device stays enabled, whatever `irq_handler` and the line do. -/
theorem Enabled.step {a : Action} (henabled : Enabled c s.device) (h : irqStep c s a = some t) : Enabled c t.device := by
  cases a with
  | handler =>
    have hstep : irq_handler c s = some t := h
    unfold irq_handler at hstep
    split at hstep
    case h_5 irq pc huart =>
      split at hstep
      case h_1 d pc' hhandler =>
        cases hstep
        exact uart_irq_handler_enabled henabled hhandler
      case h_2 =>
        cases hstep
        exact henabled
    case h_7 => cases hstep
    all_goals
      cases hstep
      exact henabled
  | receive w =>
    cases h
    exact henabled.receive
  | transmit =>
    obtain ⟨d, hd, hs⟩ := Option.bind_eq_some_iff.mp h
    cases hs
    exact henabled.transmit hd
  | timeout =>
    obtain ⟨d, hd, hs⟩ := Option.bind_eq_some_iff.mp h
    cases hs
    exact (henabled.timeout hd).1

end Armv8Driver.Uart
