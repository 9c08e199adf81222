import Armv8Driver.Uart.Interrupt
import Armv8Driver.Uart.Stranded

/-!
# Whether `irq_handler` quenches the line

`uart_irq_handler` looks at the receive interrupt alone. When it is pending the handler drains the FIFO,
which takes the reason away from both sources; when only the receive timeout asserts the line it returns
with the FIFO as it was. `Quenching` says of a state inside `irq_handler` how far that is decided.
-/

namespace Armv8Driver.Uart

open Transition

variable {c : Config} {s t : IrqState} {rx : Bool}

/-- Nothing is left in the FIFO and the line is not asserted. -/
def Quenched (d : Pl011) : Prop := d.rxFifo = [] ∧ ¬ d.Asserted

/-- No byte arrives. -/
def NoArrival (_ : IrqState) (a : Action) : Prop := ∀ w, a ≠ .receive w

/-- Before the handler has looked at the interrupt, which is pending if `rx`, there is a byte; afterwards it
drains the FIFO if `rx` and leaves it alone if not. -/
def IrqPc.Quenching (rx : Bool) (d : Pl011) : IrqPc → Prop
  | .acknowledge => d.rxPending = rx ∧ d.rxFifo ≠ []
  | .storeLast irq => irq = UART_IRQ ∧ d.rxPending = rx ∧ d.rxFifo ≠ []
  | .countTimer _ | .reloadTimer _ => False
  | .uart _ .readMis => d.rxPending = rx ∧ d.rxFifo ≠ []
  | .uart _ .readDr => rx = true ∧ d.rxFifo ≠ []
  | .uart _ .readFr | .uart _ (.pollFr ..) | .uart _ (.writeDr ..) => rx = true
  | .uart _ .writeIcr => rx = true ∧ d.rxFifo = []
  | .uart _ .returned | .endInterrupt _ | .returned => d.rxFifo = [] ↔ rx = true

structure Quenching (c : Config) (rx : Bool) (s : IrqState) : Prop where
  enabled : Enabled c s.device
  irq : s.pc = .acknowledge → gic_acknowledge s = UART_IRQ
  pc : s.pc.Quenching rx s.device

theorem quenching_send {irq : Reg} {l : List Byte} {d : Pl011} (h : rx = true) :
    (IrqPc.uart irq (.send l)).Quenching rx d := by
  cases l <;> exact h

theorem uart_irq_handler_quenching {d d' : Pl011} {h h' : HandlerPc} {irq : Reg}
    (hq : (IrqPc.uart irq h).Quenching rx d) (hstep : uart_irq_handler c d h = some (d', h')) :
    (IrqPc.uart irq h').Quenching rx d' := by
  cases h with
  | readMis =>
    obtain ⟨hpending, hne⟩ := hq
    cases hstep
    by_cases hrx : d.mis &&& UART_INT_RX ≠ 0
    · rw [if_pos hrx]
      exact hpending ▸ decide_eq_true hrx
    · rw [if_neg hrx]
      have hnot : rx = false := hpending ▸ decide_eq_false hrx
      exact iff_of_false hne (by simp [hnot])
  | readFr =>
    have hrx : rx = true := hq
    cases hstep
    by_cases hmore : d.fr c &&& UART_FR_RXFE = 0
    · rw [if_pos hmore]
      exact ⟨hrx, Pl011.fr_rxfe.mp hmore⟩
    · rw [if_neg hmore]
      refine ⟨hrx, ?_⟩
      by_contra hne
      exact hmore (Pl011.fr_rxfe.mpr hne)
  | readDr =>
    obtain ⟨hrx, -⟩ := hq
    obtain ⟨rfl, rfl⟩ := Prod.mk.inj (Option.some.inj hstep)
    exact quenching_send hrx
  | pollFr ch rest =>
    have hrx : rx = true := hq
    cases hstep
    split_ifs <;> exact hrx
  | writeDr ch rest =>
    have hrx : rx = true := hq
    cases hstep
    exact quenching_send hrx
  | writeIcr =>
    obtain ⟨hrx, hempty⟩ := hq
    cases hstep
    exact iff_of_true hempty hrx
  | returned => cases hstep

/-- The timer's part is not for IRQ 33. -/
theorem afterTimer_uart : IrqPc.afterTimer UART_IRQ = .uart UART_IRQ .readMis := if_pos rfl

theorem Quenching.handler (hq : Quenching c rx s) (h : irq_handler c s = some t) : Quenching c rx t := by
  have henabled : Enabled c t.device := hq.enabled.step (a := .handler) h
  obtain ⟨-, hirq, hpc⟩ := hq
  unfold irq_handler at h
  split at h
  case h_1 hacknowledge =>
    cases h
    rw [hacknowledge] at hpc
    exact ⟨henabled, nofun, hirq hacknowledge, hpc⟩
  case h_2 irq hstore =>
    cases h
    rw [hstore] at hpc
    obtain ⟨rfl, hpending⟩ := hpc
    have hnext : (if UART_IRQ = TIMER_IRQ then IrqPc.countTimer UART_IRQ else .afterTimer UART_IRQ) =
        .uart UART_IRQ .readMis := by rw [if_neg (by decide), afterTimer_uart]
    simp only [hnext]
    exact ⟨henabled, nofun, hpending⟩
  case h_3 irq hcount =>
    rw [hcount] at hpc
    exact hpc.elim
  case h_4 irq hreload =>
    rw [hreload] at hpc
    exact hpc.elim
  case h_5 irq pc huart =>
    rw [huart] at hpc
    split at h
    case h_1 d pc' hstep =>
      cases h
      exact ⟨henabled, nofun, uart_irq_handler_quenching hpc hstep⟩
    case h_2 hnone =>
      cases h
      have hret : pc = .returned := by cases pc <;> first | rfl | cases hnone
      subst hret
      exact ⟨henabled, nofun, hpc⟩
  case h_6 irq hend =>
    cases h
    rw [hend] at hpc
    exact ⟨henabled, nofun, hpc⟩
  case h_7 => cases h

/-- Nothing else than an arrival changes what the handler decides on. -/
theorem IrqPc.Quenching.congr {pc : IrqPc} {d d' : Pl011} (h : pc.Quenching rx d) (hfifo : d'.rxFifo = d.rxFifo)
    (hpending : d'.rxPending = d.rxPending) : pc.Quenching rx d' := by
  cases pc with
  | countTimer | reloadTimer => exact h.elim
  | uart irq pc => cases pc <;> simpa only [IrqPc.Quenching, hfifo, hpending] using h
  | _ => simpa only [IrqPc.Quenching, hfifo, hpending] using h

theorem Quenching.step {a : Action} (hq : Quenching c rx s) (hquiet : NoArrival s a) (h : irqStep c s a = some t) :
    Quenching c rx t := by
  have henabled : Enabled c t.device := hq.enabled.step h
  cases a with
  | handler => exact hq.handler h
  | receive w => exact absurd rfl (hquiet w)
  | transmit =>
    obtain ⟨d, hd, hs⟩ := Option.bind_eq_some_iff.mp h
    cases hs
    have hframe := Pl011.transmit_eq_some hd
    refine ⟨henabled, hq.irq, hq.pc.congr ?_ ?_⟩
    · rw [hframe]
    · rw [hframe]
      rfl
  | timeout =>
    obtain ⟨d, hd, hs⟩ := Option.bind_eq_some_iff.mp h
    cases hs
    obtain ⟨-, hfifo, hpending⟩ := hq.enabled.timeout hd
    exact ⟨henabled, hq.irq, hq.pc.congr hfifo hpending⟩

theorem Quenching.init (hs : (irqSystem c).init s) : Quenching c s.device.rxPending s := by
  obtain ⟨hpc, hirq, henabled, hasserted⟩ := hs
  refine ⟨henabled, fun _ => hirq, ?_⟩
  rw [hpc]
  exact ⟨rfl, henabled.fifo_ne_nil hasserted⟩

/-! ### The handler returns -/

/-- `uart_tx` waits for room in the transmit FIFO. -/
def IrqState.spins (c : Config) (s : IrqState) : Bool :=
  match s.pc with
  | .uart _ (.pollFr ..) => s.device.txLevel = c.txDepth
  | _ => false

/-- The handler does not poll in vain, and a character leaves when it would. -/
def Productive (c : Config) (s : IrqState) : Action → Prop
  | .handler => s.spins c = false
  | .transmit => s.spins c = true
  | _ => False

/-- How many steps `uart_irq_handler` is from its return: at most 43 for each byte in the FIFO. -/
def HandlerPc.rank (c : Config) (d : Pl011) : HandlerPc → Nat
  | .readMis => 43 * d.rxFifo.length + 3
  | .readFr => 43 * d.rxFifo.length + 2
  | .readDr => 43 * d.rxFifo.length + 1
  | .pollFr _ rest => 43 * d.rxFifo.length + 3 * rest.length + 4 + (d.txLevel = c.txDepth : Bool).toNat
  | .writeDr _ rest => 43 * d.rxFifo.length + 3 * rest.length + 3
  | .writeIcr => 1
  | .returned => 0

def IrqState.rank (c : Config) (s : IrqState) : Nat :=
  match s.pc with
  | .acknowledge => 43 * s.device.rxFifo.length + 9
  | .storeLast _ => 43 * s.device.rxFifo.length + 8
  | .countTimer _ => 43 * s.device.rxFifo.length + 7
  | .reloadTimer _ => 43 * s.device.rxFifo.length + 6
  | .uart _ h => h.rank c s.device + 2
  | .endInterrupt _ => 1
  | .returned => 0

theorem echo_length (ch : Byte) : (echo ch).length = 13 := rfl

theorem rank_send_le {d : Pl011} {l : List Byte} :
    (HandlerPc.send l).rank c d ≤ 43 * d.rxFifo.length + 3 * l.length + 2 := by
  cases l with
  | nil => exact Nat.le_refl _
  | cons ch rest =>
    have hle := Bool.toNat_le (d.txLevel = c.txDepth : Bool)
    simp only [HandlerPc.send, HandlerPc.rank, List.length_cons]
    omega

theorem uart_irq_handler_rank {d d' : Pl011} {h h' : HandlerPc} {irq : Reg}
    (hq : (IrqPc.uart irq h).Quenching rx d) (hspins : ∀ ch rest, h = .pollFr ch rest → d.txLevel ≠ c.txDepth)
    (hstep : uart_irq_handler c d h = some (d', h')) : h'.rank c d' < h.rank c d := by
  cases h with
  | readMis =>
    cases hstep
    split_ifs <;> simp only [HandlerPc.rank] <;> omega
  | readFr =>
    cases hstep
    split_ifs <;> simp only [HandlerPc.rank] <;> omega
  | readDr =>
    obtain ⟨-, hne⟩ := hq
    obtain ⟨rfl, rfl⟩ := Prod.mk.inj (Option.some.inj hstep)
    obtain ⟨w, rest, hfifo⟩ := List.exists_cons_of_ne_nil hne
    have hrest : (d.readDr c).2.rxFifo = rest := by simp only [Pl011.readDr, hfifo]
    have hle := @rank_send_le c (d.readDr c).2 (echo (((d.readDr c).1 &&& 0xFF).setWidth 8))
    rw [echo_length, hrest] at hle
    have hread : (HandlerPc.readDr).rank c d = 43 * (rest.length + 1) + 1 := by
      rw [HandlerPc.rank, hfifo, List.length_cons]
    refine Nat.lt_of_le_of_lt hle ?_
    rw [hread]
    omega
  | pollFr ch rest =>
    have hroom := hspins ch rest rfl
    cases hstep
    rw [if_neg (Pl011.fr_txff.not.mpr hroom)]
    simp only [HandlerPc.rank]
    omega
  | writeDr ch rest =>
    cases hstep
    have hle := @rank_send_le c (d.writeDr c (ch.setWidth 32)) rest
    have hfifo : (d.writeDr c (ch.setWidth 32)).rxFifo = d.rxFifo := rfl
    rw [hfifo] at hle
    refine Nat.lt_of_le_of_lt hle ?_
    simp only [HandlerPc.rank]
    omega
  | writeIcr =>
    cases hstep
    exact Nat.one_pos
  | returned => cases hstep

/-- A character that leaves ends the wait for room. -/
theorem transmit_rank (hspins : s.spins c = true) (h : irqStep c s .transmit = some t) : t.rank c < s.rank c := by
  obtain ⟨d, hd, hs⟩ := Option.bind_eq_some_iff.mp h
  obtain ⟨hpos, hd⟩ := Option.ite_none_right_eq_some.mp hd
  cases hd
  cases hs
  unfold IrqState.spins at hspins
  split at hspins
  case h_1 irq ch rest hpc =>
    have hfull : s.device.txLevel = c.txDepth := of_decide_eq_true hspins
    have hroom : c.txDepth - 1 ≠ c.txDepth := by omega
    simp only [IrqState.rank, hpc, HandlerPc.rank, hfull, hroom, decide_true, decide_false, Bool.toNat_true,
      Bool.toNat_false]
    omega
  case h_2 => cases hspins

theorem irq_handler_rank (hpc : s.pc.Quenching rx s.device) (hspins : s.spins c = false)
    (h : irq_handler c s = some t) : t.rank c < s.rank c := by
  unfold irq_handler at h
  split at h
  case h_1 hacknowledge =>
    cases h
    simp only [IrqState.rank, hacknowledge]
    omega
  case h_2 irq hstore =>
    cases h
    simp only [IrqState.rank, hstore]
    split_ifs
    · simp only
      omega
    · unfold IrqPc.afterTimer
      split_ifs
      · simp only [HandlerPc.rank]
        omega
      · simp only
        omega
  case h_3 irq hcount =>
    rw [hcount] at hpc
    exact hpc.elim
  case h_4 irq hreload =>
    rw [hreload] at hpc
    exact hpc.elim
  case h_5 irq pc huart =>
    rw [huart] at hpc
    split at h
    case h_1 d pc' hhandler =>
      cases h
      have hroom : ∀ ch rest, pc = .pollFr ch rest → s.device.txLevel ≠ c.txDepth := by
        rintro ch rest rfl
        simpa [IrqState.spins, huart] using hspins
      have hrank := uart_irq_handler_rank hpc hroom hhandler
      simp only [IrqState.rank, huart]
      omega
    case h_2 =>
      cases h
      simp only [IrqState.rank, huart]
      omega
  case h_6 irq hend =>
    cases h
    simp only [IrqState.rank, hend]
    omega
  case h_7 => cases h

theorem Quenching.rank {a : Action} (hq : Quenching c rx s) (hprod : Productive c s a) (h : irqStep c s a = some t) :
    t.rank c < s.rank c := by
  cases a with
  | handler => exact irq_handler_rank hq.pc hprod h
  | transmit => exact transmit_rank hprod h
  | receive w => exact hprod.elim
  | timeout => exact hprod.elim

/-- The handler is never stuck: where it waits for room a character can leave. -/
theorem returned_of_stuck (hstuck : (irqSystem c).Stuck (Productive c) s) : s.pc = .returned := by
  cases hspins : s.spins c with
  | true =>
    have hnone : irqStep c s .transmit = none := hstuck .transmit hspins
    unfold IrqState.spins at hspins
    split at hspins
    case h_1 =>
      have hfull : s.device.txLevel = c.txDepth := of_decide_eq_true hspins
      have hpos := c.txDepth_pos
      simp [irqStep, Pl011.transmit, hfull, hpos] at hnone
    case h_2 => cases hspins
  | false =>
    have hnone : irq_handler c s = none := hstuck .handler hspins
    unfold irq_handler at hnone
    split at hnone
    case h_5 => split at hnone <;> cases hnone
    case h_7 hpc => exact hpc
    all_goals cases hnone

theorem Productive.noArrival {a : Action} (h : Productive c s a) : NoArrival s a := by
  rintro w rfl
  exact h

/-- The handler always can return, though not before the transmitter has made the room that it waits for. -/
theorem irq_handler_returns (hs : (irqSystem c).init s) :
    ∃ t, (irqSystem c).Steps NoArrival s t ∧ t.pc = .returned := by
  have hprog : ∀ u a t, Quenching c s.device.rxPending u → Productive c u a → (irqSystem c).step u a = some t →
      Quenching c s.device.rxPending t ∧ t.rank c < u.rank c :=
    fun u a t hq hprod hstep => ⟨hq.step hprod.noArrival hstep, hq.rank hprod hstep⟩
  obtain ⟨t, hsteps, -, hstuck⟩ := System.exists_stuck (IrqState.rank c) hprog (.init hs)
  exact ⟨t, hsteps.mono fun _ _ hprod => hprod.noArrival, returned_of_stuck hstuck⟩

/-! ### When the line is quenched -/

/-- `irq_handler` can return, and where it has returned and no byte has arrived the FIFO is empty and the
line is down exactly if the receive interrupt was among the sources that asserted it. -/
theorem quenched_iff (hs : (irqSystem c).init s) :
    (∃ t, (irqSystem c).Steps NoArrival s t ∧ t.pc = .returned) ∧
      ∀ t, (irqSystem c).Steps NoArrival s t → t.pc = .returned →
        (Quenched t.device ↔ s.device.rxPending = true) := by
  refine ⟨irq_handler_returns hs, fun t hsteps hret => ?_⟩
  have hq : Quenching c s.device.rxPending t :=
    hsteps.invariant (.init hs) fun u a v hu hquiet hstep => hu.step hquiet hstep
  have hempty : t.device.rxFifo = [] ↔ s.device.rxPending = true := by
    have hpc := hq.pc
    rw [hret] at hpc
    exact hpc
  rw [← hempty]
  exact ⟨fun h => h.1, fun h => ⟨h, hq.enabled.not_asserted h⟩⟩

/-- IRQ 33 is taken with the character 0x41 in the FIFO. -/
def interrupted (ris : Reg) : IrqState where
  device :=
    { rxFifo := [0x41]
      txLevel := 0
      ris := ris
      imsc := UART_INT_RX ||| UART_INT_RT
      lcr_h := UART_LCR_FEN ||| UART_LCR_WLEN8
      cr := UART_CR_UARTEN ||| UART_CR_TXE ||| UART_CR_RXE
      popped := []
      sent := [] }
  icc_iar1_el1 := 33
  icc_eoir1_el1 := []
  cntp_tval_el0 := []
  timer_freq := 62500000
  timer_irq_count := 0
  last_irq := 0
  pc := .acknowledge

/-- A device that interrupts at eight characters. -/
def hardware : Config := { qemu with trigger := 8, trigger_pos := Nat.succ_pos 7 }

theorem interrupted_init {ris : Reg} (hrx : ris.getLsbD 4 = true → c.trigger ≤ 1)
    (hset : ris &&& UART_INT ≠ 0) : (irqSystem c).init (interrupted ris) := by
  have himsc : (interrupted ris).device.imsc = UART_INT := rfl
  have hrxMask : (interrupted ris).device.imsc.getLsbD 4 = true := by
    rw [himsc]
    decide
  have hrtMask : (interrupted ris).device.imsc.getLsbD 6 = true := by
    rw [himsc]
    decide
  refine ⟨rfl, rfl, ⟨hrxMask, hrtMask, hrx, fun _ => nofun⟩, ?_⟩
  have hmis : (interrupted ris).device.mis = ris &&& UART_INT := rfl
  rw [Pl011.Asserted, hmis, BitVec.and_assoc, BitVec.and_self]
  exact hset

theorem oneCharacter_quenched :
    (∃ t, (irqSystem qemu).Steps NoArrival (interrupted UART_INT_RX) t ∧ t.pc = .returned) ∧
      ∀ t, (irqSystem qemu).Steps NoArrival (interrupted UART_INT_RX) t → t.pc = .returned →
        (Quenched t.device ↔ (interrupted UART_INT_RX).device.rxPending = true) :=
  quenched_iff (interrupted_init (fun _ => Nat.le_refl 1) (by decide))

/-- The receive timeout alone asserts the line. `irq_handler` leaves the FIFO and the line as they were. -/
theorem timeout_not_quenched :
    ¬ ∀ (c : Config) (s t : IrqState), (irqSystem c).init s → (irqSystem c).Steps NoArrival s t →
      t.pc = .returned → Quenched t.device := by
  intro hquenched
  have hinit : (irqSystem hardware).init (interrupted UART_INT_RT) := interrupted_init (by decide) (by decide)
  have hrun : (irqSystem hardware).run (interrupted UART_INT_RT) (List.replicate 5 .handler) =
      some { interrupted UART_INT_RT with icc_eoir1_el1 := [33], last_irq := 33, pc := .returned } := rfl
  have hsteps : (irqSystem hardware).Steps NoArrival _ _ := .of_run (by simp [NoArrival]) hrun
  exact absurd (hquenched hardware _ _ hinit hsteps rfl).1 (by decide)

end Armv8Driver.Uart
