import Armv8Driver.Uart.Model

/-!
# Bytes left behind by `uart_irq_handler`

The handler empties the FIFO before it clears the receive interrupt, so the clear also hides a
character that arrives after the last look at the FIFO. `Serving` says of a state inside the handler
what `Served` says of its return; the single step that can break it is an arrival at the `ICR` write,
and nothing repairs it.
-/

namespace Armv8Driver.Uart

open Transition

variable {c : Config} {s t : State} {d : Pl011} {w : Reg}

/-- No byte is left in the FIFO without an interrupt that will serve it. -/
def Served (d : Pl011) : Prop := d.rxFifo = [] ∨ d.rxPending = true

/-- No character arrives between the read of `FR` that ends the loop and the write of `ICR`. -/
def QuietClear (s : State) (a : Action) : Prop := s.pc = .writeIcr → ∀ w, a ≠ .receive w

/-- Nothing is lost so far: before the loop ends the handler will look at the FIFO again. -/
def Serving (s : State) : Prop :=
  match s.pc with
  | .writeIcr => s.device.rxFifo = []
  | .returned => Served s.device
  | _ => True

structure Inv (s : State) : Prop where
  enabled : s.device.imsc.getLsbD 4 = true
  entered : s.pc = .readMis → s.device.rxPending = true

theorem serving_of_looping (hclear : s.pc ≠ .writeIcr) (hret : s.pc ≠ .returned) : Serving s := by
  obtain ⟨d, pc⟩ := s
  cases pc with
  | writeIcr => exact absurd rfl hclear
  | returned => exact absurd rfl hret
  | _ => trivial

theorem serving_send {l : List Byte} : Serving ⟨d, .send l⟩ := by
  cases l <;> trivial

theorem inv_send {l : List Byte} (henabled : d.imsc.getLsbD 4 = true) : Inv ⟨d, .send l⟩ := by
  refine ⟨henabled, fun hpc => ?_⟩
  cases l <;> cases hpc

/-! ### What a step does -/

/-- After the clear only an empty FIFO is served. -/
theorem served_writeIcr : Served (d.writeIcr UART_INT_RX) ↔ d.rxFifo = [] := by
  simp [Served, Pl011.writeIcr_rxPending]

/-- With the interrupt at one character, an arrival after the handler's return loses nothing and
repairs nothing. -/
theorem served_receive (hc : c.trigger = 1) (henabled : d.imsc.getLsbD 4 = true) :
    Served (d.receive c w) ↔ Served d := by
  by_cases hempty : d.rxFifo = []
  · have hlevel : d.rxFifo.length + 1 = c.trigger := by rw [hempty, hc, List.length_nil]
    exact iff_of_true (.inr (Pl011.receive_rxPending henabled hlevel)) (.inl hempty)
  · have hlength := List.length_pos_iff.mpr hempty
    have hlevel : d.rxFifo.length + 1 ≠ c.trigger := by omega
    simp [Served, hempty, Pl011.receive_rxPending_of_ne hlevel]

/-- A step of the handler keeps `Serving`, both ways. -/
theorem Inv.handler (hi : Inv s) (h : step c s .handler = some t) : Inv t ∧ (Serving t ↔ Serving s) := by
  obtain ⟨⟨d', pc'⟩, hstep, ht⟩ := Option.bind_eq_some_iff.mp h
  obtain ⟨d, pc⟩ := s
  have henabled := hi.enabled
  cases ht
  cases pc with
  | readMis =>
    have hpending : d.mis &&& UART_INT_RX ≠ 0 := of_decide_eq_true (hi.entered rfl)
    simp only [uart_irq_handler, if_pos hpending] at hstep
    cases hstep
    exact ⟨⟨henabled, nofun⟩, iff_of_true trivial trivial⟩
  | readFr =>
    simp only [uart_irq_handler] at hstep
    by_cases hmore : d.fr c &&& UART_FR_RXFE = 0
    · rw [if_pos hmore] at hstep
      cases hstep
      exact ⟨⟨henabled, nofun⟩, iff_of_true trivial trivial⟩
    · have hempty : d.rxFifo = [] := by
        by_contra hne
        exact hmore (Pl011.fr_rxfe.mpr hne)
      rw [if_neg hmore] at hstep
      cases hstep
      exact ⟨⟨henabled, nofun⟩, iff_of_true hempty trivial⟩
  | readDr =>
    obtain ⟨hdevice, hpc⟩ := Prod.mk.inj (Option.some.inj hstep)
    have himsc : d'.imsc = d.imsc := by rw [← hdevice]; exact Pl011.readDr_imsc
    rw [← hpc]
    exact ⟨inv_send (himsc ▸ henabled), iff_of_true serving_send trivial⟩
  | pollFr ch rest =>
    cases hstep
    refine ⟨⟨henabled, fun hpc => ?_⟩, iff_of_true ?_ trivial⟩
    · dsimp only at hpc
      split_ifs at hpc
    · apply serving_of_looping
      · dsimp only
        split_ifs <;> exact nofun
      · dsimp only
        split_ifs <;> exact nofun
  | writeDr ch rest =>
    cases hstep
    exact ⟨inv_send henabled, iff_of_true serving_send trivial⟩
  | writeIcr =>
    cases hstep
    exact ⟨⟨henabled, nofun⟩, served_writeIcr⟩
  | returned => cases hstep

/-- An arrival keeps `Serving`, except at the write of `ICR`. -/
theorem Inv.receive (hc : c.trigger = 1) (hi : Inv s) (h : step c s (.receive w) = some t) :
    Inv t ∧ (Serving t ↔ Serving s ∧ s.pc ≠ .writeIcr) := by
  obtain ⟨d, pc⟩ := s
  cases h
  refine ⟨⟨hi.enabled, fun hpc => ?_⟩, ?_⟩
  · have hpending : Served d := .inr (hi.entered hpc)
    refine ((served_receive hc hi.enabled).mpr hpending).resolve_left ?_
    simp
  · cases pc with
    | writeIcr => simp [Serving]
    | returned => simpa [Serving] using served_receive hc hi.enabled
    | _ => simp [Serving]

/-- `Serving` looks at the receive FIFO and the receive interrupt only. -/
theorem Inv.frame (hi : Inv s) (hpc : t.pc = s.pc) (hfifo : t.device.rxFifo = s.device.rxFifo)
    (himsc : t.device.imsc = s.device.imsc) (hpending : t.device.rxPending = s.device.rxPending) :
    Inv t ∧ (Serving t ↔ Serving s) := by
  constructor
  · constructor
    · rw [himsc]
      exact hi.enabled
    · rw [hpc, hpending]
      exact hi.entered
  · simp only [Serving, Served, hpc, hfifo, hpending]

theorem Inv.step {a : Action} (hc : c.trigger = 1) (hi : Inv s) (h : step c s a = some t) :
    Inv t ∧ (Serving t ↔ Serving s ∧ QuietClear s a) := by
  cases a with
  | handler =>
    have hquiet : QuietClear s .handler := fun _ _ => nofun
    rw [and_iff_left hquiet]
    exact hi.handler h
  | receive w =>
    have hquiet : QuietClear s (.receive w) ↔ s.pc ≠ .writeIcr := by
      exact ⟨fun hq hpc => hq hpc w rfl, fun hne hpc => absurd hpc hne⟩
    rw [hquiet]
    exact hi.receive hc h
  | transmit =>
    have hquiet : QuietClear s .transmit := fun _ _ => nofun
    rw [and_iff_left hquiet, step_transmit h]
    exact hi.frame rfl rfl rfl rfl
  | timeout =>
    have hquiet : QuietClear s .timeout := fun _ _ => nofun
    obtain ⟨hframe, hpending⟩ := step_timeout h
    rw [and_iff_left hquiet]
    apply hi.frame
    · rw [hframe]
    · rw [hframe]
    · rw [hframe]
    · exact hpending

/-! ### Runs of the handler -/

/-- When the handler returns, every byte that is left will be served, exactly if none of them arrived
between the last look at the FIFO and the clear. -/
theorem served_iff {acts : List Action} (hc : c.trigger = 1) (hs : (system c).init s)
    (hrun : (system c).run s acts = some t) (hret : t.pc = .returned) :
    Served t.device ↔ (system c).Along QuietClear s acts := by
  obtain ⟨hpc, hpending⟩ := hs
  have hi : Inv s := ⟨(Pl011.rxPending_iff.mp hpending).2, fun _ => hpending⟩
  have hstart : Serving s := serving_of_looping (by rw [hpc]; exact nofun) (by rw [hpc]; exact nofun)
  have hend : Serving t ↔ Served t.device := by
    simp only [Serving, hret]
  rw [← hend, System.Along.run_iff (fun s a t hi h => hi.step hc h) hi hrun]
  exact and_iff_right hstart

/-- The PL011 of the emulator, which interrupts at one character. -/
def qemu : Config := ⟨1, Nat.one_pos, 16, Nat.succ_pos 15⟩

/-- The handler is called for one character. -/
def oneByte : State where
  device :=
    { rxFifo := [0x41]
      txLevel := 0
      ris := UART_INT_RX
      imsc := UART_INT_RX ||| UART_INT_RT
      lcr_h := UART_LCR_FEN ||| UART_LCR_WLEN8
      cr := UART_CR_UARTEN ||| UART_CR_TXE ||| UART_CR_RXE
      popped := []
      sent := [] }
  pc := .readMis

/-- The handler echoes the character, sees the FIFO empty and returns; then the next one arrives. -/
def arrivesAfter : State :=
  ((system qemu).run oneByte (List.replicate 31 .handler ++ [.receive 0x42])).get rfl

theorem arrivesAfter_served : Served arrivesAfter.device ∧
    (system qemu).Along QuietClear oneByte (List.replicate 31 .handler ++ [.receive 0x42]) := by
  have hrun : (system qemu).run oneByte (List.replicate 31 .handler ++ [.receive 0x42]) = some arrivesAfter :=
    (Option.some_get _).symm
  have hserved : Served arrivesAfter.device := .inr rfl
  exact ⟨hserved, (served_iff rfl ⟨rfl, rfl⟩ hrun rfl).mp hserved⟩

/-- The same with the character arriving one register access earlier. -/
def arrivesBefore : State :=
  ((system qemu).run oneByte (List.replicate 30 .handler ++ [.receive 0x42, .handler])).get rfl

theorem arrivesBefore_stranded :
    ¬ ∀ (s t : State) (acts : List Action), (system qemu).init s → (system qemu).run s acts = some t →
      t.pc = .returned → Served t.device := by
  intro hserved
  have h : Served arrivesBefore.device := hserved oneByte _ _ ⟨rfl, rfl⟩ (Option.some_get _).symm rfl
  rcases h with hempty | hpending
  · cases hempty
  · cases hpending

end Armv8Driver.Uart
