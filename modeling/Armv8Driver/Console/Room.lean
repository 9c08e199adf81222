import Armv8Driver.Console.Output

/-!
# Writes to a full transmit FIFO

`uart_tx` polls `TXFF` and then writes `DR`. Nothing comes between the two in the handler, which runs with the
interrupts masked. In `main` an exception can, and the lines of the handler fill the FIFO that the poll has found with
room: then `main`'s character is written to a full FIFO. That exception is the only way to such a write.
-/

namespace Armv8Driver.Console

open Transition
open Uart

variable {c : Config} {f : BitVec 64} {s t : State} {a : Action} {arrived : List Reg}

/-- No exception is taken while `main` is between a poll and the write behind it. -/
def NotPreempted (s : State) (a : Action) : Prop := a = .machine .irq → ∀ ch rest, s.tx ≠ .writeDr ch rest

/-- The transmit FIFO holds no more than it can, and less than that where the handler writes to it. -/
structure HandlerRoom (c : Config) (s : State) : Prop where
  level_le : s.device.txLevel ≤ c.txDepth
  room : ∀ ch rest, s.handler = .writeDr ch rest → s.device.txLevel < c.txDepth

/-- `main` runs where it is to write to the FIFO, and there is room. -/
def MainRoom (c : Config) (s : State) : Prop :=
  ∀ ch rest, s.tx = .writeDr ch rest → s.runs ∧ s.device.txLevel < c.txDepth

theorem lt_of_poll (hle : s.device.txLevel ≤ c.txDepth) (hpoll : s.device.fr c &&& UARTFR_TXFF = 0) :
    s.device.txLevel < c.txDepth := by
  apply Nat.lt_of_le_of_ne hle
  intro hfull
  exact Pl011.fr_txff.mpr hfull hpoll

theorem TxPc.send_ne_writeDr (l : List Byte) (ch : Byte) (rest : List Byte) : TxPc.send l ≠ .writeDr ch rest := by
  cases l <;> exact nofun

theorem runs_handler (h : s.runs) : s.handler = .returned := congrArg handlerOf h.2

theorem HandlerRoom.effect (h : HandlerRoom c s) (he : Effect c s arrived t) : HandlerRoom c t := by
  have hle := h.level_le
  cases he with
  | quiet _ _ _ hlevel _ _ _ hpolls =>
    refine ⟨Nat.le_trans hlevel hle, fun ch rest hwrites => Nat.lt_of_le_of_lt hlevel ?_⟩
    rcases hpolls.handler ch rest hwrites with hsame | hpoll
    · exact h.room ch rest (hsame ▸ hwrites)
    · exact lt_of_poll hle hpoll
  | pop _ hdevice hnext _ =>
    refine ⟨?_, fun ch rest hwrites => absurd (hnext.symm.trans hwrites) (Uart.send_ne_writeDr _ ch rest)⟩
    rw [hdevice, readDr_txLevel]
    exact hle
  | echo ch rest _ hdevice hnext _ =>
    refine ⟨?_, fun ch' rest' hwrites => absurd (hnext.symm.trans hwrites) (Uart.send_ne_writeDr _ ch' rest')⟩
    rw [hdevice]
    exact writeDr_txLevel_le hle
  | main ch rest hruns _ hdevice hhandler _ =>
    refine ⟨?_, fun ch' rest' hwrites => ?_⟩
    · rw [hdevice]
      exact writeDr_txLevel_le hle
    · rw [hhandler, runs_handler hruns] at hwrites
      cases hwrites

/-- Only an exception stops `main`. -/
theorem runs_step (h : step c f s a = some t) (ha : a ≠ .machine .irq) (hruns : s.runs) : t.runs := by
  obtain ⟨hidle, hpc⟩ := hruns
  cases a with
  | machine a =>
    obtain ⟨m, hm, rfl⟩ := Option.map_eq_some_iff.mp h
    cases a with
    | tick =>
      cases hm
      exact ⟨hidle, hpc⟩
    | main =>
      have hnone : s.machine.mainStep f = none := by simp [Gic.Machine.mainStep, hidle]
      exact absurd (hnone.symm.trans hm) nofun
    | irq => exact absurd rfl ha
    | acknowledge id =>
      have hnone : s.machine.acknowledge c id = none := by simp [Gic.Machine.acknowledge, hpc]
      exact absurd (hnone.symm.trans hm) nofun
    | handler =>
      have hnone : s.machine.handler c = none := by simp [Gic.Machine.handler, hpc, irq_handler]
      exact absurd (hnone.symm.trans hm) nofun
    | line a =>
      obtain ⟨ha, hm⟩ := Option.ite_none_left_eq_some.mp hm
      obtain ⟨cpu, hcpu, rfl⟩ := Option.map_eq_some_iff.mp hm
      have hpc' : cpu.pc = s.machine.cpu.pc := by rw [Gic.irqStep_device ha hcpu]
      exact ⟨hidle, hpc'.trans hpc⟩
  | tx =>
    obtain ⟨-, h⟩ := Option.ite_none_right_eq_some.mp h
    obtain ⟨r, -, rfl⟩ := Option.map_eq_some_iff.mp h
    exact ⟨hidle, hpc⟩

theorem MainRoom.step (hm : MainRoom c s) (hh : HandlerRoom c s) (hok : NotPreempted s a) (h : step c f s a = some t) :
    MainRoom c t := by
  intro ch rest hwrites
  have hkeep : t.tx = s.tx → t.device.txLevel ≤ s.device.txLevel → t.runs ∧ t.device.txLevel < c.txDepth := by
    intro hsame hlevel
    have hbefore := hsame ▸ hwrites
    obtain ⟨hruns, hlt⟩ := hm ch rest hbefore
    exact ⟨runs_step h (fun ha => hok ha ch rest hbefore) hruns, Nat.lt_of_le_of_lt hlevel hlt⟩
  have heffect := step_effect h
  generalize received a = arrived at heffect
  cases heffect with
  | quiet _ _ _ hlevel _ _ _ hpolls =>
    rcases hpolls.main ch rest hwrites with hsame | ⟨hruns, hpoll⟩
    · exact hkeep hsame hlevel
    · exact ⟨hruns, Nat.lt_of_le_of_lt hlevel (lt_of_poll hh.level_le hpoll)⟩
  | pop hhandler _ _ htx =>
    have hruns := (hm ch rest (htx ▸ hwrites)).1
    rw [runs_handler hruns] at hhandler
    cases hhandler
  | echo ch' rest' hhandler _ _ htx =>
    have hruns := (hm ch rest (htx ▸ hwrites)).1
    rw [runs_handler hruns] at hhandler
    cases hhandler
  | main _ _ _ _ _ _ hnext => exact absurd (hnext.symm.trans hwrites) (TxPc.send_ne_writeDr _ ch rest)

theorem HandlerRoom.init (hs : (system c f).init s) : HandlerRoom c s := by
  refine ⟨hs.2.1, fun ch rest hwrites => ?_⟩
  have hreturned : s.handler = .returned := congrArg handlerOf hs.1.2.1
  rw [hreturned] at hwrites
  cases hwrites

/-- A step that writes to `DR`. -/
def Sends (s t : State) : Prop := t.device.sent ≠ s.device.sent

instance (s t : State) : Decidable (Sends s t) := inferInstanceAs (Decidable (¬ _))

theorem not_full (hroom : s.device.txLevel < c.txDepth) : s.device.fr c &&& UARTFR_TXFF = 0 := by
  by_contra hfull
  exact absurd (Pl011.fr_txff.mp hfull) (Nat.ne_of_lt hroom)

/-- A write to `DR` is one of the handler's lines or one of `main`'s characters. -/
theorem Effect.sends (he : Effect c s arrived t) (hsent : Sends s t) :
    (∃ ch rest, s.handler = .writeDr ch rest) ∨ ∃ ch rest, s.tx = .writeDr ch rest ∧ t.tx = .send rest := by
  cases he with
  | quiet _ _ hsame => exact absurd hsame hsent
  | pop _ hdevice =>
    rw [Sends, hdevice, readDr_sent] at hsent
    exact absurd rfl hsent
  | echo ch rest hhandler => exact .inl ⟨ch, rest, hhandler⟩
  | main ch rest _ htx _ _ hnext => exact .inr ⟨ch, rest, htx, hnext⟩

/-- Only the steps of `uart_tx_string` move `main`. -/
theorem step_tx (h : step c f s a = some t) (ha : a ≠ .tx) : t.tx = s.tx := by
  cases a with
  | machine a =>
    obtain ⟨m, -, rfl⟩ := Option.map_eq_some_iff.mp h
    rfl
  | tx => exact absurd rfl ha

theorem handler_room (hs : (system c f).Reachable s) : HandlerRoom c s :=
  hs.invariant (fun _ hinit => .init hinit) fun _ _ _ h hstep => h.effect (step_effect hstep)

theorem main_room (hs : (system c f).ReachableUnder NotPreempted s) : MainRoom c s := by
  have hrooms : HandlerRoom c s ∧ MainRoom c s := by
    apply hs.invariant
    · intro s hinit
      refine ⟨.init hinit, fun ch rest hwrites => ?_⟩
      exact absurd (hinit.2.2.symm.trans hwrites) (TxPc.send_ne_writeDr _ ch rest)
    · exact fun s a t h hok hstep => ⟨h.1.effect (step_effect hstep), h.2.step h.1 hok hstep⟩
  exact hrooms.2

/-- The handler writes only where it has room, whenever it is called. -/
theorem handler_sends (hs : (system c f).Reachable s) (hstep : step c f s a = some t) (ha : a ≠ .tx) (hsent : Sends s t) :
    s.device.fr c &&& UARTFR_TXFF = 0 := by
  rcases (step_effect hstep).sends hsent with ⟨ch, rest, hhandler⟩ | ⟨ch, rest, htx, hnext⟩
  · exact not_full ((handler_room hs).room ch rest hhandler)
  · rw [step_tx hstep ha, htx] at hnext
    exact absurd hnext.symm (TxPc.send_ne_writeDr rest ch rest)

theorem main_sends (hs : (system c f).ReachableUnder NotPreempted s) (hstep : step c f s a = some t) (hsent : Sends s t) :
    s.device.fr c &&& UARTFR_TXFF = 0 := by
  rcases (step_effect hstep).sends hsent with ⟨ch, rest, hhandler⟩ | ⟨ch, rest, htx, -⟩
  · exact not_full ((handler_room hs.reachable).room ch rest hhandler)
  · exact not_full (main_room hs ch rest htx).2

/-- Three characters are sent and the poll for the fourth has found room; then an `A` arrives. -/
def preempted : List Action :=
  List.replicate 6 (.machine .main) ++ List.replicate 7 .tx ++
    [.machine (.line (.receive 0x41)), .machine .irq, .machine (.acknowledge 33)] ++ List.replicate 34 (.machine .handler)

/-- `main` is to write a character and the FIFO is full. -/
def State.overruns (c : Config) (f : BitVec 64) (s : State) : Bool :=
  (step c f s .tx).any fun t => decide (Sends s t) && decide (s.device.fr c &&& UARTFR_TXFF ≠ 0)

theorem State.overruns_iff : s.overruns c f = true ↔
    ∃ t, step c f s .tx = some t ∧ Sends s t ∧ s.device.fr c &&& UARTFR_TXFF ≠ 0 := by
  simp [overruns, Option.any_eq_true]

/-- The line of the character takes the room of the string's fourth. -/
theorem preempted_overruns : ∃ s, (system qemu 62500000).Reachable s ∧ s.overruns qemu 62500000 = true := by
  have hrun : (((system qemu 62500000).run ⟨Gic.started, .send banner⟩ preempted).any
      fun s => s.overruns qemu 62500000) = true := by
    decide
  obtain ⟨s, hs, hfull⟩ := (Option.any_eq_true ..).mp hrun
  exact ⟨s, .of_run (started_init _ _) (fun _ _ _ => trivial) hs, hfull⟩

/-- The handler never writes to a full FIFO, in any run. `main` does not in the runs in which no exception comes between its
poll and its write, and in others it can. -/
theorem sends_with_room :
    (∀ c f s t a, (system c f).Reachable s → step c f s a = some t → a ≠ .tx → Sends s t →
        s.device.fr c &&& UARTFR_TXFF = 0) ∧
      (∀ c f s t a, (system c f).ReachableUnder NotPreempted s → step c f s a = some t → Sends s t →
        s.device.fr c &&& UARTFR_TXFF = 0) ∧
      ∃ s t, (system qemu 62500000).Reachable s ∧ step qemu 62500000 s .tx = some t ∧ Sends s t ∧
        s.device.fr qemu &&& UARTFR_TXFF ≠ 0 := by
  refine ⟨fun c f s t a => handler_sends, fun c f s t a => main_sends, ?_⟩
  obtain ⟨s, hs, hoverruns⟩ := preempted_overruns
  obtain ⟨t, hstep, hsent, hfull⟩ := State.overruns_iff.mp hoverruns
  exact ⟨s, t, hs, hstep, hsent, hfull⟩

/-- An `A` arrives, and the handler has polled for the first character of its line. -/
def answered : List Action :=
  List.replicate 6 (.machine .main) ++ [.machine (.line (.receive 0x41)), .machine .irq, .machine (.acknowledge 33)] ++
    List.replicate 5 (.machine .handler)

/-- The handler is about to send that character, and `main` the first of the string. -/
theorem first_sends_with_room :
    (∃ s t, (system qemu 62500000).Reachable s ∧ step qemu 62500000 s (.machine .handler) = some t ∧
        s.device.fr qemu &&& UARTFR_TXFF = 0) ∧
      ∃ s t, (system qemu 62500000).ReachableUnder NotPreempted s ∧ step qemu 62500000 s .tx = some t ∧
        s.device.fr qemu &&& UARTFR_TXFF = 0 := by
  constructor
  · have hreach : (system qemu 62500000).Reachable
        (((system qemu 62500000).run ⟨Gic.started, .send banner⟩ answered).get rfl) :=
      .of_run (started_init _ _) (fun _ _ _ => trivial) (Option.some_get _).symm
    exact ⟨_, _, hreach, rfl, sends_with_room.1 qemu 62500000 _ _ (.machine .handler) hreach rfl nofun (by decide)⟩
  · have hok : ∀ a ∈ List.replicate 6 (.machine .main) ++ [Action.tx], ∀ s, NotPreempted s a := by
      intro a ha s hirq
      rw [hirq] at ha
      exact absurd ha (by decide)
    have hreach := System.ReachableUnder.of_run (M := system qemu 62500000) (started_init _ _) hok rfl
    exact ⟨_, _, hreach, rfl, sends_with_room.2.1 qemu 62500000 _ _ .tx hreach rfl (by decide)⟩

end Armv8Driver.Console
