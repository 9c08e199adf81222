import Armv8Driver.Console.Model
import Armv8Driver.Uart.Echo

/-!
# What the console shows

The words written to `DR` are the characters of the string that `main` sends and the lines of the characters
received, shuffled: a line is never broken up, by the string or by another line, and the string is broken up
only between two of its characters. This is so because the handler that has begun a line ends it before `main` goes on.
-/

namespace Armv8Driver.Console

open Transition
open Uart

variable {c : Config} {f : BitVec 64} {s₀ s t : State} {arrived : List Reg}

/-- Where `uart_irq_handler` is. -/
def handlerOf : IrqPc → HandlerPc
  | .uart _ h => h
  | _ => .returned

abbrev State.handler (s : State) : HandlerPc := handlerOf s.machine.cpu.pc

/-- What `main` still has to send. -/
def TxPc.unsent : TxPc → List Reg
  | .pollFr ch rest | .writeDr ch rest => (ch :: rest).map (BitVec.setWidth 32)
  | .returned => []

theorem TxPc.send_unsent (l : List Byte) : (TxPc.send l).unsent = l.map (BitVec.setWidth 32) := by
  cases l <;> rfl

/-- The character that arrives with an action. -/
def received : Action → List Reg
  | .machine (.line a) => arrivals [a]
  | _ => []

/-! ### What a step does to the output -/

/-- The handler or `main` comes to a write of `DR` by a poll that has found room. -/
structure Polls (c : Config) (s t : State) : Prop where
  handler : ∀ ch rest, t.handler = .writeDr ch rest → t.handler = s.handler ∨ s.device.fr c &&& UARTFR_TXFF = 0
  main : ∀ ch rest, t.tx = .writeDr ch rest → t.tx = s.tx ∨ t.runs ∧ s.device.fr c &&& UARTFR_TXFF = 0

/-- The steps by what they do to the FIFOs: a step of the line or of something else, the read of a character, the
write of a character of its line, and the write of one of `main`'s. -/
inductive Effect (c : Config) (s : State) : List Reg → State → Prop where
  | quiet {arrived : List Reg} {t : State} (hpopped : t.device.popped = s.device.popped)
      (hfifo : t.device.rxFifo = s.device.rxFifo ++ arrived) (hsent : t.device.sent = s.device.sent)
      (hlevel : t.device.txLevel ≤ s.device.txLevel) (hunsent : t.handler.unsent = s.handler.unsent)
      (htx : t.tx.unsent = s.tx.unsent) (hpresent : t.handler = .readDr → t.handler = s.handler ∨ t.device.rxFifo ≠ [])
      (hpolls : Polls c s t) : Effect c s arrived t
  | pop {t : State} (hhandler : s.handler = .readDr) (hdevice : t.device = (s.device.readDr c).2)
      (hnext : t.handler = .send (echo (((s.device.readDr c).1 &&& 0xFF).setWidth 8))) (htx : t.tx = s.tx) :
      Effect c s [] t
  | echo {t : State} (ch : Byte) (rest : List Byte) (hhandler : s.handler = .writeDr ch rest)
      (hdevice : t.device = s.device.writeDr c (ch.setWidth 32)) (hnext : t.handler = .send rest)
      (htx : t.tx = s.tx) : Effect c s [] t
  | main {t : State} (ch : Byte) (rest : List Byte) (hruns : s.runs) (htx : s.tx = .writeDr ch rest)
      (hdevice : t.device = s.device.writeDr c (ch.setWidth 32)) (hhandler : t.handler = s.handler)
      (hnext : t.tx = .send rest) : Effect c s [] t

/-- A step of neither the handler nor `uart_tx_string`. -/
theorem Effect.outside {arrived : List Reg} (hpopped : t.device.popped = s.device.popped)
    (hfifo : t.device.rxFifo = s.device.rxFifo ++ arrived) (hsent : t.device.sent = s.device.sent)
    (hlevel : t.device.txLevel ≤ s.device.txLevel) (hhandler : t.handler = s.handler) (htx : t.tx = s.tx) :
    Effect c s arrived t :=
  .quiet hpopped hfifo hsent hlevel (hhandler ▸ rfl) (htx ▸ rfl) (fun _ => .inl hhandler)
    ⟨fun _ _ _ => .inl hhandler, fun _ _ _ => .inl htx⟩

/-- A step of the handler between its reads and writes of `DR`. -/
theorem Effect.between {m : Gic.Machine} (hdevice : m.cpu.device = s.device)
    (hunsent : (handlerOf m.cpu.pc).unsent = s.handler.unsent)
    (hreads : handlerOf m.cpu.pc = .readDr → s.device.rxFifo ≠ [])
    (hwrites : ∀ ch rest, handlerOf m.cpu.pc = .writeDr ch rest → s.device.fr c &&& UARTFR_TXFF = 0) :
    Effect c s [] { s with machine := m } := by
  refine .quiet ?_ ?_ ?_ ?_ hunsent rfl (fun h => .inr ?_) ⟨fun ch rest h => .inr (hwrites ch rest h), fun _ _ _ => .inl rfl⟩
  · exact congrArg Pl011.popped hdevice
  · rw [List.append_nil]
    exact congrArg Pl011.rxFifo hdevice
  · exact congrArg Pl011.sent hdevice
  · exact Nat.le_of_eq (congrArg Pl011.txLevel hdevice)
  · rw [State.device, hdevice]
    exact hreads h

/-- Outside `uart_irq_handler`, or before its first access. -/
def Resting (h : HandlerPc) : Prop := h = .readMis ∨ h = .returned

theorem afterTimer_resting (irq : Reg) : Resting (handlerOf (.afterTimer irq)) := by
  unfold IrqPc.afterTimer
  split_ifs
  · exact .inl rfl
  · exact .inr rfl

theorem Effect.resting {m : Gic.Machine} (hdevice : m.cpu.device = s.device) (hbefore : s.handler = .returned)
    (hafter : Resting (handlerOf m.cpu.pc)) : Effect c s [] { s with machine := m } := by
  rcases hafter with hafter | hafter
  · refine .between hdevice ?_ ?_ ?_
    · rw [hafter, hbefore]
      rfl
    · rw [hafter]
      exact nofun
    · rw [hafter]
      exact nofun
  · refine .between hdevice ?_ ?_ ?_
    · rw [hafter, hbefore]
    · rw [hafter]
      exact nofun
    · rw [hafter]
      exact nofun

theorem effect_main {m : Gic.Machine} (h : s.machine.mainStep f = some m) : Effect c s [] { s with machine := m } := by
  unfold Gic.Machine.mainStep at h
  have hsame : ∀ m : Gic.Machine, m.cpu.device.popped = s.device.popped → m.cpu.device.rxFifo = s.device.rxFifo →
      m.cpu.device.sent = s.device.sent → m.cpu.device.txLevel = s.device.txLevel → m.cpu.pc = s.machine.cpu.pc →
      Effect c s [] { s with machine := m } := by
    intro m hpopped hfifo hsent hlevel hpc
    exact .outside hpopped (hfifo.trans (List.append_nil _).symm) hsent (Nat.le_of_eq hlevel) (congrArg handlerOf hpc) rfl
  split at h
  case h_7 => cases h
  all_goals
    cases h
    exact hsame _ rfl rfl rfl rfl rfl

theorem effect_uart {h h' : HandlerPc} {d : Pl011} {m : Gic.Machine} (hhandler : s.handler = h)
    (hstep : uart_irq_handler c s.device h = some (d, h')) (hdevice : m.cpu.device = d) (hpc : handlerOf m.cpu.pc = h') :
    Effect c s [] { s with machine := m } := by
  cases h with
  | readMis =>
    cases hstep
    refine .between hdevice ?_ ?_ ?_
    · rw [hpc, hhandler]
      split_ifs <;> rfl
    · rw [hpc]
      split_ifs <;> exact nofun
    · rw [hpc]
      split_ifs <;> exact nofun
  | readFr =>
    cases hstep
    refine .between hdevice ?_ ?_ ?_
    · rw [hpc, hhandler]
      split_ifs <;> rfl
    · intro hreads
      apply Pl011.fr_rxfe.mp
      by_contra hempty
      rw [hpc, if_neg hempty] at hreads
      cases hreads
    · rw [hpc]
      split_ifs <;> exact nofun
  | readDr =>
    cases hstep
    exact .pop hhandler hdevice hpc rfl
  | pollFr ch rest =>
    cases hstep
    refine .between hdevice ?_ ?_ ?_
    · rw [hpc, hhandler]
      split_ifs <;> rfl
    · rw [hpc]
      split_ifs <;> exact nofun
    · intro ch' rest' hwrites
      by_contra hfull
      rw [hpc, if_pos hfull] at hwrites
      cases hwrites
  | writeDr ch rest =>
    cases hstep
    exact .echo ch rest hhandler hdevice hpc rfl
  | writeIcr =>
    cases hstep
    have hsame : m.cpu.device = { s.device with ris := m.cpu.device.ris } := by
      rw [hdevice]
      rfl
    refine .quiet ?_ ?_ ?_ ?_ ?_ rfl ?_ ⟨?_, fun _ _ _ => .inl rfl⟩
    · rw [State.device, hsame]
    · rw [State.device, hsame, List.append_nil]
    · rw [State.device, hsame]
    · show m.cpu.device.txLevel ≤ s.device.txLevel
      rw [hdevice]
      exact Nat.le_refl _
    · rw [State.handler, hpc, hhandler]
      rfl
    · rw [State.handler, hpc]
      exact nofun
    · rw [State.handler, hpc]
      exact nofun
  | returned => cases hstep

theorem effect_handler {m : Gic.Machine} (h : s.machine.handler c = some m) : Effect c s [] { s with machine := m } := by
  obtain ⟨hne, h⟩ := Option.ite_none_left_eq_some.mp h
  obtain ⟨cpu, hcpu, rfl⟩ := Option.map_eq_some_iff.mp h
  cases hpc : s.machine.cpu.pc with
  | acknowledge => exact absurd hpc hne
  | storeLast irq =>
    simp only [irq_handler, hpc, Option.some.injEq] at hcpu
    subst hcpu
    refine .resting rfl (congrArg handlerOf hpc) ?_
    show Resting (handlerOf (if irq = TIMER_IRQ then .countTimer irq else .afterTimer irq))
    split_ifs
    · exact .inr rfl
    · exact afterTimer_resting irq
  | countTimer irq =>
    simp only [irq_handler, hpc, Option.some.injEq] at hcpu
    subst hcpu
    exact .resting rfl (congrArg handlerOf hpc) (.inr rfl)
  | reloadTimer irq =>
    simp only [irq_handler, hpc, Option.some.injEq] at hcpu
    subst hcpu
    exact .resting rfl (congrArg handlerOf hpc) (afterTimer_resting irq)
  | endInterrupt irq =>
    simp only [irq_handler, hpc, Option.some.injEq] at hcpu
    subst hcpu
    exact .resting rfl (congrArg handlerOf hpc) (.inr rfl)
  | returned => simp [irq_handler, hpc] at hcpu
  | uart irq pc =>
    simp only [irq_handler, hpc] at hcpu
    have hhandler : s.handler = pc := congrArg handlerOf hpc
    split at hcpu
    case h_1 d pc' hstep =>
      cases hcpu
      exact effect_uart hhandler hstep rfl rfl
    case h_2 hstep =>
      cases hcpu
      have hreturned : pc = .returned := by
        cases pc with
        | returned => rfl
        | _ => cases hstep
      exact .resting rfl (hhandler.trans hreturned) (.inr rfl)

theorem effect_line {a : Uart.Action} {cpu : IrqState} (ha : a ≠ .handler)
    (h : irqStep c s.machine.cpu a = some cpu) :
    Effect c s (arrivals [a]) { s with machine := { s.machine with cpu := cpu } } := by
  cases a with
  | handler => exact absurd rfl ha
  | receive w =>
    cases h
    exact .outside rfl rfl rfl (Nat.le_refl _) rfl rfl
  | transmit =>
    obtain ⟨d, hd, hs⟩ := Option.bind_eq_some_iff.mp h
    obtain ⟨-, hd⟩ := Option.ite_none_right_eq_some.mp hd
    cases hd
    cases hs
    exact .outside rfl (List.append_nil _).symm rfl (Nat.sub_le _ _) rfl rfl
  | timeout =>
    obtain ⟨d, hd, hs⟩ := Option.bind_eq_some_iff.mp h
    cases hs
    rw [(Pl011.timeout_eq_some hd).1]
    exact .outside rfl (List.append_nil _).symm rfl (Nat.le_refl _) rfl rfl

theorem step_effect {a : Action} (h : step c f s a = some t) : Effect c s (received a) t := by
  cases a with
  | machine a =>
    obtain ⟨m, hm, rfl⟩ := Option.map_eq_some_iff.mp h
    cases a with
    | tick =>
      cases hm
      exact .outside rfl (List.append_nil _).symm rfl (Nat.le_refl _) rfl rfl
    | main => exact effect_main hm
    | irq =>
      obtain ⟨⟨-, hpc⟩, hm⟩ := Option.ite_none_right_eq_some.mp hm
      cases hm
      exact .resting rfl (congrArg handlerOf hpc) (.inr rfl)
    | acknowledge id =>
      obtain ⟨hpc, hm⟩ := Option.ite_none_right_eq_some.mp hm
      obtain ⟨cpu, hcpu, rfl⟩ := Option.map_eq_some_iff.mp hm
      simp only [irq_handler, hpc, Option.some.injEq] at hcpu
      subst hcpu
      exact .resting rfl (congrArg handlerOf hpc) (.inr rfl)
    | handler => exact effect_handler hm
    | line a =>
      obtain ⟨ha, hm⟩ := Option.ite_none_left_eq_some.mp hm
      obtain ⟨cpu, hcpu, rfl⟩ := Option.map_eq_some_iff.mp hm
      exact effect_line ha hcpu
  | tx =>
    obtain ⟨hruns, h⟩ := Option.ite_none_right_eq_some.mp h
    obtain ⟨⟨d, tx⟩, htx, rfl⟩ := Option.map_eq_some_iff.mp h
    cases hpc : s.tx with
    | pollFr ch rest =>
      rw [hpc] at htx
      cases htx
      refine .quiet rfl (List.append_nil _).symm rfl (Nat.le_refl _) rfl ?_ (fun _ => .inl rfl)
        ⟨fun _ _ _ => .inl rfl, fun ch' rest' hwrites => .inr ⟨hruns, ?_⟩⟩
      · rw [hpc]
        dsimp only [State.setDevice]
        split_ifs <;> rfl
      · by_contra hfull
        dsimp only [State.setDevice] at hwrites
        rw [if_pos hfull] at hwrites
        cases hwrites
    | writeDr ch rest =>
      rw [hpc] at htx
      cases htx
      exact .main ch rest hruns hpc rfl rfl rfl
    | returned =>
      rw [hpc] at htx
      cases htx

/-! ### The output so far -/

/-- Since `s₀`, with `arrived` received: `main` has sent `said`, the handler has read `new`, and `parts` is the
shuffle of the characters of the one and the lines of the other. -/
structure Output (s₀ : State) (arrived : List Reg) (s : State) (said new : List Reg) (parts : List (List Reg)) : Prop where
  string : said ++ s.tx.unsent = s₀.tx.unsent
  popped : s.device.popped = s₀.device.popped ++ new
  arrived : new ++ s.device.rxFifo = s₀.device.rxFifo ++ arrived
  shuffle : Shuffle (said.map fun w => [w]) (new.map echoed) parts
  sent : s.device.sent ++ s.handler.unsent = s₀.device.sent ++ parts.flatten
  present : s.handler = .readDr → s.device.rxFifo ≠ []

theorem Output.init (hpc : s.machine.cpu.pc = .returned) : Output s [] s [] [] [] := by
  have hhandler : s.handler = .returned := congrArg handlerOf hpc
  refine ⟨rfl, (List.append_nil _).symm, (List.append_nil _).symm, .nil, ?_, ?_⟩
  · rw [hhandler]
    rfl
  · rw [hhandler]
    exact nofun

variable {said new more : List Reg} {parts : List (List Reg)}

theorem Output.effect (h : Output s₀ arrived s said new parts) (he : Effect c s more t) :
    ∃ said' new' parts', Output s₀ (arrived ++ more) t said' new' parts' := by
  cases he with
  | quiet hpopped hfifo hsent _ hunsent htx hpresent =>
    refine ⟨said, new, parts, ?_, ?_, ?_, h.shuffle, ?_, fun hreads => ?_⟩
    · rw [htx, h.string]
    · rw [hpopped, h.popped]
    · rw [hfifo, ← List.append_assoc, h.arrived, List.append_assoc]
    · rw [hsent, hunsent, h.sent]
    · rcases hpresent hreads with hbefore | hsome
      · rw [hfifo]
        exact List.append_ne_nil_of_left_ne_nil (h.present (hbefore ▸ hreads)) _
      · exact hsome
  | pop hhandler hdevice hnext htx =>
    obtain ⟨w, rest, hw⟩ := List.exists_cons_of_ne_nil (h.present hhandler)
    have hread : s.device.readDr c = (w, (s.device.readDr c).2) := by rw [Pl011.readDr, hw]
    have hpopped : t.device.popped = s.device.popped ++ [w] := by rw [hdevice, Pl011.readDr, hw]
    have hfifo : t.device.rxFifo = rest := by rw [hdevice, Pl011.readDr, hw]
    have hsent : t.device.sent = s.device.sent := by rw [hdevice, Pl011.readDr, hw]
    have hnone : s.handler.unsent = [] := by
      rw [hhandler]
      rfl
    have hline : t.handler.unsent = echoed w := by rw [hnext, send_unsent, hread, echo_words]
    refine ⟨said, new ++ [w], parts ++ [echoed w], ?_, ?_, ?_, ?_, ?_, fun hreads => ?_⟩
    · rw [htx, h.string]
    · rw [hpopped, h.popped, List.append_assoc]
    · rw [hfifo, List.append_nil, List.append_assoc, List.singleton_append, ← hw, h.arrived]
    · rw [List.map_append]
      exact h.shuffle.right _
    · have hbefore := h.sent
      rw [hnone, List.append_nil] at hbefore
      rw [hsent, hline, hbefore, List.flatten_append, List.flatten_singleton, List.append_assoc]
    · rw [hnext] at hreads
      exact absurd hreads (send_ne_readDr _)
  | echo ch rest hhandler hdevice hnext htx =>
    refine ⟨said, new, parts, ?_, ?_, ?_, h.shuffle, ?_, fun hreads => ?_⟩
    · rw [htx, h.string]
    · rw [hdevice]
      exact h.popped
    · rw [hdevice, List.append_nil]
      exact h.arrived
    · have hbefore := h.sent
      rw [hhandler] at hbefore
      have hsent : t.device.sent = s.device.sent ++ [ch.setWidth 32] := by
        rw [hdevice]
        rfl
      rw [hsent, hnext, send_unsent, List.append_assoc, ← hbefore]
      rfl
    · rw [hnext] at hreads
      exact absurd hreads (send_ne_readDr _)
  | main ch rest hruns htx hdevice hhandler hnext =>
    have hreturned : s.handler = .returned := congrArg handlerOf hruns.2
    have hnone : s.handler.unsent = [] := by
      rw [hreturned]
      rfl
    refine ⟨said ++ [ch.setWidth 32], new, parts ++ [[ch.setWidth 32]], ?_, ?_, ?_, ?_, ?_, fun hreads => ?_⟩
    · have hbefore := h.string
      rw [htx] at hbefore
      rw [hnext, TxPc.send_unsent, List.append_assoc, ← hbefore]
      rfl
    · rw [hdevice]
      exact h.popped
    · rw [hdevice, List.append_nil]
      exact h.arrived
    · rw [List.map_append]
      exact h.shuffle.left _
    · have hbefore := h.sent
      have hsent : t.device.sent = s.device.sent ++ [ch.setWidth 32] := by
        rw [hdevice]
        rfl
      rw [hnone, List.append_nil] at hbefore
      rw [hsent, hhandler, hnone, List.append_nil, hbefore, List.flatten_append, List.flatten_singleton, List.append_assoc]
    · rw [hhandler, hreturned] at hreads
      cases hreads

/-- The characters that arrive during a run, in order. -/
def allReceived (acts : List Action) : List Reg := acts.flatMap received

theorem Output.run {acts : List Action} (h : Output s₀ arrived s said new parts)
    (hrun : (system c f).run s acts = some t) :
    ∃ said' new' parts', Output s₀ (arrived ++ allReceived acts) t said' new' parts' := by
  induction acts generalizing s arrived said new parts with
  | nil =>
    cases hrun
    exact ⟨said, new, parts, by simpa [allReceived] using h⟩
  | cons a rest ih =>
    obtain ⟨u, hu, hrest⟩ := Option.bind_eq_some_iff.mp hrun
    obtain ⟨said', new', parts', h'⟩ := h.effect (step_effect hu)
    obtain ⟨said'', new'', parts'', h''⟩ := ih h' hrest
    refine ⟨said'', new'', parts'', ?_⟩
    rwa [List.append_assoc] at h''

theorem banner_words : (TxPc.send banner).unsent =
    words ['R', 'A', 'J', ' ', 'A', 'U', 'R', 'T', '_', 'T', 'E', 'S', 'T', ' ', '\n'] := by
  decide

/-- In every run, from `timer_init` on, the words sent, with those that the handler holds for a line it has begun, are
a shuffle of `main`'s characters so far and the whole lines of the characters read so far, which are those received, in
order, but for what is in the FIFO. -/
theorem console_output (c : Config) (f : BitVec 64) (s t : State) (acts : List Action) (hs : (system c f).init s)
    (hrun : (system c f).run s acts = some t) :
    ∃ said new parts,
      said ++ t.tx.unsent = words ['R', 'A', 'J', ' ', 'A', 'U', 'R', 'T', '_', 'T', 'E', 'S', 'T', ' ', '\n'] ∧
      new ++ t.device.rxFifo = s.device.rxFifo ++ allReceived acts ∧
      Shuffle (said.map fun w => [w]) (new.map echoed) parts ∧
      t.device.sent ++ t.handler.unsent = s.device.sent ++ parts.flatten := by
  obtain ⟨said, new, parts, h⟩ := (Output.init hs.1.2.1).run hrun
  refine ⟨said, new, parts, ?_, h.arrived, h.shuffle, h.sent⟩
  rw [h.string, hs.2.2, banner_words]

/-- The first character of the string is sent; then an `A` arrives, and the handler has begun its line. -/
def interrupted : List Action :=
  List.replicate 6 (.machine .main) ++
    [.tx, .tx, .machine (.line (.receive 0x41)), .machine .irq, .machine (.acknowledge 33)] ++
    List.replicate 8 (.machine .handler)

theorem interrupted_output : ∃ t, (system qemu 62500000).run ⟨Gic.started, .send banner⟩ interrupted = some t ∧
    ∃ said new parts,
      said ++ t.tx.unsent = words ['R', 'A', 'J', ' ', 'A', 'U', 'R', 'T', '_', 'T', 'E', 'S', 'T', ' ', '\n'] ∧
      new ++ t.device.rxFifo = Gic.started.cpu.device.rxFifo ++ allReceived interrupted ∧
      Shuffle (said.map fun w => [w]) (new.map echoed) parts ∧
      t.device.sent ++ t.handler.unsent = Gic.started.cpu.device.sent ++ parts.flatten :=
  ⟨_, rfl, console_output qemu 62500000 ⟨Gic.started, .send banner⟩ _ interrupted (started_init _ _) rfl⟩

end Armv8Driver.Console
