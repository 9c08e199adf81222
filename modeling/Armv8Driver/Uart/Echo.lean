import Armv8Driver.Uart.Stranded

/-!
# What the handler echoes

A run of `uart_irq_handler` pops characters from the receive FIFO and sends a line for each of them.
At every point of a run the characters sent, followed by those that the handler still holds for the
character it has read, are the lines of the characters popped.
-/

namespace Armv8Driver.Uart

open Transition

/-- The words of a string, as `DR` takes them. -/
def words (s : List Char) : List Reg := s.map fun ch => BitVec.ofNat 32 ch.toNat

/-- The line for a character read from `DR`: its low 8 bits after `Received: `, and CR LF. -/
def echoed (w : Reg) : List Reg :=
  words ['R', 'e', 'c', 'e', 'i', 'v', 'e', 'd', ':', ' '] ++ [w &&& 0xFF] ++ words ['\r', '\n']

/-- The characters that arrive during a run, in order. -/
def arrivals : List Action → List Reg
  | [] => []
  | .receive w :: rest => w :: arrivals rest
  | _ :: rest => arrivals rest

/-- Where the handler still has characters to send. -/
def HandlerPc.unsent : HandlerPc → List Reg
  | .pollFr ch rest | .writeDr ch rest => (ch :: rest).map (BitVec.setWidth 32)
  | _ => []

/-- From the device `d₀`, and with `arrived` received since: nothing popped is lost or out of order, and
its lines are sent but for what the handler holds. It reads `DR` only for a character that is there. -/
structure Echoing (d₀ : Pl011) (arrived : List Reg) (s : State) : Prop where
  popped : ∃ new, s.device.popped = d₀.popped ++ new ∧ new ++ s.device.rxFifo = d₀.rxFifo ++ arrived ∧
    s.device.sent ++ s.pc.unsent = d₀.sent ++ new.flatMap echoed
  present : s.pc = .readDr → s.device.rxFifo ≠ []

variable {c : Config} {d₀ : Pl011} {arrived : List Reg} {s t : State}

/-- `uart_tx_string` sends the whole of both strings, and `uart_tx` any character, the one with code 0
included. -/
theorem echo_words (w : Reg) : (echo ((w &&& 0xFF).setWidth 8)).map (BitVec.setWidth 32) = echoed w := by
  have hlow : ((w &&& 0xFF).setWidth 8).setWidth 32 = w &&& 0xFF := by
    apply BitVec.eq_of_toNat_eq
    have hmask : (w &&& 0xFF).toNat = w.toNat % 2 ^ 8 := Nat.and_two_pow_sub_one_eq_mod _ 8
    rw [BitVec.toNat_setWidth, BitVec.toNat_setWidth, hmask]
    omega
  rw [echo, echoed, List.map_append, List.map_append, List.map_singleton, hlow]
  rfl

theorem send_unsent (l : List Byte) : (HandlerPc.send l).unsent = l.map (BitVec.setWidth 32) := by
  cases l <;> rfl

theorem send_ne_readDr (l : List Byte) : HandlerPc.send l ≠ .readDr := by
  cases l <;> simp [HandlerPc.send]

/-! ### The steps -/

theorem Echoing.init (hpc : s.pc = .readMis) : Echoing s.device [] s := by
  refine ⟨⟨[], by simp, by simp, ?_⟩, ?_⟩
  · rw [hpc]
    rfl
  · rw [hpc]
    simp

/-- A step that neither pops nor sends, and leaves the handler with the same characters. -/
theorem Echoing.congr (h : Echoing d₀ arrived s) (hpopped : t.device.popped = s.device.popped)
    (hfifo : t.device.rxFifo = s.device.rxFifo) (hsent : t.device.sent = s.device.sent)
    (hunsent : t.pc.unsent = s.pc.unsent) (hpresent : t.pc = .readDr → t.device.rxFifo ≠ []) : Echoing d₀ arrived t := by
  refine ⟨?_, hpresent⟩
  rw [hpopped, hfifo, hsent, hunsent]
  exact h.popped

theorem Echoing.readDr (h : Echoing d₀ arrived s) (hpc : s.pc = .readDr) :
    Echoing d₀ arrived ⟨(s.device.readDr c).2, .send (echo (((s.device.readDr c).1 &&& 0xFF).setWidth 8))⟩ := by
  obtain ⟨new, hpopped, hfifo, hsent⟩ := h.popped
  obtain ⟨w, rest, hw⟩ := List.exists_cons_of_ne_nil (h.present hpc)
  have hread : (s.device.readDr c).1 = w := by rw [Pl011.readDr, hw]
  have hpopped' : (s.device.readDr c).2.popped = s.device.popped ++ [w] := by rw [Pl011.readDr, hw]
  have hfifo' : (s.device.readDr c).2.rxFifo = rest := by rw [Pl011.readDr, hw]
  have hsent' : (s.device.readDr c).2.sent = s.device.sent := by rw [Pl011.readDr, hw]
  refine ⟨⟨new ++ [w], ?_, ?_, ?_⟩, ?_⟩
  · rw [hpopped', hpopped, List.append_assoc]
  · rw [hfifo', List.append_assoc, List.singleton_append, ← hw, hfifo]
  · have hnone : s.pc.unsent = [] := by rw [hpc]; rfl
    rw [hnone, List.append_nil] at hsent
    rw [hsent', send_unsent, hread, echo_words, hsent, List.flatMap_append, List.flatMap_singleton, List.append_assoc]
  · dsimp only
    exact fun hdr => absurd hdr (send_ne_readDr _)

theorem Echoing.writeDr {ch : Byte} {rest : List Byte} (h : Echoing d₀ arrived s) (hpc : s.pc = .writeDr ch rest) :
    Echoing d₀ arrived ⟨s.device.writeDr c (ch.setWidth 32), .send rest⟩ := by
  obtain ⟨new, hpopped, hfifo, hsent⟩ := h.popped
  refine ⟨⟨new, hpopped, hfifo, ?_⟩, fun hdr => absurd hdr (send_ne_readDr rest)⟩
  have hsent' : (s.device.writeDr c (ch.setWidth 32)).sent = s.device.sent ++ [ch.setWidth 32] := rfl
  rw [hpc] at hsent
  rw [hsent', send_unsent, List.append_assoc, ← hsent]
  rfl

theorem Echoing.handler (h : Echoing d₀ arrived s) (hstep : step c s .handler = some t) : Echoing d₀ arrived t := by
  obtain ⟨⟨d, pc⟩, hd, hs⟩ := Option.bind_eq_some_iff.mp hstep
  cases hs
  cases hpc : s.pc with
  | readMis =>
    rw [hpc] at hd
    cases hd
    refine h.congr rfl rfl rfl ?_ ?_
    · rw [hpc]
      dsimp only
      split_ifs <;> rfl
    · dsimp only
      split_ifs <;> simp
  | readFr =>
    rw [hpc] at hd
    cases hd
    refine h.congr rfl rfl rfl ?_ ?_
    · rw [hpc]
      dsimp only
      split_ifs <;> rfl
    · intro hdr
      have hmore : s.device.fr c &&& UART_FR_RXFE = 0 := by
        by_contra hempty
        rw [if_neg hempty] at hdr
        cases hdr
      exact Pl011.fr_rxfe.mp hmore
  | readDr =>
    rw [hpc] at hd
    cases hd
    exact h.readDr hpc
  | pollFr ch rest =>
    rw [hpc] at hd
    cases hd
    refine h.congr rfl rfl rfl ?_ ?_
    · rw [hpc]
      dsimp only
      split_ifs <;> rfl
    · dsimp only
      split_ifs <;> simp
  | writeDr ch rest =>
    rw [hpc] at hd
    cases hd
    exact h.writeDr hpc
  | writeIcr =>
    rw [hpc] at hd
    cases hd
    refine h.congr rfl rfl rfl ?_ ?_
    · rw [hpc]
      rfl
    · simp
  | returned =>
    rw [hpc] at hd
    cases hd

theorem Echoing.receive {w : Reg} (h : Echoing d₀ arrived s) (hstep : step c s (.receive w) = some t) :
    Echoing d₀ (arrived ++ [w]) t := by
  obtain ⟨new, hpopped, hfifo, hsent⟩ := h.popped
  cases hstep
  refine ⟨⟨new, hpopped, ?_, hsent⟩, fun _ => by simp⟩
  show new ++ (s.device.rxFifo ++ [w]) = _
  rw [← List.append_assoc, hfifo, List.append_assoc]

/-- The characters of an action's arrival, none or one. -/
theorem Echoing.step {a : Action} (h : Echoing d₀ arrived s) (hstep : step c s a = some t) :
    Echoing d₀ (arrived ++ arrivals [a]) t := by
  cases a with
  | handler =>
    have hnext := h.handler hstep
    simpa [arrivals] using hnext
  | receive w => exact h.receive hstep
  | transmit =>
    rw [step_transmit hstep]
    have hnext : Echoing d₀ arrived { s with device := { s.device with txLevel := t.device.txLevel } } :=
      h.congr rfl rfl rfl rfl h.present
    simpa [arrivals] using hnext
  | timeout =>
    rw [(step_timeout hstep).1]
    have hnext : Echoing d₀ arrived { s with device := { s.device with ris := t.device.ris } } :=
      h.congr rfl rfl rfl rfl h.present
    simpa [arrivals] using hnext

theorem arrivals_cons (a : Action) (rest : List Action) : arrivals (a :: rest) = arrivals [a] ++ arrivals rest := by
  cases a <;> rfl

theorem Echoing.run {acts : List Action} (h : Echoing d₀ arrived s) (hrun : (system c).run s acts = some t) :
    Echoing d₀ (arrived ++ arrivals acts) t := by
  induction acts generalizing s arrived with
  | nil =>
    cases hrun
    simpa [arrivals] using h
  | cons a rest ih =>
    obtain ⟨u, hu, hrest⟩ := Option.bind_eq_some_iff.mp hrun
    have htail := ih (h.step hu) hrest
    rwa [List.append_assoc, ← arrivals_cons] at htail

/-! ### Room in the transmit FIFO -/

/-- The transmit FIFO holds no more than it can, and less than that where the handler writes to it. -/
structure Roomy (c : Config) (s : State) : Prop where
  level_le : s.device.txLevel ≤ c.txDepth
  room : ∀ ch rest, s.pc = .writeDr ch rest → s.device.txLevel < c.txDepth

/-- A step that sends a character finds `TXFF` clear. -/
def SendsWithRoom (c : Config) (s : State) (a : Action) : Prop :=
  ∀ t, step c s a = some t → t.device.sent ≠ s.device.sent → s.device.fr c &&& UARTFR_TXFF = 0

theorem send_ne_writeDr (l : List Byte) (ch : Byte) (rest : List Byte) : HandlerPc.send l ≠ .writeDr ch rest := by
  cases l <;> simp [HandlerPc.send]

theorem readDr_txLevel (d : Pl011) : (d.readDr c).2.txLevel = d.txLevel := by
  unfold Pl011.readDr
  split <;> rfl

theorem readDr_sent (d : Pl011) : (d.readDr c).2.sent = d.sent := by
  unfold Pl011.readDr
  split <;> rfl

theorem writeDr_txLevel_le {d : Pl011} {w : Reg} (h : d.txLevel ≤ c.txDepth) : (d.writeDr c w).txLevel ≤ c.txDepth := by
  unfold Pl011.writeDr
  dsimp only
  split_ifs <;> omega

/-- The handler writes behind a poll that has found room. -/
theorem Roomy.handler (h : Roomy c s) (hstep : step c s .handler = some t) : Roomy c t := by
  obtain ⟨⟨d, pc⟩, hd, hs⟩ := Option.bind_eq_some_iff.mp hstep
  cases hs
  have hlevel := h.level_le
  cases hpc : s.pc with
  | readMis | readFr =>
    rw [hpc] at hd
    cases hd
    refine ⟨hlevel, ?_⟩
    dsimp only
    split_ifs <;> simp
  | readDr =>
    rw [hpc] at hd
    cases hd
    refine ⟨?_, ?_⟩
    · exact (readDr_txLevel s.device).trans_le hlevel
    · dsimp only
      exact fun ch rest hdr => absurd hdr (send_ne_writeDr _ ch rest)
  | pollFr ch rest =>
    rw [hpc] at hd
    cases hd
    refine ⟨hlevel, fun ch' rest' hdr => ?_⟩
    have hclear : ¬ s.device.fr c &&& UARTFR_TXFF ≠ 0 := by
      intro hfull
      rw [if_pos hfull] at hdr
      cases hdr
    rw [Pl011.fr_txff] at hclear
    exact Nat.lt_of_le_of_ne hlevel hclear
  | writeDr ch rest =>
    rw [hpc] at hd
    cases hd
    exact ⟨writeDr_txLevel_le hlevel, fun ch' rest' hdr => absurd hdr (send_ne_writeDr rest ch' rest')⟩
  | writeIcr =>
    rw [hpc] at hd
    cases hd
    exact ⟨hlevel, by simp⟩
  | returned =>
    rw [hpc] at hd
    cases hd

theorem Roomy.step {a : Action} (h : Roomy c s) (hstep : step c s a = some t) : Roomy c t := by
  cases a with
  | handler => exact h.handler hstep
  | receive w =>
    cases hstep
    exact ⟨h.level_le, h.room⟩
  | transmit =>
    obtain ⟨d, hd, hs⟩ := Option.bind_eq_some_iff.mp hstep
    obtain ⟨-, hd⟩ := Option.ite_none_right_eq_some.mp hd
    cases hd
    cases hs
    exact ⟨Nat.le_trans (Nat.sub_le _ _) h.level_le, fun ch rest hdr => Nat.lt_of_le_of_lt (Nat.sub_le _ _) (h.room ch rest hdr)⟩
  | timeout =>
    rw [(step_timeout hstep).1]
    exact ⟨h.level_le, h.room⟩

/-- Only the write to `DR` sends a character. -/
theorem sent_of_ne_writeDr {a : Action} (hstep : step c s a = some t) (hpc : ∀ ch rest, s.pc ≠ .writeDr ch rest) :
    t.device.sent = s.device.sent := by
  cases a with
  | handler =>
    obtain ⟨⟨d, pc⟩, hd, hs⟩ := Option.bind_eq_some_iff.mp hstep
    cases hs
    cases hs' : s.pc with
    | readDr =>
      rw [hs'] at hd
      cases hd
      exact readDr_sent _
    | writeDr ch rest => exact absurd hs' (hpc ch rest)
    | _ =>
      rw [hs'] at hd
      cases hd
      try rfl
  | receive w =>
    cases hstep
    rfl
  | transmit => rw [step_transmit hstep]
  | timeout => rw [(step_timeout hstep).1]

theorem Roomy.sendsWithRoom {a : Action} (h : Roomy c s) : SendsWithRoom c s a := by
  intro t hstep hsent
  by_contra hfull
  have hlevel : s.device.txLevel = c.txDepth := Pl011.fr_txff.mp hfull
  apply hsent
  apply sent_of_ne_writeDr hstep
  intro ch rest hpc
  have hroom := h.room ch rest hpc
  omega

/-- A run that returns has sent the lines of the characters it popped, in the order of their arrival, and
no character while the transmit FIFO was full. -/
theorem echo_exact (c : Config) (s t : State) (acts : List Action) (hs : (system c).init s)
    (hrun : (system c).run s acts = some t) (hret : t.pc = .returned) :
    (∃ new, t.device.popped = s.device.popped ++ new ∧ new ++ t.device.rxFifo = s.device.rxFifo ++ arrivals acts ∧
        t.device.sent = s.device.sent ++ new.flatMap echoed) ∧
      (s.device.txLevel ≤ c.txDepth → (system c).Along (SendsWithRoom c) s acts) := by
  have hecho := (Echoing.init hs.1).run hrun
  have hnone : t.pc.unsent = [] := by rw [hret, HandlerPc.unsent] <;> simp
  refine ⟨?_, fun hlevel => ?_⟩
  · obtain ⟨new, hpopped, hfifo, hsent⟩ := hecho.popped
    rw [hnone, List.append_nil] at hsent
    exact ⟨new, hpopped, hfifo, hsent⟩
  · have hroomy : Roomy c s := by
      refine ⟨hlevel, ?_⟩
      rw [hs.1]
      simp
    exact .of_invariant (fun u a hu => hu.sendsWithRoom) (fun u a v hu hstep => hu.step hstep) hroomy

/-- The handler has returned after one character. -/
def oneByteEchoed : State where
  device := { oneByte.device with rxFifo := [], txLevel := 13, ris := 0, popped := [0x41], sent := echoed 0x41 }
  pc := .returned

theorem oneByteEchoed_exact :
    (∃ new, oneByteEchoed.device.popped = oneByte.device.popped ++ new ∧
        new ++ oneByteEchoed.device.rxFifo = oneByte.device.rxFifo ++ arrivals (List.replicate 31 .handler) ∧
        oneByteEchoed.device.sent = oneByte.device.sent ++ new.flatMap echoed) ∧
      (system qemu).Along (SendsWithRoom qemu) oneByte (List.replicate 31 .handler) := by
  have hlevel : oneByte.device.txLevel ≤ qemu.txDepth := by decide
  obtain ⟨hecho, hroom⟩ := echo_exact qemu oneByte oneByteEchoed (List.replicate 31 .handler) ⟨rfl, by decide⟩ rfl rfl
  exact ⟨hecho, hroom hlevel⟩

end Armv8Driver.Uart
