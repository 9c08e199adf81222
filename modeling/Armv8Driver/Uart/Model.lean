import Armv8Driver.Transition.System
import Armv8Driver.Uart.Pl011

/-!
# `uart.c` as a transition system

One step is one access of the processor to a device register or one event of the line. A run starts
where `uart_irq_handler` is called with the masked receive interrupt set, the device being otherwise
in any state; the line goes on after the handler has returned.
-/

namespace Armv8Driver.Uart

open Transition

abbrev Byte := BitVec 8

def UART_LCR_FEN : Reg := 1#32 <<< 4
def UART_LCR_WLEN8 : Reg := 3#32 <<< 5
def UART_CR_UARTEN : Reg := 1#32 <<< 0
def UART_CR_TXE : Reg := 1#32 <<< 8
def UART_CR_RXE : Reg := 1#32 <<< 9

def uart_init (d : Pl011) : Pl011 :=
  { d.writeIcr 0x7FF with
    lcr_h := UART_LCR_FEN ||| UART_LCR_WLEN8
    cr := UART_CR_UARTEN ||| UART_CR_TXE ||| UART_CR_RXE }

def uart_irq_enable (d : Pl011) : Pl011 := { d with imsc := d.imsc ||| (UART_INT_RX ||| UART_INT_RT) }

/-- A string literal, with the terminator. -/
def literal (s : List Char) : List Byte := s.map (fun ch => BitVec.ofNat 8 ch.toNat) ++ [0]

/-- The characters that `uart_tx_string` passes to `uart_tx`. -/
def uart_tx_string (ch : List Byte) : List Byte := ch.takeWhile (fun x => x ≠ 0)

/-- What the loop body passes to `uart_tx` for the character it has read. -/
def echo (c : Byte) : List Byte :=
  uart_tx_string (literal ['R', 'e', 'c', 'e', 'i', 'v', 'e', 'd', ':', ' ']) ++ [c] ++
    uart_tx_string (literal ['\r', '\n'])

/-- Where `uart_irq_handler` is, by the register it accesses next. `pollFr` and `writeDr` are inside
`uart_tx`; they carry its argument and the characters that follow before the loop turns. -/
inductive HandlerPc where
  | readMis
  | readFr
  | readDr
  | pollFr (ch : Byte) (rest : List Byte)
  | writeDr (ch : Byte) (rest : List Byte)
  | writeIcr
  | returned
  deriving DecidableEq

/-- Where the handler goes on with characters left to send. -/
def HandlerPc.send : List Byte → HandlerPc
  | [] => .readFr
  | ch :: rest => .pollFr ch rest

structure State where
  device : Pl011
  pc : HandlerPc
  deriving DecidableEq

inductive Action where
  | handler
  | receive (w : Reg)
  | transmit
  | timeout
  deriving DecidableEq

/-- One register access of `uart_irq_handler`. -/
def uart_irq_handler (c : Config) (d : Pl011) : HandlerPc → Option (Pl011 × HandlerPc)
  | .readMis => some (d, if d.mis &&& UART_INT_RX ≠ 0 then .readFr else .returned)
  | .readFr => some (d, if d.fr c &&& UART_FR_RXFE = 0 then .readDr else .writeIcr)
  | .readDr =>
    let (w, d') := d.readDr c
    some (d', .send (echo ((w &&& 0xFF).setWidth 8)))
  | .pollFr ch rest => some (d, if d.fr c &&& UARTFR_TXFF ≠ 0 then .pollFr ch rest else .writeDr ch rest)
  | .writeDr ch rest => some (d.writeDr c (ch.setWidth 32), .send rest)
  | .writeIcr => some (d.writeIcr UART_INT_RX, .returned)
  | .returned => none

def step (c : Config) (s : State) : Action → Option State
  | .handler => do
    let (d, pc) ← uart_irq_handler c s.device s.pc
    some ⟨d, pc⟩
  | .receive w => some { s with device := s.device.receive c w }
  | .transmit => do
    let d ← s.device.transmit
    some { s with device := d }
  | .timeout => do
    let d ← s.device.timeout
    some { s with device := d }

def system (c : Config) : System State Action where
  init s := s.pc = .readMis ∧ s.device.rxPending = true
  step := step c

variable {c : Config} {s t : State} {d : Pl011} {w : Reg}

/-- Once the driver has enabled its interrupts on an empty FIFO, the character that fills it to the
trigger level makes the handler run. -/
theorem rxPending_of_enabled (hlevel : d.rxFifo.length + 1 = c.trigger) :
    ((uart_irq_enable (uart_init d)).receive c w).rxPending = true := by
  apply Pl011.receive_rxPending
  · simp [uart_irq_enable, UART_INT_RX]
  · exact hlevel

theorem step_transmit (h : step c s .transmit = some t) :
    t = { s with device := { s.device with txLevel := t.device.txLevel } } := by
  obtain ⟨d, hd, hs⟩ := Option.bind_eq_some_iff.mp h
  have hframe := Pl011.transmit_eq_some hd
  cases hs
  exact congrArg (fun d => State.mk d s.pc) hframe

theorem step_timeout (h : step c s .timeout = some t) :
    t = { s with device := { s.device with ris := t.device.ris } } ∧ t.device.rxPending = s.device.rxPending := by
  obtain ⟨d, hd, hs⟩ := Option.bind_eq_some_iff.mp h
  obtain ⟨hframe, hpending⟩ := Pl011.timeout_eq_some hd
  cases hs
  exact ⟨congrArg (fun d => State.mk d s.pc) hframe, hpending⟩

end Armv8Driver.Uart
