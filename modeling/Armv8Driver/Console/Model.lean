import Armv8Driver.Gic.Machine
import Armv8Driver.Transition.Log

/-!
# The console of the GIC image

`main` sends a string with `uart_tx_string` once it has unmasked the interrupts, and `uart_irq_handler` sends
lines to the same `DR`. This puts `uart_tx_string` beside the machine of `Gic.Machine`: `main` runs only while no
exception is being handled, and an exception can be taken between any two of its register accesses.
-/

namespace Armv8Driver.Console

open Transition
open Gic (Machine Act)
open Uart (Byte Config Pl011 Reg UARTFR_TXFF literal uart_tx_string)

/-- The characters of the call in `main`. -/
def banner : List Byte :=
  uart_tx_string (literal ['R', 'A', 'J', ' ', 'A', 'U', 'R', 'T', '_', 'T', 'E', 'S', 'T', ' ', '\n'])

/-- Where `main` is in `uart_tx_string`, with the argument of `uart_tx` and the characters behind it. -/
inductive TxPc where
  | pollFr (ch : Byte) (rest : List Byte)
  | writeDr (ch : Byte) (rest : List Byte)
  | returned
  deriving DecidableEq

def TxPc.send : List Byte → TxPc
  | [] => .returned
  | ch :: rest => .pollFr ch rest

structure State where
  machine : Machine
  tx : TxPc

/-- A step of the rest of the machine, or of `main` in `uart_tx_string`. -/
inductive Action where
  | machine (a : Act)
  | tx
  deriving DecidableEq

/-- One register access of `uart_tx`, and the return to the loop of `uart_tx_string`. -/
def uart_tx (c : Config) (d : Pl011) : TxPc → Option (Pl011 × TxPc)
  | .pollFr ch rest => some (d, if d.fr c &&& UARTFR_TXFF ≠ 0 then .pollFr ch rest else .writeDr ch rest)
  | .writeDr ch rest => some (d.writeDr c (ch.setWidth 32), .send rest)
  | .returned => none

/-- `main` runs: the interrupts are unmasked and none is being handled. -/
def State.runs (s : State) : Prop := s.machine.main = .idle ∧ s.machine.cpu.pc = .returned

instance (s : State) : Decidable s.runs := inferInstanceAs (Decidable (_ ∧ _))

def State.setDevice (s : State) (d : Pl011) (tx : TxPc) : State :=
  { machine := { s.machine with cpu := { s.machine.cpu with device := d } }, tx := tx }

def step (c : Config) (f : BitVec 64) (s : State) : Action → Option State
  | .machine a => (Gic.step c f s.machine a).map fun m => { s with machine := m }
  | .tx => if s.runs then (uart_tx c s.machine.cpu.device s.tx).map fun r => s.setDevice r.1 r.2 else none

/-- `timer_init` is called; the transmit FIFO holds no more than it can. -/
def system (c : Config) (f : BitVec 64) : System State Action where
  init s := (Gic.system c f).init s.machine ∧ s.machine.cpu.device.txLevel ≤ c.txDepth ∧ s.tx = .send banner
  step := step c f

theorem started_init (c : Config) (f : BitVec 64) : (system c f).init ⟨Gic.started, .send banner⟩ :=
  ⟨⟨rfl, rfl, rfl, rfl⟩, Nat.zero_le _, rfl⟩

abbrev State.device (s : State) : Pl011 := s.machine.cpu.device

end Armv8Driver.Console
