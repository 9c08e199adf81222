import Mathlib.Data.Nat.Init
import Mathlib.Tactic.SplitIfs

/-!
# The PL011

The part of the device that `uart.c` drives: the two FIFOs, the flag register and the interrupt
registers. `RIS` latches a source, `IMSC` selects the sources that assert the line, and `MIS` is what
the two leave. Reading `DR` pops the receive FIFO; a source is cleared by its bit in `ICR` or when
enough of the FIFO has been read.
-/

namespace Armv8Driver.Uart

/-- A device register. -/
abbrev Reg := BitVec 32

def UART_FR_RXFE : Reg := 1#32 <<< 4
def UARTFR_TXFF : Reg := 1#32 <<< 5

def UART_INT_RX : Reg := 1#32 <<< 4
/-- receive timeout -/
def UART_INT_RT : Reg := 1#32 <<< 6

/-- What differs between one PL011 and another: the receive level that raises `UART_INT_RX`, and the
number of characters the transmit FIFO holds. -/
structure Config where
  trigger : Nat
  trigger_pos : 0 < trigger
  txDepth : Nat
  txDepth_pos : 0 < txDepth

/-- `popped` and `sent` are the words read from and written to `DR` so far, in order. -/
structure Pl011 where
  rxFifo : List Reg
  txLevel : Nat
  ris : Reg
  imsc : Reg
  lcr_h : Reg
  cr : Reg
  popped : List Reg
  sent : List Reg
  deriving DecidableEq

namespace Pl011

variable (c : Config) (d : Pl011)

def mis : Reg := d.ris &&& d.imsc

def fr : Reg :=
  (if d.rxFifo = [] then UART_FR_RXFE else 0) ||| (if d.txLevel = c.txDepth then UARTFR_TXFF else 0)

def rxStatus (level : Nat) : Reg := if level < c.trigger then d.ris &&& ~~~UART_INT_RX else d.ris

/-- A read of `DR`. -/
def readDr : Reg × Pl011 :=
  match d.rxFifo with
  | [] => (0, d)
  | w :: rest =>
    let ris := d.rxStatus c rest.length
    (w, { d with rxFifo := rest, ris := if rest = [] then ris &&& ~~~UART_INT_RT else ris, popped := d.popped ++ [w] })

def writeDr (w : Reg) : Pl011 :=
  { d with txLevel := if d.txLevel < c.txDepth then d.txLevel + 1 else d.txLevel, sent := d.sent ++ [w] }

def writeIcr (w : Reg) : Pl011 := { d with ris := d.ris &&& ~~~w }

/-- A character arrives on the line. -/
def receive (w : Reg) : Pl011 :=
  { d with
    rxFifo := d.rxFifo ++ [w]
    ris := if d.rxFifo.length + 1 = c.trigger then d.ris ||| UART_INT_RX else d.ris }

/-- A character leaves on the line. -/
def transmit : Option Pl011 := if 0 < d.txLevel then some { d with txLevel := d.txLevel - 1 } else none

/-- The line has been idle with characters left in the receive FIFO. -/
def timeout : Option Pl011 := if d.rxFifo = [] then none else some { d with ris := d.ris ||| UART_INT_RT }

/-- The receive interrupt asserts the line. -/
def rxPending : Bool := d.mis &&& UART_INT_RX ≠ 0

end Pl011

/-! ### Single bits of a register -/

theorem and_bit_ne_zero {r : Reg} {i : Nat} (hi : i < 32) : r &&& 1#32 <<< i ≠ 0 ↔ r.getLsbD i = true := by
  have hbit : 1#32 <<< i = BitVec.twoPow 32 i := rfl
  rw [hbit, BitVec.and_twoPow]
  cases hr : r.getLsbD i with
  | false => simp
  | true =>
    simp only [if_true, ne_eq, iff_true]
    intro hzero
    have hget := congrArg (fun x : Reg => x.getLsbD i) hzero
    simp [hi] at hget

namespace Pl011

variable {c : Config} {d : Pl011} {w : Reg}

theorem rxPending_iff : d.rxPending = true ↔ d.ris.getLsbD 4 = true ∧ d.imsc.getLsbD 4 = true := by
  rw [rxPending, decide_eq_true_iff, UART_INT_RX, and_bit_ne_zero (by decide), mis, BitVec.getLsbD_and, Bool.and_eq_true]

/-- The handler's loop condition. -/
theorem fr_rxfe : d.fr c &&& UART_FR_RXFE = 0 ↔ d.rxFifo ≠ [] := by
  have hbit : d.fr c &&& UART_FR_RXFE ≠ 0 ↔ d.rxFifo = [] := by
    rw [UART_FR_RXFE, and_bit_ne_zero (by decide), fr]
    split_ifs with hempty hfull hfull
    · simp [hempty, UART_FR_RXFE, UARTFR_TXFF]
    · simp [hempty, UART_FR_RXFE]
    · simp [hempty, UARTFR_TXFF]
    · simp [hempty]
  rw [ne_eq, ← hbit, ne_eq, Decidable.not_not]

theorem fr_txff : d.fr c &&& UARTFR_TXFF ≠ 0 ↔ d.txLevel = c.txDepth := by
  rw [UARTFR_TXFF, and_bit_ne_zero (by decide), fr]
  split_ifs with hempty hfull hfull
  · simp [hfull, UART_FR_RXFE, UARTFR_TXFF]
  · simp [hfull, UART_FR_RXFE]
  · simp [hfull, UARTFR_TXFF]
  · simp [hfull]

/-- Clearing the receive interrupt drops it whatever the FIFO holds. -/
theorem writeIcr_rxPending : (d.writeIcr UART_INT_RX).rxPending = false := by
  rw [Bool.eq_false_iff, ne_eq, rxPending_iff]
  rintro ⟨hris, -⟩
  simp [writeIcr, UART_INT_RX] at hris

@[simp] theorem writeIcr_rxFifo : (d.writeIcr w).rxFifo = d.rxFifo := rfl

@[simp] theorem writeIcr_imsc : (d.writeIcr w).imsc = d.imsc := rfl

@[simp] theorem receive_rxFifo : (d.receive c w).rxFifo = d.rxFifo ++ [w] := rfl

@[simp] theorem receive_imsc : (d.receive c w).imsc = d.imsc := rfl

@[simp] theorem writeDr_imsc : (d.writeDr c w).imsc = d.imsc := rfl

@[simp] theorem readDr_imsc : (d.readDr c).2.imsc = d.imsc := by
  unfold readDr
  split <;> rfl

/-- The character that brings the FIFO to the trigger level raises the interrupt. -/
theorem receive_rxPending (himsc : d.imsc.getLsbD 4 = true) (hlevel : d.rxFifo.length + 1 = c.trigger) :
    (d.receive c w).rxPending = true := by
  rw [rxPending_iff]
  refine ⟨?_, himsc⟩
  simp [receive, hlevel, UART_INT_RX]

/-- Any other character leaves it as it was. -/
theorem receive_rxPending_of_ne (hlevel : d.rxFifo.length + 1 ≠ c.trigger) :
    (d.receive c w).rxPending = d.rxPending := by
  have hris : (d.receive c w).ris = d.ris := if_neg hlevel
  rw [Bool.eq_iff_iff, rxPending_iff, rxPending_iff, hris, receive_imsc]

theorem transmit_eq_some {d' : Pl011} (h : d.transmit = some d') : d' = { d with txLevel := d'.txLevel } := by
  obtain ⟨-, hs⟩ := Option.ite_none_right_eq_some.mp h
  cases hs
  rfl

theorem timeout_eq_some {d' : Pl011} (h : d.timeout = some d') :
    d' = { d with ris := d'.ris } ∧ d'.rxPending = d.rxPending := by
  obtain ⟨-, hs⟩ := Option.ite_none_left_eq_some.mp h
  cases hs
  refine ⟨rfl, ?_⟩
  rw [Bool.eq_iff_iff, rxPending_iff, rxPending_iff]
  simp [UART_INT_RT]

end Pl011

end Armv8Driver.Uart
