import Armv8Driver.Arm.Memory
import Mathlib.Logic.Function.Basic

/-!
# Straight-line code around an exception

The general registers, the stack pointer, the system registers of an exception taken to EL1 and memory,
with the instructions that save and restore them. Offsets are from the stack pointer.
-/

namespace Arm

inductive SysReg where
  | ELR_EL1 | SPSR_EL1 | ESR_EL1 | FAR_EL1
  deriving DecidableEq

/-- The registers `x0` to `x30` are written as numerals. -/
instance instNeZeroRegister : @NeZero Nat Zero.ofOfNat0 31 := ⟨Nat.succ_ne_zero 30⟩

@[ext] structure Machine where
  x : Fin 31 → Word
  sp : Word
  sys : SysReg → Word
  mem : Memory

inductive Instr where
  | subSp (imm : Nat)
  | addSp (imm : Nat)
  | stp (t u : Fin 31) (off : Nat)
  | str (t : Fin 31) (off : Nat)
  | ldp (t u : Fin 31) (off : Nat)
  | ldr (t : Fin 31) (off : Nat)
  | mrs (t : Fin 31) (r : SysReg)
  | msr (r : SysReg) (t : Fin 31)
  | movFromSp (t : Fin 31)
  deriving DecidableEq

namespace Machine

def setX (m : Machine) (t : Fin 31) (v : Word) : Machine := { m with x := Function.update m.x t v }

def storeX (m : Machine) (t : Fin 31) (off : Nat) : Machine :=
  { m with mem := m.mem.store64 (m.sp + .ofNat 64 off) (m.x t) }

def loadX (m : Machine) (t : Fin 31) (off : Nat) : Machine := m.setX t (m.mem.load64 (m.sp + .ofNat 64 off))

def exec (m : Machine) : Instr → Machine
  | .subSp imm => { m with sp := m.sp - .ofNat 64 imm }
  | .addSp imm => { m with sp := m.sp + .ofNat 64 imm }
  | .stp t u off => (m.storeX t off).storeX u (off + 8)
  | .str t off => m.storeX t off
  | .ldp t u off => (m.loadX t off).loadX u (off + 8)
  | .ldr t off => m.loadX t off
  | .mrs t r => m.setX t (m.sys r)
  | .msr r t => { m with sys := Function.update m.sys r (m.x t) }
  | .movFromSp t => m.setX t m.sp

def run (m : Machine) (code : List Instr) : Machine := code.foldl exec m

/-- The link register is `x30`. -/
def bl (m : Machine) (link : Word) : Machine := m.setX (Fin.last 30) link

end Machine

end Arm
