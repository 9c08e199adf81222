import Armv8Driver.Arm.Frame
import Mathlib.Data.Fintype.Basic
import Mathlib.Tactic.FinCases

/-!
# The exception frame of `04_GIC_Interrupt`

`save_context` and `restore_context` of `vector.S`, the C view `struct pt_regs` of the frame between
them, and the two vectors that use them.
-/

namespace Armv8Driver.GicInterrupt

open Arm

def PT_REGS_SIZE : Nat := 288

def save_context : List Instr := [
  .subSp PT_REGS_SIZE,
  .stp 0 1 (16 * 0),
  .stp 2 3 (16 * 1),
  .stp 4 5 (16 * 2),
  .stp 6 7 (16 * 3),
  .stp 8 9 (16 * 4),
  .stp 10 11 (16 * 5),
  .stp 12 13 (16 * 6),
  .stp 14 15 (16 * 7),
  .stp 16 17 (16 * 8),
  .stp 18 19 (16 * 9),
  .stp 20 21 (16 * 10),
  .stp 22 23 (16 * 11),
  .stp 24 25 (16 * 12),
  .stp 26 27 (16 * 13),
  .stp 28 29 (16 * 14),
  .str 30 (16 * 15),
  .mrs 20 .ELR_EL1,
  .str 20 (8 * 31),
  .mrs 21 .SPSR_EL1,
  .str 21 (8 * 32),
  .mrs 22 .ESR_EL1,
  .str 22 (8 * 33),
  .mrs 23 .FAR_EL1,
  .str 23 (8 * 34),
  .movFromSp 0]

def restore_context : List Instr := [
  .ldr 20 (8 * 31),
  .msr .ELR_EL1 20,
  .ldr 21 (8 * 32),
  .msr .SPSR_EL1 21,
  .ldr 22 (8 * 33),
  .msr .ESR_EL1 22,
  .ldr 23 (8 * 34),
  .msr .FAR_EL1 23,
  .ldr 30 (16 * 15),
  .ldp 28 29 (16 * 14),
  .ldp 26 27 (16 * 13),
  .ldp 24 25 (16 * 12),
  .ldp 22 23 (16 * 11),
  .ldp 20 21 (16 * 10),
  .ldp 18 19 (16 * 9),
  .ldp 16 17 (16 * 8),
  .ldp 14 15 (16 * 7),
  .ldp 12 13 (16 * 6),
  .ldp 10 11 (16 * 5),
  .ldp 8 9 (16 * 4),
  .ldp 6 7 (16 * 3),
  .ldp 4 5 (16 * 2),
  .ldp 2 3 (16 * 1),
  .ldp 0 1 (16 * 0),
  .addSp PT_REGS_SIZE]

inductive Handler where
  | sync_current_spx_handler | irq_handler
  deriving DecidableEq

/-- A vector that saves, calls a handler with `bl`, restores and returns with `eret`. -/
structure Vector where
  before : List Instr
  handler : Handler
  after : List Instr

def sync_current_spx : Vector := ⟨save_context, .sync_current_spx_handler, restore_context⟩

def irq_current_spx : Vector := ⟨save_context, .irq_handler, restore_context⟩

/-- The fields `x0` to `x30`, and the system registers. -/
@[ext] structure pt_regs where
  x : Fin 31 → Word
  elr_el1 : Word
  spsr_el1 : Word
  esr_el1 : Word
  far_el1 : Word

/-- The structure at an address. All its fields are `uint64_t`, so it has no padding. -/
def pt_regs.at (mem : Memory) (regs : Word) : pt_regs where
  x i := mem.load64 (regs + .ofNat 64 (8 * i))
  elr_el1 := mem.load64 (regs + .ofNat 64 (8 * 31))
  spsr_el1 := mem.load64 (regs + .ofNat 64 (8 * 32))
  esr_el1 := mem.load64 (regs + .ofNat 64 (8 * 33))
  far_el1 := mem.load64 (regs + .ofNat 64 (8 * 34))

/-- What the fields are named after. -/
def pt_regs.of (m : Machine) : pt_regs where
  x := m.x
  elr_el1 := m.sys .ELR_EL1
  spsr_el1 := m.sys .SPSR_EL1
  esr_el1 := m.sys .ESR_EL1
  far_el1 := m.sys .FAR_EL1

/-! ### The frame -/

/-- What `save_context` stores at offset `8 * i`. -/
def frameWord (m : Machine) (i : Nat) : Word :=
  if h : i < 31 then m.x ⟨i, h⟩
  else if i = 31 then m.sys .ELR_EL1
  else if i = 32 then m.sys .SPSR_EL1
  else if i = 33 then m.sys .ESR_EL1
  else m.sys .FAR_EL1

def frame (m : Machine) : List (Nat × Word) := (List.range 35).map fun i => (8 * i, frameWord m i)

theorem save_context_mem (m : Machine) :
    (m.run save_context).mem = m.mem.storeAll (m.sp - .ofNat 64 PT_REGS_SIZE) (frame m) := rfl

theorem restore_context_x (m : Machine) :
    (m.run restore_context).x = fun i : Fin 31 => m.mem.load64 (m.sp + .ofNat 64 (8 * i)) := by
  funext i
  fin_cases i <;> rfl

/-- The offset at which a system register is kept. -/
def sysSlot : SysReg → Nat
  | .ELR_EL1 => 31
  | .SPSR_EL1 => 32
  | .ESR_EL1 => 33
  | .FAR_EL1 => 34

theorem restore_context_sys (m : Machine) :
    (m.run restore_context).sys = fun r => m.mem.load64 (m.sp + .ofNat 64 (8 * sysSlot r)) := by
  funext r
  cases r <;> rfl

theorem frameWord_sys (m : Machine) (r : SysReg) : frameWord m (sysSlot r) = m.sys r := by
  cases r <;> rfl

theorem frameWord_x (m : Machine) (i : Fin 31) : frameWord m i = m.x i := dif_pos i.isLt

/-- The code of a vector around the call of its handler. -/
def Vector.stub (v : Vector) : FrameStub := ⟨PT_REGS_SIZE, v.before, v.after⟩

/-- That of both vectors. -/
def frameStub : FrameStub := ⟨PT_REGS_SIZE, save_context, restore_context⟩

theorem Vector.stub_eq {v : Vector} (hv : v = sync_current_spx ∨ v = irq_current_spx) : v.stub = frameStub := by
  rcases hv with rfl | rfl <;> rfl

theorem frameStub_holds : frameStub.Holds 35 frameWord where
  fits := by decide
  size_lt := by decide
  save_sp _ := rfl
  save_mem := save_context_mem
  restore_sp _ := rfl
  restore_mem _ := rfl
  registers := by decide
  word_x := frameWord_x
  restore_x := restore_context_x

end Armv8Driver.GicInterrupt
