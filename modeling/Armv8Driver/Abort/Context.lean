import Armv8Driver.GicInterrupt.Context

/-!
# The exception frame of `02_Abort` and `03_MMU`

The two files `vector.S` are the same. Their `save_context` is that of `04_GIC_Interrupt`, but their
`restore_context` loads `ESR_EL1` from the slot of `SPSR_EL1`.
-/

namespace Armv8Driver.Abort

open Arm

def PT_REGS_SIZE : Nat := 288

def save_context : List Instr := GicInterrupt.save_context

def restore_context : List Instr := [
  .ldr 20 (8 * 31),
  .msr .ELR_EL1 20,
  .ldr 21 (8 * 32),
  .msr .SPSR_EL1 21,
  .ldr 22 (8 * 32),
  .msr .ESR_EL1 22,
  .ldr 23 (8 * 34),
  .msr .FAR_EL1 23,
  .ldr 30 (16 * 15),
  .ldp 28 29 (16 * 14),
  .ldp 26 27 (16 * 13),
  .ldp 24 25 (16 * 12),
  .ldp 22 23 (16 * 11),
  .ldp 20 21 (16 * 10),
  .ldp 18 19 (16 * 9),
  .ldp 16 17 (16 * 8),
  .ldp 14 15 (16 * 7),
  .ldp 12 13 (16 * 6),
  .ldp 10 11 (16 * 5),
  .ldp 8 9 (16 * 4),
  .ldp 6 7 (16 * 3),
  .ldp 4 5 (16 * 2),
  .ldp 2 3 (16 * 1),
  .ldp 0 1 (16 * 0),
  .addSp PT_REGS_SIZE]

/-- The vector `sync_current_spx`, apart from the call of its handler. -/
def sync_current_spx : FrameStub := ⟨PT_REGS_SIZE, save_context, restore_context⟩

variable {m m₁ : Machine} {link : Word}

theorem restore_context_x (m : Machine) :
    (m.run restore_context).x = fun i : Fin 31 => m.mem.load64 (m.sp + .ofNat 64 (8 * i)) := by
  funext i
  fin_cases i <;> rfl

theorem sync_current_spx_holds : sync_current_spx.Holds 35 GicInterrupt.frameWord where
  fits := by decide
  size_lt := by decide
  save_sp _ := rfl
  save_mem := GicInterrupt.save_context_mem
  restore_sp _ := rfl
  restore_mem _ := rfl
  registers := by decide
  word_x := GicInterrupt.frameWord_x
  restore_x := restore_context_x

/-- The slot that a system register is loaded from. -/
def loadSlot : SysReg → Nat
  | .ELR_EL1 => 31
  | .SPSR_EL1 => 32
  | .ESR_EL1 => 32
  | .FAR_EL1 => 34

theorem restore_context_sys (m : Machine) :
    (m.run restore_context).sys = fun r => m.mem.load64 (m.sp + .ofNat 64 (8 * loadSlot r)) := by
  funext r
  cases r <;> rfl

/-- At the `eret` the system registers are those of the exception, but `ESR_EL1` is `SPSR_EL1`. -/
theorem eret_sys
    (hmem : ∀ a, sync_current_spx.AtOrAbove (sync_current_spx.called m link).sp a →
      m₁.mem a = (sync_current_spx.called m link).mem a)
    (hsp : m₁.sp = (sync_current_spx.called m link).sp) :
    (sync_current_spx.eret m₁).sys = Function.update m.sys .ESR_EL1 (m.sys .SPSR_EL1) := by
  rw [show (sync_current_spx.eret m₁).sys = _ from restore_context_sys m₁]
  funext r
  have hi : loadSlot r < 35 := by cases r <;> decide
  rw [sync_current_spx_holds.load_after hmem hsp hi]
  cases r <;> rfl

/-- The registers are all back at the `eret`, whatever exceptions the handler has taken, exactly if
`ESR_EL1` and `SPSR_EL1` were equal when the exception was taken. -/
theorem sync_restores_iff
    (hbody : sync_current_spx.Body (sync_current_spx.AtOrAbove (sync_current_spx.called m link).sp)
      (sync_current_spx.called m link) m₁)
    (hsp : m₁.sp = (sync_current_spx.called m link).sp) :
    ((sync_current_spx.eret m₁).x = m.x ∧ (sync_current_spx.eret m₁).sp = m.sp ∧
      (sync_current_spx.eret m₁).sys = m.sys) ↔ m.sys .ESR_EL1 = m.sys .SPSR_EL1 := by
  have hmem := sync_current_spx_holds.preserves hbody
  have hx := sync_current_spx_holds.eret_x hmem hsp
  have hsp' := sync_current_spx_holds.eret_sp hsp
  rw [and_iff_right hx, and_iff_right hsp', eret_sys hmem hsp, Function.update_eq_self_iff]
  exact eq_comm

/-- A machine with the stack pointer at `0x1000` that takes an exception with these system registers. -/
def taken (elr spsr esr far : Word) : Machine where
  x i := .ofNat 64 i
  sp := 0x1000
  sys
    | .ELR_EL1 => elr
    | .SPSR_EL1 => spsr
    | .ESR_EL1 => esr
    | .FAR_EL1 => far
  mem _ := 0

/-- An exception whose two registers are the same, and a handler that takes another one. -/
def sameRegisters : Machine := taken 0x80000 0x5 0x5 0

def nestedEntry : Machine := (sync_current_spx.called sameRegisters 4).take fun _ => 9

def nestedHandler : Machine := sync_current_spx.eret (sync_current_spx.called nestedEntry 8)

theorem sameRegisters_restored :
    (sync_current_spx.eret nestedHandler).x = sameRegisters.x ∧ (sync_current_spx.eret nestedHandler).sp = sameRegisters.sp ∧
      (sync_current_spx.eret nestedHandler).sys = sameRegisters.sys := by
  have hentry : nestedEntry.sp = (sync_current_spx.called sameRegisters 4).sp := Machine.take_sp _ _
  have hcalled := sync_current_spx_holds.called_sp nestedEntry 8
  rw [hentry] at hcalled
  have hnested : sync_current_spx.Nested (sync_current_spx.called sameRegisters 4).sp
      (sync_current_spx.called sameRegisters 4) nestedHandler :=
    .exception (fun _ => 9) 8 (BitVec.le_refl _) (by decide) .done hcalled .done
  have hsp : nestedHandler.sp = nestedEntry.sp := @FrameStub.Holds.eret_sp _ _ _ nestedEntry _ 8 sync_current_spx_holds rfl
  exact (sync_restores_iff (hnested.body sync_current_spx_holds (by decide)) (hsp.trans hentry)).mpr rfl

/-- A store to an address that is not mapped: a data abort of the same exception level. -/
def dataAbort : Machine := taken 0x80000 0x3c5 0x96000045 0xdead0000

/-- A handler that does nothing leaves `0x3c5` in `ESR_EL1`. -/
theorem dataAbort_esr_lost :
    ¬ ∀ m₁, sync_current_spx.Body (sync_current_spx.AtOrAbove (sync_current_spx.called dataAbort 4).sp)
        (sync_current_spx.called dataAbort 4) m₁ → m₁.sp = (sync_current_spx.called dataAbort 4).sp →
      (sync_current_spx.eret m₁).x = dataAbort.x ∧ (sync_current_spx.eret m₁).sp = dataAbort.sp ∧
        (sync_current_spx.eret m₁).sys = dataAbort.sys := by
  intro hrestored
  obtain ⟨-, -, hsys⟩ := hrestored (sync_current_spx.called dataAbort 4) .done rfl
  have hesr := congrFun hsys .ESR_EL1
  rw [@eret_sys dataAbort _ 4 (fun _ _ => rfl) rfl, Function.update_self] at hesr
  exact absurd hesr (by decide)

end Armv8Driver.Abort
