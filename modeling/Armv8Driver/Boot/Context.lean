import Armv8Driver.Arm.Frame
import Mathlib.Data.Fintype.Basic
import Mathlib.Tactic.FinCases

/-!
# The exception frame of `01_Boot`

`save_context` and `restore_context` of `vector.S`, and the `struct pt_regs` of `vectorHandler.h` through
which the handler sees the frame. The structure has a field for the stack pointer that `save_context`
does not store, so every field behind it is a slot too far.
-/

namespace Armv8Driver.Boot

open Arm

def PT_REGS_SIZE : Nat := 272

def save_context : List Instr := [
  .subSp PT_REGS_SIZE,
  .stp 0 1 (16 * 0),
  .stp 2 3 (16 * 1),
  .stp 4 5 (16 * 2),
  .stp 6 7 (16 * 3),
  .stp 8 9 (16 * 4),
  .stp 10 11 (16 * 5),
  .stp 12 13 (16 * 6),
  .stp 14 15 (16 * 7),
  .stp 16 17 (16 * 8),
  .stp 18 19 (16 * 9),
  .stp 20 21 (16 * 10),
  .stp 22 23 (16 * 11),
  .stp 24 25 (16 * 12),
  .stp 26 27 (16 * 13),
  .stp 28 29 (16 * 14),
  .str 30 (16 * 15),
  .mrs 20 .ELR_EL1,
  .str 20 (8 * 31),
  .mrs 21 .SPSR_EL1,
  .str 21 (8 * 32),
  .movFromSp 0]

def restore_context : List Instr := [
  .ldr 20 (8 * 31),
  .msr .ELR_EL1 20,
  .ldr 21 (8 * 32),
  .msr .SPSR_EL1 21,
  .ldr 30 (16 * 15),
  .ldp 28 29 (16 * 14),
  .ldp 26 27 (16 * 13),
  .ldp 24 25 (16 * 12),
  .ldp 22 23 (16 * 11),
  .ldp 20 21 (16 * 10),
  .ldp 18 19 (16 * 9),
  .ldp 16 17 (16 * 8),
  .ldp 14 15 (16 * 7),
  .ldp 12 13 (16 * 6),
  .ldp 10 11 (16 * 5),
  .ldp 8 9 (16 * 4),
  .ldp 6 7 (16 * 3),
  .ldp 4 5 (16 * 2),
  .ldp 2 3 (16 * 1),
  .ldp 0 1 (16 * 0),
  .addSp PT_REGS_SIZE]

/-- The vector `sync_current_spx`, apart from the call of its handler. -/
def sync_current_spx : FrameStub := ⟨PT_REGS_SIZE, save_context, restore_context⟩

/-! ### The structure -/

inductive Field where
  | x (i : Fin 31)
  | sp | elr_el1 | spsr_el1 | esr_el1 | far_el1
  deriving DecidableEq

/-- Where a field of `struct pt_regs` is. All of them are `unsigned long`, so there is no padding. -/
def Field.offset : Field → Nat
  | .x i => 8 * i
  | .sp => 8 * 31
  | .elr_el1 => 8 * 32
  | .spsr_el1 => 8 * 33
  | .esr_el1 => 8 * 34
  | .far_el1 => 8 * 35

@[ext] structure pt_regs where
  x : Fin 31 → Word
  sp : Word
  elr_el1 : Word
  spsr_el1 : Word
  esr_el1 : Word
  far_el1 : Word

/-- The structure at an address. -/
def pt_regs.at (mem : Memory) (regs : Word) : pt_regs where
  x i := mem.load64 (regs + .ofNat 64 (Field.x i).offset)
  sp := mem.load64 (regs + .ofNat 64 Field.sp.offset)
  elr_el1 := mem.load64 (regs + .ofNat 64 Field.elr_el1.offset)
  spsr_el1 := mem.load64 (regs + .ofNat 64 Field.spsr_el1.offset)
  esr_el1 := mem.load64 (regs + .ofNat 64 Field.esr_el1.offset)
  far_el1 := mem.load64 (regs + .ofNat 64 Field.far_el1.offset)

/-- The record that `sync_current_spx_handler` is passed in `x0`. -/
def regs (m : Machine) (link : Word) : pt_regs :=
  pt_regs.at (sync_current_spx.called m link).mem ((sync_current_spx.called m link).x 0)

/-- The fields are what they are named after, and lie in the room that `save_context` has made. -/
structure SameLayout (m : Machine) (link : Word) : Prop where
  x : (regs m link).x = m.x
  sp : (regs m link).sp = m.sp
  elr_el1 : (regs m link).elr_el1 = m.sys .ELR_EL1
  spsr_el1 : (regs m link).spsr_el1 = m.sys .SPSR_EL1
  inside : ∀ field : Field, field.offset + 8 ≤ PT_REGS_SIZE

/-! ### The frame -/

/-- What `save_context` stores at offset `8 * i`. -/
def frameWord (m : Machine) (i : Nat) : Word :=
  if h : i < 31 then m.x ⟨i, h⟩
  else if i = 31 then m.sys .ELR_EL1
  else m.sys .SPSR_EL1

variable {m : Machine} {link : Word} {k : Nat}

theorem save_context_mem (m : Machine) :
    (m.run save_context).mem = m.mem.storeAll (m.sp - .ofNat 64 PT_REGS_SIZE) (Memory.words (frameWord m) 33) := rfl

theorem restore_context_x (m : Machine) :
    (m.run restore_context).x = fun i : Fin 31 => m.mem.load64 (m.sp + .ofNat 64 (8 * i)) := by
  funext i
  fin_cases i <;> rfl

theorem frameWord_x (m : Machine) (i : Fin 31) : frameWord m i = m.x i := dif_pos i.isLt

theorem sync_current_spx_holds : sync_current_spx.Holds 33 frameWord where
  fits := by decide
  size_lt := by decide
  save_sp _ := rfl
  save_mem := save_context_mem
  restore_sp _ := rfl
  restore_mem _ := rfl
  registers := by decide
  word_x := frameWord_x
  restore_x := restore_context_x

/-- Behind the 33 words memory is as before. -/
theorem load_behind (hlo : 8 * 33 ≤ k) (hhi : k + 8 < 2 ^ 64) :
    (m.run save_context).mem.load64 (m.sp - .ofNat 64 PT_REGS_SIZE + .ofNat 64 k) =
      m.mem.load64 (m.sp - .ofNat 64 PT_REGS_SIZE + .ofNat 64 k) := by
  apply Memory.load64_congr
  intro j hj
  rw [save_context_mem]
  apply Memory.words_outside (by decide)
  rw [Memory.offset_sub (by omega)]
  omega

/-- What the handler finds: `sp` is `ELR_EL1`, `elr_el1` is `SPSR_EL1`, and the other three are what was
on the stack, the last two on that of the interrupted program. -/
theorem regs_eq (m : Machine) (link : Word) :
    regs m link =
      { x := m.x
        sp := m.sys .ELR_EL1
        elr_el1 := m.sys .SPSR_EL1
        spsr_el1 := m.mem.load64 (m.sp - 8)
        esr_el1 := m.mem.load64 m.sp
        far_el1 := m.mem.load64 (m.sp + 8) } := by
  have hword : ∀ i < 33, (m.run save_context).mem.load64 (m.sp - .ofNat 64 PT_REGS_SIZE + .ofNat 64 (8 * i)) =
      frameWord m i := fun i hi => sync_current_spx_holds.load_save hi
  have hbehind : ∀ k, 8 * 33 ≤ k → k < 2 ^ 63 → ∀ a, m.sp - .ofNat 64 PT_REGS_SIZE + .ofNat 64 k = a →
      (m.run save_context).mem.load64 (m.sp - .ofNat 64 PT_REGS_SIZE + .ofNat 64 k) = m.mem.load64 a := by
    rintro k hlo hhi a rfl
    exact load_behind hlo (by omega)
  apply pt_regs.ext
  · funext i
    exact (hword i (by omega)).trans (frameWord_x m i)
  · exact hword 31 (by omega)
  · exact hword 32 (by omega)
  · exact hbehind (8 * 33) (by omega) (by omega) (m.sp - 8) (by unfold PT_REGS_SIZE; bv_omega)
  · exact hbehind (8 * 34) (by omega) (by omega) m.sp (by unfold PT_REGS_SIZE; bv_omega)
  · exact hbehind (8 * 35) (by omega) (by omega) (m.sp + 8) (by unfold PT_REGS_SIZE; bv_omega)

/-- The record never has the layout of the frame. Its values are right only by coincidence, and its last
two fields are outside of the frame in any case. -/
theorem not_sameLayout (m : Machine) (link : Word) :
    ((regs m link).x = m.x ∧
      ((regs m link).sp = m.sp ↔ m.sys .ELR_EL1 = m.sp) ∧
      ((regs m link).elr_el1 = m.sys .ELR_EL1 ↔ m.sys .SPSR_EL1 = m.sys .ELR_EL1) ∧
      ((regs m link).spsr_el1 = m.sys .SPSR_EL1 ↔ m.mem.load64 (m.sp - 8) = m.sys .SPSR_EL1)) ∧
    (∀ field : Field, field.offset + 8 ≤ PT_REGS_SIZE ↔ field ≠ .esr_el1 ∧ field ≠ .far_el1) ∧
    ¬ SameLayout m link := by
  have hinside : ∀ field : Field, field.offset + 8 ≤ PT_REGS_SIZE ↔ field ≠ .esr_el1 ∧ field ≠ .far_el1 := by
    intro field
    cases field with
    | x i =>
      have hi := i.isLt
      simp only [Field.offset, PT_REGS_SIZE, ne_eq, reduceCtorEq, not_false_eq_true, and_self, iff_true]
      omega
    | _ => decide
  refine ⟨?_, hinside, fun hsame => ((hinside .esr_el1).mp (hsame.inside .esr_el1)).1 rfl⟩
  rw [regs_eq]
  exact ⟨rfl, Iff.rfl, Iff.rfl, Iff.rfl⟩

/-- An `svc` at `0x80000` with the stack pointer at `0x1000`. -/
def svc : Machine where
  x i := .ofNat 64 i
  sp := 0x1000
  sys
    | .ELR_EL1 => 0x80004
    | .SPSR_EL1 => 0x3c5
    | .ESR_EL1 => 0x56000000
    | .FAR_EL1 => 0
  mem _ := 0

/-- The handler reads the return address where the stack pointer should be. -/
theorem svc_not_sameLayout : (regs svc 4).sp = 0x80004 ∧ ¬ SameLayout svc 4 := by
  have hsp : (regs svc 4).sp = 0x80004 := by
    rw [regs_eq]
    rfl
  refine ⟨hsp, fun hsame => ?_⟩
  have hwrong := hsame.sp
  rw [hsp] at hwrong
  exact absurd hwrong (by decide)

end Armv8Driver.Boot
