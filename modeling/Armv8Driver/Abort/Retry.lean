import Armv8Driver.Abort.Context
import Armv8Driver.Arm.Program

/-!
# `main` of `02_Abort`

`test_undefined_instruction` executes a word that is no instruction. Unless its handler does, nothing between its exception
and the `eret` moves `ELR_EL1` behind that word, and `sync_current_spx_handler` only reads its frame.
-/

namespace Armv8Driver.Abort

open Arm Relation

theorem sync_current_spx_returns : sync_current_spx.Returns where
  elr hmem hsp := by
    rw [eret_sys hmem hsp]
    exact Function.update_of_ne (by decide) _ _
  spsr hmem hsp := by
    rw [eret_sys hmem hsp]
    exact Function.update_of_ne (by decide) _ _

/-- `word` is the address of `0xFFFFFFFF`, and `rest` is what the other instructions do, if they do not fault. -/
def main (word : Word) (rest : Processor → Option Processor) (s : Processor) : Option Processor :=
  if s.pc = word then none else rest s

/-- `test_undefined_instruction` never returns, and `main` calls nothing after it: the word is executed again and again,
with the registers and the live memory as they were, whatever exceptions the handlers of `sync_current_spx` take. This is
for handlers that do not write to their frame; one that moves the saved `ELR_EL1` returns behind the word. -/
theorem test_undefined_instruction_retried (word : Word) (rest : Processor → Option Processor) (live : Set Word)
    (s t : Processor) (hpc : s.pc = word)
    (hrun : ReflTransGen (Step sync_current_spx live (main word rest)) s t) : t.pc = word ∧ s.Agree live t := by
  have hfault : ∀ u, s.Agree live u → main word rest u = none := fun u hu => if_pos (hu.pc.trans hpc)
  have hagree := agree_of_faults sync_current_spx_holds sync_current_spx_returns hfault hrun
  exact ⟨hagree.pc.trans hpc, hagree⟩

/-- `main` at the word, with the stack pointer at `0x1000`. -/
def atWord : Processor := ⟨0x80000, 0x3c5, taken 0 0 0 0⟩

/-- What `main` has on its stack. -/
def stack : Set Word := {a | 0x1000 ≤ a}

def retried (s : Processor) : Processor :=
  sync_current_spx.resume (sync_current_spx.called (s.take 0x2000000 0) 4).spoil

theorem retried_step {rest : Processor → Option Processor} {s : Processor} (hpc : s.pc = 0x80000) (hsp : s.m.sp = 0x1000) :
    Step sync_current_spx stack (main 0x80000 rest) s (retried s) := by
  refine .fault (if_pos hpc) (.spoil 0x2000000 0 4 ?_)
  intro k hk hin
  have hle : 0x1000 ≤ s.m.sp - .ofNat 64 sync_current_spx.size + .ofNat 64 k := hin
  have hsize : sync_current_spx.size = 288 := rfl
  rw [hsp, hsize, BitVec.le_def] at hle
  rw [hsize] at hk
  simp at hle
  omega

theorem atWord_retried : (retried (retried atWord)).pc = 0x80000 ∧ atWord.Agree stack (retried (retried atWord)) := by
  have hfirst : ReflTransGen (Step sync_current_spx stack (main 0x80000 fun _ => none)) atWord (retried atWord) :=
    .single (retried_step rfl rfl)
  obtain ⟨hpc, hagree⟩ := test_undefined_instruction_retried 0x80000 (fun _ => none) stack atWord _ rfl hfirst
  have hsecond := hfirst.tail (retried_step hpc hagree.sp)
  exact test_undefined_instruction_retried 0x80000 (fun _ => none) stack atWord _ rfl hsecond

end Armv8Driver.Abort
