import Armv8Driver.Arm.Program
import Armv8Driver.GicInterrupt.Transparency

/-!
# Interrupts that the program cannot see

`main` of `04_GIC_Interrupt` runs while interrupts are taken between its instructions, each through `irq_current_spx`. As
long as the handlers leave alone what is live in it, it runs as it would without them.
-/

namespace Armv8Driver.GicInterrupt

open Arm

theorem frameStub_returns : frameStub.Returns where
  elr hmem hsp := congrFun (eret_restores hmem hsp).2.2 .ELR_EL1
  spsr hmem hsp := congrFun (eret_restores hmem hsp).2.2 .SPSR_EL1

/-- The byte at the stack pointer is added to `x0`. -/
def add (s : Processor) : Processor :=
  { s with m := s.m.setX 0 (s.m.x 0 + (s.m.mem s.m.sp).setWidth 64) }

/-- A loop of this one instruction. -/
def summing : Program where
  exec s := some (add s)
  live _ sp := {sp}
  reads_live := by
    intro s t s' h hs
    cases hs
    have hbyte : t.m.mem t.m.sp = s.m.mem s.m.sp := by
      rw [h.sp]
      exact h.mem _ rfl
    refine ⟨add t, rfl, h.pc, h.pstate, ?_, h.sp, h.mem⟩
    simp only [add, Machine.setX, h.x, hbyte]

/-- The stack pointer is at `0x1000`, and the byte there is 7. -/
def beforeSum : Processor := ⟨0x80000, 0x5, { interrupted with x := fun _ => 0, mem := fun _ => 7 }⟩

def resumed (s : Processor) : Processor := frameStub.resume (frameStub.called (s.take 0 0) 4).spoil

theorem resumed_exception (s : Processor) (hsp : s.m.sp = 0x1000) : frameStub.Exception {s.m.sp} s (resumed s) := by
  refine FrameStub.Exception.spoil 0 0 4 ?_
  intro k hk hin
  have hnat := congrArg BitVec.toNat (show s.m.sp - .ofNat 64 frameStub.size + .ofNat 64 k = s.m.sp from hin)
  have hsize : frameStub.size = 288 := rfl
  rw [hsp, hsize] at hnat
  simp at hnat
  omega

end Armv8Driver.GicInterrupt
