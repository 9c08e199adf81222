import Armv8Driver.GicInterrupt.Context

/-!
# Exceptions leave no trace

A handler may do anything but write at or above the stack pointer it was called with, which is where its
frame is. That includes taking further exceptions, whose handlers are bound by their own entry as well.
Both vectors are the same `FrameStub`: nothing in a body, at any depth, reaches the frame, so
`restore_context` finds there what `save_context` stored.
-/

namespace Armv8Driver.GicInterrupt

open Arm

variable {m m₁ : Machine} {link : Word} {v : Vector}

theorem regs_of_called (m : Machine) (link : Word) :
    pt_regs.at (frameStub.called m link).mem ((frameStub.called m link).x 0) = pt_regs.of m := by
  have hword : ∀ i < 35, (frameStub.called m link).mem.load64
      ((frameStub.called m link).x 0 + .ofNat 64 (8 * i)) = frameWord m i := fun i hi => frameStub_holds.load_save hi
  apply pt_regs.ext
  · funext i
    exact (hword i (by omega)).trans (frameWord_x m i)
  · exact hword 31 (by omega)
  · exact hword 32 (by omega)
  · exact hword 33 (by omega)
  · exact hword 34 (by omega)

theorem eret_restores
    (hmem : ∀ a, frameStub.AtOrAbove (frameStub.called m link).sp a → m₁.mem a = (frameStub.called m link).mem a)
    (hsp : m₁.sp = (frameStub.called m link).sp) :
    (frameStub.eret m₁).x = m.x ∧ (frameStub.eret m₁).sp = m.sp ∧ (frameStub.eret m₁).sys = m.sys := by
  refine ⟨frameStub_holds.eret_x hmem hsp, frameStub_holds.eret_sp hsp, ?_⟩
  rw [show (frameStub.eret m₁).sys = _ from restore_context_sys m₁]
  funext r
  have hi : sysSlot r < 35 := by cases r <;> decide
  rw [frameStub_holds.load_after hmem hsp hi, frameWord_sys]

/-- The handler of `sync_current_spx` or `irq_current_spx` finds the interrupted registers in its
`struct pt_regs`, and they are all back at the `eret`, whatever exceptions the handler has taken. -/
theorem exception_transparent (hv : v = sync_current_spx ∨ v = irq_current_spx)
    (hbody : frameStub.Body (frameStub.AtOrAbove (v.stub.called m link).sp) (v.stub.called m link) m₁)
    (hsp : m₁.sp = (v.stub.called m link).sp) :
    pt_regs.at (v.stub.called m link).mem ((v.stub.called m link).x 0) = pt_regs.of m ∧
      (v.stub.eret m₁).x = m.x ∧ (v.stub.eret m₁).sp = m.sp ∧ (v.stub.eret m₁).sys = m.sys := by
  rw [Vector.stub_eq hv] at hbody hsp ⊢
  exact ⟨regs_of_called m link, eret_restores (frameStub_holds.preserves hbody) hsp⟩

/-- A machine with the stack pointer at `0x1000`, and a handler that pushes 32 bytes, takes an exception,
spoils every register and pops. -/
def interrupted : Machine := ⟨fun i => .ofNat 64 i, 0x1000, fun _ => 7, fun _ => 0⟩

def pushed : Machine := { frameStub.called interrupted 4 with sp := 0x1000 - 288 - 32 }

def spoiled : Machine :=
  { frameStub.eret (frameStub.called (pushed.take fun _ => 9) 8) with
    x := fun _ => 0
    sp := 0x1000 - 288 }

theorem interrupted_transparent :
    (sync_current_spx.stub.eret spoiled).x = interrupted.x ∧ (sync_current_spx.stub.eret spoiled).sys = interrupted.sys := by
  have hnested : frameStub.Nested (frameStub.called interrupted 4).sp (frameStub.called interrupted 4) spoiled := by
    have hpush : ∀ a, frameStub.AtOrAbove (frameStub.called interrupted 4).sp a →
        pushed.mem a = (frameStub.called interrupted 4).mem a := fun _ _ => rfl
    apply FrameStub.Nested.code hpush
    apply FrameStub.Nested.exception (fun _ => 9) 8 (by decide) (by decide) .done rfl
    have hspoil : ∀ a, frameStub.AtOrAbove (frameStub.called interrupted 4).sp a →
        spoiled.mem a = (frameStub.eret (frameStub.called (pushed.take fun _ => 9) 8)).mem a := fun _ _ => rfl
    exact .code hspoil .done
  have hbody := hnested.body frameStub_holds (by decide)
  obtain ⟨-, hx, -, hsys⟩ := @exception_transparent interrupted spoiled 4 sync_current_spx (.inl rfl) hbody rfl
  exact ⟨hx, hsys⟩

end Armv8Driver.GicInterrupt
