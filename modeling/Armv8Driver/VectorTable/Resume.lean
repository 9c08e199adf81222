import Armv8Driver.Abort.Context
import Armv8Driver.Arm.Code
import Armv8Driver.Boot.Context
import Armv8Driver.GicInterrupt.Transparency

/-!
# The vector tables

The code behind the 16 entries of `vectorTable` in the four files `vector.S`. Only `sync_current_spx`,
and `irq_current_spx` in `04_GIC_Interrupt`, save a frame. The other entries branch to a C function with
the registers of the interrupted program in place, by `bl` in `04_GIC_Interrupt` and by `b` in the other
three, where the function returns past the `eret` to the caller of the interrupted function.
-/

namespace Armv8Driver.VectorTable

open Arm

/-- The directories under `03_ARM_Architecture`. -/
inductive Image where
  | boot | abort | mmu | gicInterrupt
  deriving DecidableEq

inductive Vector where
  | sync_current_sp0 | irq_current_sp0 | fiq_current_sp0 | serr_current_sp0
  | sync_current_spx | irq_current_spx | fiq_current_spx | serr_current_spx
  | sync_lower64 | irq_lower64 | fiq_lower64 | serr_lower64
  | sync_lower32 | irq_lower32 | fiq_lower32 | serr_lower32
  deriving DecidableEq

def vectorTable : List Vector := [
  .sync_current_sp0, .irq_current_sp0, .fiq_current_sp0, .serr_current_sp0,
  .sync_current_spx, .irq_current_spx, .fiq_current_spx, .serr_current_spx,
  .sync_lower64, .irq_lower64, .fiq_lower64, .serr_lower64,
  .sync_lower32, .irq_lower32, .fiq_lower32, .serr_lower32]

/-- The functions of `vectorHandler.c`. The handler of a vector has its name with `_handler` behind. -/
inductive Function where
  | handler (v : Vector)
  | irq_handler
  deriving DecidableEq

/-- The code that the entry of a vector branches to. -/
def stub : Image → Vector → List (Op Function)
  | .boot, .sync_current_spx => Boot.sync_current_spx.code (.handler .sync_current_spx)
  | .abort, .sync_current_spx | .mmu, .sync_current_spx => Abort.sync_current_spx.code (.handler .sync_current_spx)
  | .gicInterrupt, .sync_current_spx => GicInterrupt.frameStub.code (.handler .sync_current_spx)
  | .gicInterrupt, .irq_current_spx => GicInterrupt.frameStub.code .irq_handler
  | .gicInterrupt, v => [.bl (.handler v), .eret]
  | _, v => [.b (.handler v), .eret]

/-- The vector saves a frame. -/
def Saves (image : Image) (v : Vector) : Prop := v = .sync_current_spx ∨ image = .gicInterrupt ∧ v = .irq_current_spx

/-- Functions that keep to the procedure call standard. -/
def Conforming (call : Function → Machine → Machine) : Prop := ∀ f, AAPCS64 GicInterrupt.frameStub.AtOrAbove (call f)

variable {image : Image} {v : Vector} {base : Word} {m : Machine} {call : Function → Machine → Machine}

theorem vectorTable_complete : vectorTable.Nodup ∧ ∀ v, v ∈ vectorTable := by
  refine ⟨by decide, ?_⟩
  intro v
  cases v <;> decide

/-- A vector that does not save a frame is a branch and an `eret`. -/
theorem stub_of_not_saves (h : ¬ Saves image v) :
    ∃ op, stub image v = [op, .eret] ∧ (op = .b (.handler v) ∨ op = .bl (.handler v)) := by
  have hsync : v ≠ .sync_current_spx := fun heq => h (.inl heq)
  cases image with
  | gicInterrupt =>
    have hirq : v ≠ .irq_current_spx := fun heq => h (.inr ⟨rfl, heq⟩)
    refine ⟨.bl (.handler v), ?_, .inr rfl⟩
    cases v <;> first | rfl | exact absurd rfl hsync | exact absurd rfl hirq
  | _ =>
    refine ⟨.b (.handler v), ?_, .inl rfl⟩
    cases v <;> first | rfl | exact absurd rfl hsync

/-- The frame of `01_Boot` is smaller, so the standard protects all of it as well. -/
theorem conforming_boot {f : Function} (h : Conforming call) : AAPCS64 Boot.sync_current_spx.AtOrAbove (call f) := by
  refine ⟨(h f).x, (h f).sp, fun m a ha => (h f).mem m a ?_⟩
  have hsize : Boot.sync_current_spx.size ≤ GicInterrupt.PT_REGS_SIZE := by decide
  exact ha.imp_right fun hlt => Nat.lt_of_lt_of_le hlt hsize

theorem resumes_of_saves (h : Saves image v) (hcall : Conforming call) : Resumes (stub image v) base call m := by
  rcases h with rfl | ⟨rfl, rfl⟩
  · cases image with
    | boot => exact Boot.sync_current_spx_holds.resumes (conforming_boot hcall) (by decide)
    | abort => exact Abort.sync_current_spx_holds.resumes (hcall _) (by decide)
    | mmu => exact Abort.sync_current_spx_holds.resumes (hcall _) (by decide)
    | gicInterrupt => exact GicInterrupt.frameStub_holds.resumes (hcall _) (by decide)
  · exact GicInterrupt.frameStub_holds.resumes (hcall _) (by decide)

theorem not_resumes_of_not_saves (h : ¬ Saves image v) (base : Word) (m : Machine) :
    ¬ ∀ call, Conforming call → Resumes (stub image v) base call m := by
  intro hresumes
  obtain ⟨op, hstub, hop⟩ := stub_of_not_saves h
  have hother : m.x 1 + 1 ≠ m.x 1 := by bv_omega
  have hspoilt := hresumes (fun _ => setX1 (m.x 1 + 1)) fun _ => setX1_aapcs64 _ _
  rw [hstub] at hspoilt
  exact not_resumes_of_bare hop hother hspoilt

/-- Whatever the handlers do within the standard, a vector resumes the interrupted program unharmed, exactly
if it saves a frame. -/
theorem resumes_iff (image : Image) (v : Vector) (base : Word) (m : Machine) :
    (∀ call, Conforming call → Resumes (stub image v) base call m) ↔ Saves image v := by
  constructor
  · intro hresumes
    by_contra hbare
    exact not_resumes_of_not_saves hbare base m hresumes
  · exact fun h call hcall => resumes_of_saves h hcall

/-- A `fiq` in `04_GIC_Interrupt` and an `irq` in `03_MMU`, both in the middle of a function. -/
theorem fiq_and_irq_harm :
    (¬ ∀ call, Conforming call → Resumes (stub .gicInterrupt .fiq_current_spx) 0x80000 call GicInterrupt.interrupted) ∧
      ¬ ∀ call, Conforming call → Resumes (stub .mmu .irq_current_spx) 0x80000 call GicInterrupt.interrupted := by
  constructor
  · exact not_resumes_of_not_saves (by simp [Saves]) _ _
  · exact not_resumes_of_not_saves (by simp [Saves]) _ _

end Armv8Driver.VectorTable
