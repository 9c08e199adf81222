import Armv8Driver.KernelMmu.Coverage

/-!
# The identity map of the kernel

`build_translation_tables` maps the block of 2 MiB at `0x40000000`, one page to each entry of
`l3_table`. From zeroed tables the walk of an address reaches `l3_table` exactly inside that block.
-/

namespace Armv8Driver.KernelMmu

open Arm Arm.Translation Transition

variable {L : Layout} {v : Word}

/-- The region of `build_translation_tables`. -/
def kernel : Call := ⟨VIRTUAL_ADDRESS, PHYSICAL_ADDRESS, KERNEL_SIZE, NORMAL_MEMORY⟩

theorem kernel_valid : kernel.Valid := ⟨by decide, by decide, by decide, by decide⟩

theorem kernel_within : kernel.Within 512 := by
  constructor <;> decide

theorem kernel_covers : kernel.Covers v ↔ 0x40000000 ≤ v.toNat ∧ v.toNat < 0x40200000 := Iff.rfl

theorem build_translation_tables_eq (L : Layout) (t : Tables) :
    build_translation_tables L t =
      some (mapPages L t VIRTUAL_ADDRESS PHYSICAL_ADDRESS NORMAL_MEMORY kernel.pages) := by
  have hpages : kernel.pages = 512 := by decide
  rw [hpages, build_translation_tables]
  exact map_region_eq 512 FUEL t _ _ _ (by decide) (by unfold FUEL; omega)

/-- Outside the block some upper entry is empty. -/
theorem kernel_outside (hv : v.toNat < 2 ^ 48) (hout : ¬ (0x40000000 ≤ v.toNat ∧ v.toNat < 0x40200000)) :
    ¬ LiveAfter zeroed VIRTUAL_ADDRESS kernel.pages v := by
  intro hlive
  obtain ⟨h0, h1, h2⟩ := (OnlyBlock.zeroed 512).liveAfter kernel_valid kernel_within hlive
  have hblock := block_of_indices hv (by decide) h0 h1 h2
  omega

/-- From zeroed tables the kernel maps its block to itself, as normal memory, and nothing else. -/
theorem build_translation_tables_identity (L : Layout) :
    ∃ t, build_translation_tables L zeroed = some t ∧
      ∀ (ram : Nat → Word) (v : Word), v.toNat < 2 ^ 48 →
        if 0x40000000 ≤ v.toNat ∧ v.toNat < 0x40200000 then L.walk t ram v = .ok ⟨v.toNat, normalMemory⟩
        else ∃ level, L.walk t ram v = .error (.translation level) := by
  refine ⟨_, build_translation_tables_eq L zeroed, ?_⟩
  intro ram v hv
  by_cases hin : 0x40000000 ≤ v.toNat ∧ v.toNat < 0x40200000
  · rw [if_pos hin]
    obtain ⟨t, hstep, hmaps⟩ := @mapsRegion_of_le L kernel kernel_valid (by decide) rfl (by decide)
    rw [step_eq L zeroed kernel_valid, Option.some.injEq] at hstep
    have hwalk := hmaps ram v (kernel_covers.mpr hin)
    have hbase : kernel.pa.toNat = 0x40000000 ∧ kernel.va.toNat = 0x40000000 := by decide
    have haddress : kernel.pa.toNat + (v.toNat - kernel.va.toNat) = v.toNat := by omega
    rw [← hstep, haddress] at hwalk
    exact hwalk
  · rw [if_neg hin]
    apply walk_dead ((WellFormed.zeroed L).mapPages _ _ _ _) hv
    rw [live_mapPages]
    exact kernel_outside hv hin

end Armv8Driver.KernelMmu
