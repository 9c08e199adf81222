import Armv8Driver.Arm.AddressSpace
import Armv8Driver.KernelMmu.Coverage
import Mathlib.Data.List.Pairwise
import Mathlib.Tactic.FinCases

/-!
# The tables as an address space

In one block of 2 MiB the four tables are an address space: whatever the calls of `map_region` are and however their
regions overlap, the walk of every address finds what the last call that covers it has asked for.
-/

namespace Armv8Driver.KernelMmu

open Arm Arm.Translation Transition

variable {L : Layout} {t : Tables} {m : AddressSpace} {ram : Nat → Word} {v pa attr : Word} {c : Call} {b k : Nat}

/-- The attributes make a descriptor that translates. -/
def Leaf (attr : Word) : Prop := isValid attr = true ∧ isTable attr = true ∧ accessFlag attr = true

instance (attr : Word) : Decidable (Leaf attr) := inferInstanceAs (Decidable (_ ∧ _))

/-- What the call asks for: page `k` of its physical region, or that the page is not mapped. -/
def Call.mapping (c : Call) (k : Nat) : Option Mapping :=
  if Leaf c.attr then some ⟨c.pa.toNat + 4096 * k, ⟨c.attr.extractLsb' 2 10, c.attr.extractLsb' 52 3, 0⟩⟩ else none

def Call.apply (m : AddressSpace) (c : Call) : AddressSpace := m.map (c.va.toNat / 4096) c.pages c.mapping

/-- Whole pages of block `b`, to memory below `2 ^ 40`, with no address in the attributes. -/
structure Call.InBlock (b : Nat) (c : Call) : Prop extends c.Valid where
  within : c.Within b
  pa_low : c.pa.toNat + c.size.toNat ≤ 2 ^ 40
  attr_only : c.attr.extractLsb' 12 36 = 0#36

/-! ### Page descriptors -/

/-- An aligned address has nothing in the fields of the attributes. -/
theorem make_page_desc_attributes (hal : pa.toNat % 4096 = 0) (hlow : pa.toNat < 2 ^ 40) :
    (make_page_desc pa attr).extractLsb' 2 10 = attr.extractLsb' 2 10 ∧
      (make_page_desc pa attr).extractLsb' 52 3 = attr.extractLsb' 52 3 := by
  have hlower : pa.extractLsb' 2 10 = 0#10 := by
    apply BitVec.eq_of_toNat_eq
    rw [BitVec.extractLsb'_toNat, Nat.shiftRight_eq_div_pow, BitVec.toNat_zero]
    omega
  have hupper : pa.extractLsb' 52 3 = 0#3 := by
    apply BitVec.eq_of_toNat_eq
    rw [BitVec.extractLsb'_toNat, Nat.shiftRight_eq_div_pow, BitVec.toNat_zero]
    omega
  rw [make_page_desc, BitVec.extractLsb'_or, BitVec.extractLsb'_or, hlower, hupper, BitVec.zero_or, BitVec.zero_or]
  exact ⟨rfl, rfl⟩

theorem frame_make_page_desc (hal : pa.toNat % 4096 = 0) (hlow : pa.toNat < 2 ^ 40)
    (hattr : attr.extractLsb' 12 36 = 0#36) :
    frame 0 (make_page_desc pa attr) = pa.toNat := by
  show ((pa ||| attr).extractLsb' 12 36).toNat * 2 ^ 12 = _
  rw [BitVec.extractLsb'_or, hattr, BitVec.or_zero, BitVec.extractLsb'_toNat, Nat.shiftRight_eq_div_pow]
  omega

/-- The low twelve bits of a descriptor are those of its attributes. -/
theorem leaf_make_page_desc (hal : pa.toNat % 4096 = 0) : Leaf (make_page_desc pa attr) ↔ Leaf attr := by
  have hbit : ∀ i < 12, (make_page_desc pa attr).getLsbD i = attr.getLsbD i := by
    intro i hi
    have hclear : pa.getLsbD i = false := by
      have hmod := Nat.testBit_mod_two_pow pa.toNat 12 i
      rw [show 2 ^ 12 = 4096 from rfl, hal, Nat.zero_testBit, decide_eq_true hi, Bool.true_and] at hmod
      exact hmod.symm
    rw [make_page_desc, BitVec.getLsbD_or, hclear, Bool.false_or]
  simp only [Leaf, isValid, isTable, accessFlag, hbit 0 (by decide), hbit 1 (by decide), hbit 10 (by decide)]

theorem page_make_page_desc {R : Regime} (hR : R.outputBits = 40) (hal : pa.toNat % 4096 = 0) (hlow : pa.toNat < 2 ^ 40)
    (hattr : attr.extractLsb' 12 36 = 0#36) :
    page R (make_page_desc pa attr) =
      if Leaf attr then some (pa.toNat, attr.extractLsb' 2 10, attr.extractLsb' 52 3) else none := by
  obtain ⟨hlower, hupper⟩ := @make_page_desc_attributes pa attr hal hlow
  have hleaf := @leaf_make_page_desc pa attr hal
  have hsize : pa.toNat < 2 ^ R.outputBits := by rwa [hR]
  rw [page, frame_make_page_desc hal hlow hattr, hlower, hupper]
  apply if_congr ?_ rfl rfl
  rw [← hleaf]
  exact ⟨fun h => ⟨h.1, h.2.1, h.2.2.2⟩, fun h => ⟨h.1, h.2.1, hsize, h.2.2⟩⟩

/-! ### One call -/

/-- The tables, used for block `b` only, translate as the address space does. -/
structure Refines (L : Layout) (b : Nat) (t : Tables) (m : AddressSpace) : Prop where
  wellFormed : WellFormed L t
  onlyBlock : OnlyBlock b t
  walk : ∀ ram v, (L.walk t ram v).toOption = m.translate v.toNat

theorem Refines.zeroed (L : Layout) (b : Nat) : Refines L b zeroed .unmapped := by
  refine ⟨.zeroed L, .zeroed b, fun ram v => ?_⟩
  rw [AddressSpace.translate_unmapped]
  apply walk_dead_toOption (.zeroed L)
  intro h
  have hempty : isValid 0 = true := h.2.l0
  rw [isValid_zero] at hempty
  cases hempty

theorem Call.Valid.covers_iff (hc : c.Valid) :
    c.Covers v ↔ c.va.toNat / 4096 ≤ v.toNat / 4096 ∧ v.toNat / 4096 < c.va.toNat / 4096 + c.pages := by
  have hva := hc.va_aligned
  have hsize := hc.size_aligned
  unfold Call.Covers Call.pages
  omega

/-- In one block a covered page is the only one of the region with its slot. -/
theorem Call.InBlock.lastPage (hc : c.InBlock b) (hv : c.Covers v) : c.lastPage v = some (c.pageOf v) := by
  have hpage := hv.page_lt hc.toValid
  obtain ⟨j, hlast, hle, hlt, hslot⟩ := lastPage_exists hpage ((hv.slot_iff hc.toValid hpage).mpr rfl)
  have hmod := (hv.slot_iff hc.toValid hlt).mp hslot
  obtain ⟨hlo, hhi⟩ := hc.within
  have hj : j = c.pageOf v := by
    unfold Call.pages at hlt
    omega
  rw [← hj]
  exact hlast

theorem Call.InBlock.page_entry (hc : c.InBlock b) (hk : k < c.pages) :
    page L.regime (c.entry k) = (c.mapping k).map fun p => (p.frame, p.attributes.lower, p.attributes.upper) := by
  have hal := hc.pa_aligned
  have hsize := hc.size_aligned
  have hlow := hc.pa_low
  unfold Call.pages at hk
  have hpage : (pageAt c.pa k).toNat = c.pa.toNat + 4096 * k := pageAt_toNat (by omega)
  rw [Call.entry, page_make_page_desc (by rw [L.regime_eq]) (by omega) (by omega) hc.attr_only, hpage, Call.mapping]
  split_ifs <;> rfl

theorem Call.mapping_table {p : Mapping} (h : c.mapping k = some p) : p.attributes.table = 0 := by
  obtain ⟨-, hp⟩ := Option.ite_none_right_eq_some.mp h
  rw [← Option.some.inj hp]

/-- The walk of a covered address finds its page of the region. -/
theorem Refines.inside (hr : Refines L b t m) (hc : c.InBlock b) (hv : c.Covers v) :
    (L.walk (mapPages L t c.va c.pa c.attr c.pages) ram v).toOption = (Call.apply m c).translate v.toNat := by
  have hk := hv.page_lt hc.toValid
  have hspace := hc.inSpace
  have hbound : v.toNat < 2 ^ 48 := by
    obtain ⟨-, hhi⟩ := hv
    omega
  have hpage : v.toNat / 4096 - c.va.toNat / 4096 = c.pageOf v := by
    have hal := hc.va_aligned
    obtain ⟨hlo, -⟩ := hv
    unfold Call.pageOf
    omega
  rw [walk_step_eq hr.wellFormed hbound (hv.liveAfter hc.toValid), slotAfter_some (hc.lastPage hv), hc.page_entry hk,
    Call.apply, AddressSpace.translate_map_inside (hc.covers_iff.mp hv), hpage, Option.map_map]
  apply Option.map_congr
  intro p hp
  have htable := Call.mapping_table hp
  simp only [Function.comp_apply, AddressSpace.Mapping.output, ← htable]

/-- The walk of any other address finds what it found before. -/
theorem Refines.outside (hb : b < 2 ^ 27) (hr : Refines L b t m) (hc : c.InBlock b) (hv : ¬ c.Covers v) :
    (L.walk (mapPages L t c.va c.pa c.attr c.pages) ram v).toOption = (Call.apply m c).translate v.toNat := by
  rw [Call.apply, AddressSpace.translate_map_outside (mt hc.covers_iff.mpr hv), ← hr.walk ram v]
  have hseparate := separate_iff.mp (separate_of_onlyBlock (L := L) hb hr.onlyBlock hc.toValid hc.within) v
  by_cases hlive : v.toNat < 2 ^ 48 ∧ LiveAfter t c.va c.pages v
  · obtain ⟨hkept, hdead⟩ := hseparate hlive.1 hv
    rw [walk_step_eq hr.wellFormed hlive.1 hlive.2]
    by_cases hbefore : Live t v
    · rw [hkept hbefore, walk_live_toOption hr.wellFormed hlive.1 hbefore]
    · rw [hdead hbefore hlive.2, walk_dead_toOption hr.wellFormed fun h => hbefore h.2]
      rfl
  · rw [walk_step_dead hr.wellFormed hlive, walk_dead_toOption hr.wellFormed]
    exact fun h => hlive ⟨h.1, h.2.after⟩

theorem Refines.step (hb : b < 2 ^ 27) (hr : Refines L b t m) (hc : c.InBlock b) :
    Refines L b (mapPages L t c.va c.pa c.attr c.pages) (Call.apply m c) := by
  refine ⟨hr.wellFormed.mapPages _ _ _ _, hr.onlyBlock.step hc.toValid hc.within, fun ram v => ?_⟩
  by_cases hv : c.Covers v
  · exact hr.inside hc hv
  · exact hr.outside hb hc hv

theorem Refines.run (hb : b < 2 ^ 27) (hr : Refines L b t m) (calls : List Call) (hcalls : ∀ c ∈ calls, c.InBlock b) :
    ∃ t', (mappings L).run t calls = some t' ∧ Refines L b t' (calls.foldl Call.apply m) := by
  induction calls generalizing t m with
  | nil => exact ⟨t, rfl, hr⟩
  | cons c calls ih =>
    have hc := hcalls c List.mem_cons_self
    obtain ⟨t', hrun, hr'⟩ := ih (hr.step hb hc) fun d hd => hcalls d (List.mem_cons_of_mem c hd)
    refine ⟨t', ?_, hr'⟩
    rw [System.run, step_eq L t hc.toValid]
    exact hrun

/-- The block of the kernel, its third page moved, and that page and the next unmapped again. -/
def remapped : List Call := [⟨0x40000000, 0x40000000, 0x200000, NORMAL_MEMORY⟩, ⟨0x40002000, 0x90000000, 0x1000, NORMAL_MEMORY⟩,
  ⟨0x40002000, 0, 0x2000, 0⟩]

example : (remapped.foldl Call.apply .unmapped).translate 0x40001234 = some ⟨0x40001234, normalMemory⟩ := by decide
example : (remapped.foldl Call.apply .unmapped).translate 0x40002010 = none := by decide

/-! ### The order of the calls -/

/-- The regions have no address in common. -/
def Call.Disjoint (c d : Call) : Prop := ∀ v, ¬ (c.Covers v ∧ d.Covers v)

instance : Std.Symm Call.Disjoint := ⟨fun _ _ h v hv => h v hv.symm⟩

theorem Call.Disjoint.apply_comm {d : Call} (hc : c.Valid) (hd : d.Valid) (h : c.Disjoint d) :
    Call.apply (Call.apply m c) d = Call.apply (Call.apply m d) c := by
  apply AddressSpace.map_comm
  intro p hp
  have hspace := hc.inSpace
  have hal := hc.va_aligned
  have hlow : 4096 * p < 2 ^ 64 := by
    obtain ⟨⟨-, hhi⟩, -⟩ := hp
    unfold Call.pages at hhi
    omega
  have hpage : (BitVec.ofNat 64 (4096 * p)).toNat / 4096 = p := by
    rw [BitVec.toNat_ofNat, Nat.mod_eq_of_lt hlow]
    omega
  apply h (BitVec.ofNat 64 (4096 * p))
  rw [hc.covers_iff, hd.covers_iff, hpage]
  exact hp

/-- Two regions, one behind the other. -/
def adjacent : List Call := [⟨0x40000000, 0x90000000, 0x2000, NORMAL_MEMORY⟩, ⟨0x40002000, 0x80000000, 0x1000, NORMAL_MEMORY⟩]

end Armv8Driver.KernelMmu
