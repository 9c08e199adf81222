import Armv8Driver.KernelMmu.Isolation

/-!
# The pages of a region

What one call of `map_region` on zeroed tables makes of its own region. Every page of it is reached by
the walk, but pages that are 2 MiB apart share an entry of `l3_table`, and the last one keeps it. So
the region is mapped as asked exactly if no two of its pages are that far apart.
-/

namespace Armv8Driver.KernelMmu

open Arm Arm.Translation Transition

variable {L : Layout} {ram : Nat → Word} {v pa : Word} {c : Call} {n k : Nat} {s : Fin PAGE_TABLE_ENTRIES}

/-- The attributes of `NORMAL_MEMORY`, with none from the tables above. -/
def normalMemory : Attributes := ⟨NORMAL_MEMORY.extractLsb' 2 10, NORMAL_MEMORY.extractLsb' 52 3, 0⟩

-- the access flag, inner shareable, attribute index 0
example : normalMemory = ⟨0b0111000000, 0, 0⟩ := by decide

/-- On zeroed tables the call ends, and the walk of each address of its region then succeeds with the
address at the same place of the physical region and the attributes of `NORMAL_MEMORY`. -/
def MapsRegion (L : Layout) (c : Call) : Prop :=
  ∃ t, (mappings L).step zeroed c = some t ∧
    ∀ ram v, c.Covers v → L.walk t ram v = .ok ⟨c.pa.toNat + (v.toNat - c.va.toNat), normalMemory⟩

/-- The translation of a page descriptor with the attributes of `NORMAL_MEMORY`. -/
theorem page_normal {R : Regime} (hR : R.outputBits = 40) (hal : pa.toNat % 4096 = 0) (hlow : pa.toNat < 2 ^ 40) :
    page R (make_page_desc pa NORMAL_MEMORY) = some (pa.toNat, normalMemory.lower, normalMemory.upper) := by
  have hframe : frame 0 (make_page_desc pa NORMAL_MEMORY) = pa.toNat := by
    have hattr : NORMAL_MEMORY.extractLsb' 12 36 = 0#36 := by decide
    show ((pa ||| NORMAL_MEMORY).extractLsb' 12 36).toNat * 2 ^ 12 = _
    rw [BitVec.extractLsb'_or, hattr, BitVec.or_zero, BitVec.extractLsb'_toNat, Nat.shiftRight_eq_div_pow]
    omega
  have hlower : (make_page_desc pa NORMAL_MEMORY).extractLsb' 2 10 = normalMemory.lower := by
    have hzero : pa.extractLsb' 2 10 = 0#10 := by
      apply BitVec.eq_of_toNat_eq
      rw [BitVec.extractLsb'_toNat, Nat.shiftRight_eq_div_pow, BitVec.toNat_zero]
      omega
    rw [make_page_desc, BitVec.extractLsb'_or, hzero, BitVec.zero_or]
    rfl
  have hupper : (make_page_desc pa NORMAL_MEMORY).extractLsb' 52 3 = normalMemory.upper := by
    have hzero : pa.extractLsb' 52 3 = 0#3 := by
      apply BitVec.eq_of_toNat_eq
      rw [BitVec.extractLsb'_toNat, Nat.shiftRight_eq_div_pow, BitVec.toNat_zero]
      omega
    rw [make_page_desc, BitVec.extractLsb'_or, hzero, BitVec.zero_or]
    rfl
  have hbits : isValid (make_page_desc pa NORMAL_MEMORY) = true ∧ isTable (make_page_desc pa NORMAL_MEMORY) = true ∧
      accessFlag (make_page_desc pa NORMAL_MEMORY) = true := by
    have hnormal : NORMAL_MEMORY.getLsbD 0 = true ∧ NORMAL_MEMORY.getLsbD 1 = true ∧ NORMAL_MEMORY.getLsbD 10 = true := by
      decide
    simp only [isValid, isTable, accessFlag, make_page_desc, BitVec.getLsbD_or, hnormal, Bool.or_true, and_self]
  rw [page, hframe, hlower, hupper, if_pos ⟨hbits.1, hbits.2.1, by rw [hR]; exact hlow, hbits.2.2⟩]

/-! ### The last page with an index -/

/-- A page that is used has a last one with its index, at its own place or later. -/
theorem lastPage_exists {va : Word} (hk : k < n) (hslot : L3_INDEX (pageAt va k) = s) :
    ∃ j, lastPage va n s = some j ∧ k ≤ j ∧ j < n ∧ L3_INDEX (pageAt va j) = s := by
  induction n with
  | zero => exact absurd hk (Nat.not_lt_zero k)
  | succ n ih =>
    rw [lastPage_succ]
    by_cases hlast : L3_INDEX (pageAt va n) = s
    · exact ⟨n, if_pos hlast, by omega, by omega, hlast⟩
    · have hkn : k ≠ n := fun heq => hlast (heq ▸ hslot)
      obtain ⟨j, hj, hle, hlt, hidx⟩ := ih (by omega)
      exact ⟨j, by rw [if_neg hlast, hj], hle, by omega, hidx⟩

/-- The page of a covered address, counted from the start of the region. -/
def Call.pageOf (c : Call) (v : Word) : Nat := (v.toNat - c.va.toNat) / 4096

theorem Call.Valid.pageAt_va (hc : c.Valid) (hk : k < c.pages) : (pageAt c.va k).toNat = c.va.toNat + 4096 * k := by
  have hspace := hc.inSpace
  unfold Call.pages at hk
  exact pageAt_toNat (by omega)

theorem Call.Covers.page_lt (hc : c.Valid) (hv : c.Covers v) : c.pageOf v < c.pages := by
  have hsize := hc.size_aligned
  obtain ⟨hlo, hhi⟩ := hv
  unfold Call.pageOf Call.pages
  omega

/-- Two pages of the region have the same slot exactly if they are a multiple of 2 MiB apart. -/
theorem Call.Covers.slot_iff (hc : c.Valid) (hv : c.Covers v) (hk : k < c.pages) :
    L3_INDEX (pageAt c.va k) = L3_INDEX v ↔ k % 512 = c.pageOf v % 512 := by
  have hal := hc.va_aligned
  obtain ⟨hlo, -⟩ := hv
  rw [Fin.ext_iff, L3_INDEX, L3_INDEX, ptIndex_val, ptIndex_val, hc.pageAt_va hk]
  unfold Call.pageOf
  omega

/-- The walk of a covered address reaches `l3_table`: its page has set the upper entries. -/
theorem Call.Covers.liveAfter {t : Tables} (hc : c.Valid) (hv : c.Covers v) : LiveAfter t c.va c.pages v := by
  have hk := hv.page_lt hc
  have hpage := hc.pageAt_va hk
  have hal := hc.va_aligned
  obtain ⟨hlo, -⟩ := hv
  have hsame : ∀ i, 12 ≤ i → ptIndex (pageAt c.va (c.pageOf v)) i = ptIndex v i := by
    intro i hi
    obtain ⟨j, rfl⟩ := Nat.exists_eq_add_of_le hi
    have hdiv : (c.va.toNat + 4096 * c.pageOf v) / 2 ^ 12 = v.toNat / 2 ^ 12 := by
      unfold Call.pageOf
      omega
    rw [Fin.ext_iff, ptIndex_val, ptIndex_val, hpage, Nat.pow_add, ← Nat.div_div_eq_div_mul, hdiv, Nat.div_div_eq_div_mul]
  exact ⟨.inr ⟨_, hk, hsame 39 (by decide)⟩, .inr ⟨_, hk, hsame 30 (by decide)⟩, .inr ⟨_, hk, hsame 21 (by decide)⟩⟩

/-- The walk of a covered address goes to the last page of the region that has its slot. -/
theorem Call.Covers.walk_eq (hc : c.Valid) (hpa : c.pa.toNat + c.size.toNat ≤ 2 ^ 40) (hattr : c.attr = NORMAL_MEMORY)
    (hv : c.Covers v) : ∃ j, c.pageOf v ≤ j ∧ j < c.pages ∧ j % 512 = c.pageOf v % 512 ∧
      (∀ k < c.pages, k % 512 = c.pageOf v % 512 → k ≤ j) ∧
      ∀ ram, L.walk (mapPages L zeroed c.va c.pa c.attr c.pages) ram v =
        .ok ⟨c.pa.toNat + 4096 * j + v.toNat % 4096, normalMemory⟩ := by
  have hk := hv.page_lt hc
  obtain ⟨j, hlast, hle, hlt, hslot⟩ := lastPage_exists hk ((hv.slot_iff hc hk).mpr rfl)
  have hsize := hc.size_aligned
  have hspace := hc.inSpace
  have hal := hc.pa_aligned
  have hpage : (pageAt c.pa j).toNat = c.pa.toNat + 4096 * j := by
    unfold Call.pages at hlt
    exact pageAt_toNat (by omega)
  refine ⟨j, hle, hlt, (hv.slot_iff hc hlt).mp hslot, ?_, ?_⟩
  · intro k hk' hmod
    obtain ⟨j', hlast', hle', -, -⟩ := lastPage_exists hk' ((hv.slot_iff hc hk').mpr hmod)
    rw [hlast', Option.some.injEq] at hlast
    exact hlast ▸ hle'
  · intro ram
    have hbound : v.toNat < 2 ^ 48 := by
      obtain ⟨-, hhi⟩ := hv
      omega
    have hwalk := @walk_step_eq L zeroed ram v c (WellFormed.zeroed L) hbound (hv.liveAfter hc)
    rw [slotAfter_some hlast, Call.entry, hattr, page_normal (by rw [L.regime_eq]) (by omega)
      (by unfold Call.pages at hlt; omega), hpage] at hwalk
    rw [hattr]
    exact ok_of_toOption hwalk

/-! ### Regions of at most 2 MiB -/

theorem mapsRegion_of_le (hc : c.Valid) (hpa : c.pa.toNat + c.size.toNat ≤ 2 ^ 40) (hattr : c.attr = NORMAL_MEMORY)
    (hsize : c.size.toNat ≤ 2 ^ 21) : MapsRegion L c := by
  refine ⟨_, step_eq L zeroed hc, ?_⟩
  intro ram v hv
  obtain ⟨j, hle, hlt, hmod, -, hwalk⟩ := hv.walk_eq (L := L) hc hpa hattr
  rw [hwalk ram]
  have hal := hc.va_aligned
  obtain ⟨hlo, -⟩ := hv
  unfold Call.pages at hlt
  unfold Call.pageOf at hle hmod
  have haddress : c.pa.toNat + 4096 * j + v.toNat % 4096 = c.pa.toNat + (v.toNat - c.va.toNat) := by omega
  rw [haddress]

/-- In a larger region the first page is lost to the one 2 MiB above it. -/
theorem not_mapsRegion_of_lt (hc : c.Valid) (hpa : c.pa.toNat + c.size.toNat ≤ 2 ^ 40) (hattr : c.attr = NORMAL_MEMORY)
    (hsize : 2 ^ 21 < c.size.toNat) : ¬ MapsRegion L c := by
  rintro ⟨t, hstep, hmaps⟩
  rw [step_eq L zeroed hc, Option.some.injEq] at hstep
  have hv : c.Covers c.va := ⟨Nat.le_refl _, by omega⟩
  have hfirst : c.pageOf c.va = 0 := by simp [Call.pageOf]
  have halign := hc.size_aligned
  obtain ⟨j, -, -, -, hmost, hwalk⟩ := hv.walk_eq (L := L) hc hpa hattr
  have hfar : 512 ≤ j := hmost 512 (by unfold Call.pages; omega) (by rw [hfirst])
  have hfound := hmaps (fun _ => 0) c.va hv
  rw [← hstep, hwalk, Except.ok.injEq, Output.mk.injEq] at hfound
  have hal := hc.va_aligned
  omega

/-- A region of whole pages is mapped as asked exactly if it has at most 2 MiB. -/
theorem mapsRegion_iff (hc : c.Valid) (hpa : c.pa.toNat + c.size.toNat ≤ 2 ^ 40) (hattr : c.attr = NORMAL_MEMORY) :
    MapsRegion L c ↔ c.size.toNat ≤ 2 ^ 21 := by
  constructor
  · intro hmaps
    by_contra hlarge
    exact not_mapsRegion_of_lt hc hpa hattr (Nat.not_le.mp hlarge) hmaps
  · exact mapsRegion_of_le hc hpa hattr

/-- Half of a block and half of the next one: the region crosses a boundary of 1 GiB. -/
def acrossGiB : Call := ⟨0x3ff00000, 0x80000000, 0x200000, NORMAL_MEMORY⟩

theorem acrossGiB_maps : MapsRegion someLayout acrossGiB :=
  (mapsRegion_iff ⟨by decide, by decide, by decide, by decide⟩ (by decide) rfl).mpr (by decide)

/-- One page more than 2 MiB. -/
def onePageMore : Call := ⟨0, 0, 0x201000, NORMAL_MEMORY⟩

theorem onePageMore_not_mapped :
    onePageMore.Valid ∧ onePageMore.pa.toNat + onePageMore.size.toNat ≤ 2 ^ 40 ∧ ¬ MapsRegion someLayout onePageMore := by
  have hvalid : onePageMore.Valid := ⟨by decide, by decide, by decide, by decide⟩
  exact ⟨hvalid, by decide, not_mapsRegion_of_lt hvalid (by decide) rfl (by decide)⟩

end Armv8Driver.KernelMmu
