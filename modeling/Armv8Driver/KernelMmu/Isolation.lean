import Armv8Driver.KernelMmu.Region

/-!
# Mappings that disturb each other

All addresses with the same L3 index share an entry of `l3_table`, and all with the same L0, L1 or L2
index an entry of the table there. So a call can change the walk of an address outside its region in
two ways: it rewrites the entry of a page that the walk reached before, or it makes the walk reach a
page whose entry is in use for another one.
-/

namespace Armv8Driver.KernelMmu

open Arm Arm.Translation Transition

variable {L : Layout} {t t' : Tables} {ram : Nat → Word} {v va pa attr : Word} {c : Call} {n k : Nat}

/-- The number of pages of the region. -/
def Call.pages (c : Call) : Nat := c.size.toNat / 4096

def Call.Covers (c : Call) (v : Word) : Prop := c.va.toNat ≤ v.toNat ∧ v.toNat < c.va.toNat + c.size.toNat

/-- The call ends, and no walk of an address outside its region has another result than before. -/
def Isolates (L : Layout) (t : Tables) (c : Call) : Prop :=
  ∃ t', (mappings L).step t c = some t' ∧
    ∀ ram v, ¬ c.Covers v → (L.walk t' ram v).toOption = (L.walk t ram v).toOption

/-- The entry of a slot once the pages of the region have been entered in order. -/
def Call.slotAfter (c : Call) (t : Tables) (s : Fin PAGE_TABLE_ENTRIES) : Word :=
  KernelMmu.slotAfter t c.va c.pa c.attr c.pages s

/-- The last page of the region that has the L3 index of the address. -/
def Call.lastPage (c : Call) (v : Word) : Option Nat := KernelMmu.lastPage c.va c.pages (L3_INDEX v)

/-- The entry of page `k` of the region. -/
def Call.entry (c : Call) (k : Nat) : Word := make_page_desc (pageAt c.pa k) c.attr

/-- The region shares no slot with a page outside of it that can be reached. `kept`: a page that the
walk reaches before has the slot of a page of the region only if both have the same translation.
`aliased` and `stale`: a page that it reaches only afterwards has a slot without a translation, be it
one of the region or an old one. -/
structure Separate (L : Layout) (t : Tables) (c : Call) : Prop where
  kept : ∀ (v : Word) k, v.toNat < 2 ^ 48 → ¬ c.Covers v → Live t v → c.lastPage v = some k →
    page L.regime (c.entry k) = page L.regime (t.l3 (L3_INDEX v))
  aliased : ∀ (v : Word) k, v.toNat < 2 ^ 48 → ¬ c.Covers v → ¬ Live t v → LiveAfter t c.va c.pages v →
    c.lastPage v = some k → page L.regime (c.entry k) = none
  stale : ∀ v : Word, v.toNat < 2 ^ 48 → ¬ c.Covers v → ¬ Live t v → LiveAfter t c.va c.pages v →
    c.lastPage v = none → page L.regime (t.l3 (L3_INDEX v)) = none

theorem slotAfter_some (h : c.lastPage v = some k) : c.slotAfter t (L3_INDEX v) = c.entry k := by
  rw [Call.slotAfter, KernelMmu.slotAfter, show KernelMmu.lastPage c.va c.pages (L3_INDEX v) = some k from h]
  rfl

theorem slotAfter_none (h : c.lastPage v = none) : c.slotAfter t (L3_INDEX v) = t.l3 (L3_INDEX v) := by
  rw [Call.slotAfter, KernelMmu.slotAfter, show KernelMmu.lastPage c.va c.pages (L3_INDEX v) = none from h]

/-- The entry of a slot after the call decides what its pages translate to. -/
theorem separate_iff : Separate L t c ↔ ∀ v : Word, v.toNat < 2 ^ 48 → ¬ c.Covers v →
    (Live t v → page L.regime (c.slotAfter t (L3_INDEX v)) = page L.regime (t.l3 (L3_INDEX v))) ∧
    (¬ Live t v → LiveAfter t c.va c.pages v → page L.regime (c.slotAfter t (L3_INDEX v)) = none) := by
  constructor
  · intro h v hv hout
    cases hlast : c.lastPage v with
    | none =>
      rw [slotAfter_none hlast]
      exact ⟨fun _ => rfl, fun hdead hlive => h.stale v hv hout hdead hlive hlast⟩
    | some k =>
      rw [slotAfter_some hlast]
      exact ⟨fun hlive => h.kept v k hv hout hlive hlast, fun hdead hlive => h.aliased v k hv hout hdead hlive hlast⟩
  · intro h
    refine ⟨fun v k hv hout hlive hlast => ?_, fun v k hv hout hdead hlive hlast => ?_,
      fun v hv hout hdead hlive hlast => ?_⟩
    · have hkept := (h v hv hout).1 hlive
      rwa [slotAfter_some hlast] at hkept
    · have hopened := (h v hv hout).2 hdead hlive
      rwa [slotAfter_some hlast] at hopened
    · have hopened := (h v hv hout).2 hdead hlive
      rwa [slotAfter_none hlast] at hopened

theorem step_eq (L : Layout) (t : Tables) (hc : c.Valid) :
    (mappings L).step t c = some (mapPages L t c.va c.pa c.attr c.pages) := by
  have hsize := hc.size_aligned
  have hspace := hc.inSpace
  exact map_region_eq c.pages FUEL t c.va c.pa c.size (by unfold Call.pages; omega) (by unfold Call.pages FUEL; omega)

/-- The tables are well formed after any calls. -/
theorem wellFormed_of_reachable (hs : (mappings L).ReachableUnder (fun _ c => c.Valid) t) : WellFormed L t := by
  apply hs.invariant
  · intro s h
    rw [h]
    exact .zeroed L
  · intro s c t hwf hc h
    rw [step_eq L s hc, Option.some.injEq] at h
    rw [← h]
    exact hwf.mapPages _ _ _ _

theorem walk_step_eq (hwf : WellFormed L t) (hv : v.toNat < 2 ^ 48) (hlive : LiveAfter t c.va c.pages v) :
    (L.walk (mapPages L t c.va c.pa c.attr c.pages) ram v).toOption =
      (page L.regime (c.slotAfter t (L3_INDEX v))).map fun p => ⟨p.1 + v.toNat % 4096, ⟨p.2.1, p.2.2, 0⟩⟩ := by
  rw [walk_live_toOption (hwf.mapPages _ _ _ _) hv (live_mapPages.mpr hlive), l3_mapPages]
  rfl

theorem walk_step_dead (hwf : WellFormed L t) (hdead : ¬ (v.toNat < 2 ^ 48 ∧ LiveAfter t c.va c.pages v)) :
    (L.walk (mapPages L t c.va c.pa c.attr c.pages) ram v).toOption = none := by
  apply walk_dead_toOption (hwf.mapPages _ _ _ _)
  rw [live_mapPages]
  exact hdead

/-- In every reachable state of the tables a call leaves the other mappings alone, exactly when its
region is separate from them. -/
theorem isolates_iff (hs : (mappings L).ReachableUnder (fun _ c => c.Valid) t) (hc : c.Valid) :
    Isolates L t c ↔ Separate L t c := by
  have hwf := wellFormed_of_reachable hs
  constructor
  · rintro ⟨t', hstep, hsame⟩
    rw [step_eq L t hc, Option.some.injEq] at hstep
    subst hstep
    rw [separate_iff]
    refine fun v hv hout => ⟨fun hlive => ?_, fun hdead hlive => ?_⟩
    · have hwalk := hsame (fun _ => 0) v hout
      rw [walk_step_eq hwf hv hlive.after, walk_live_toOption hwf hv hlive] at hwalk
      exact page_offset_inj.mp hwalk
    · have hwalk := hsame (fun _ => 0) v hout
      rw [walk_step_eq hwf hv hlive, walk_dead_toOption hwf (fun h => hdead h.2)] at hwalk
      exact Option.map_eq_none_iff.mp hwalk
  · intro hsep
    refine ⟨_, step_eq L t hc, ?_⟩
    intro ram v hout
    by_cases hv : v.toNat < 2 ^ 48
    · obtain ⟨hkept, hopened⟩ := separate_iff.mp hsep v hv hout
      by_cases hlive : Live t v
      · rw [walk_step_eq hwf hv hlive.after, walk_live_toOption hwf hv hlive, hkept hlive]
      · rw [walk_dead_toOption hwf (fun h => hlive h.2)]
        by_cases hafter : LiveAfter t c.va c.pages v
        · rw [walk_step_eq hwf hv hafter, hopened hlive hafter]
          rfl
        · exact walk_step_dead hwf fun h => hafter h.2
    · rw [walk_step_dead hwf fun h => hv h.1, walk_dead_toOption hwf fun h => hv h.1]

/-! ### Regions in one block of 2 MiB -/

/-- The region lies in block `b` of 2 MiB. -/
def Call.Within (b : Nat) (c : Call) : Prop :=
  b * 2 ^ 21 ≤ c.va.toNat ∧ c.va.toNat + c.size.toNat ≤ (b + 1) * 2 ^ 21

/-- Tables that have been used for block `b` only. -/
structure OnlyBlock (b : Nat) (t : Tables) : Prop where
  l0 : ∀ v, isValid (t.l0 (L0_INDEX v)) = true → (L0_INDEX v).val = b / 2 ^ 18 % 512
  l1 : ∀ v, isValid (t.l1 (L1_INDEX v)) = true → (L1_INDEX v).val = b / 2 ^ 9 % 512
  l2 : ∀ v, isValid (t.l2 (L2_INDEX v)) = true → (L2_INDEX v).val = b % 512
  l3 : ∀ v : Word, v.toNat / 2 ^ 21 = b → ¬ Live t v → ∀ s, t.l3 s = 0

theorem pageAt_toNat {a : Word} (h : a.toNat + 4096 * k < 2 ^ 64) : (pageAt a k).toNat = a.toNat + 4096 * k := by
  rw [pageAt, BitVec.toNat_add, BitVec.toNat_ofNat]
  omega

theorem block_indices {b : Nat} (h : v.toNat / 2 ^ 21 = b) :
    (L0_INDEX v).val = b / 2 ^ 18 % 512 ∧ (L1_INDEX v).val = b / 2 ^ 9 % 512 ∧ (L2_INDEX v).val = b % 512 := by
  refine ⟨?_, ?_, ?_⟩
  · rw [L0_INDEX, ptIndex_val]
    omega
  · rw [L1_INDEX, ptIndex_val]
    omega
  · rw [L2_INDEX, ptIndex_val]
    omega

theorem block_of_indices {b : Nat} (hv : v.toNat < 2 ^ 48) (hb : b < 2 ^ 27) (h0 : (L0_INDEX v).val = b / 2 ^ 18 % 512)
    (h1 : (L1_INDEX v).val = b / 2 ^ 9 % 512) (h2 : (L2_INDEX v).val = b % 512) : v.toNat / 2 ^ 21 = b := by
  rw [L0_INDEX, ptIndex_val] at h0
  rw [L1_INDEX, ptIndex_val] at h1
  rw [L2_INDEX, ptIndex_val] at h2
  omega

theorem Call.Within.page {b : Nat} (hc : c.Valid) (hin : c.Within b) (hk : k < c.pages) :
    (pageAt c.va k).toNat = c.va.toNat + 4096 * k ∧ (pageAt c.va k).toNat / 2 ^ 21 = b := by
  have hspace := hc.inSpace
  have hsize := hc.size_aligned
  obtain ⟨hlo, hhi⟩ := hin
  unfold Call.pages at hk
  have hpage : (pageAt c.va k).toNat = c.va.toNat + 4096 * k := pageAt_toNat (by omega)
  exact ⟨hpage, by omega⟩

/-- An index of a set entry is that of the block, if the entry was set before or is that of a page. -/
theorem index_of_set {set : Prop} {idx : Nat → Fin PAGE_TABLE_ENTRIES} {i : Fin PAGE_TABLE_ENTRIES} {b : Nat}
    (hset : set → i.val = b) (hpages : ∀ k < n, (idx k).val = b) (h : set ∨ ∃ k < n, idx k = i) : i.val = b := by
  rcases h with hs | ⟨k, hk, hidx⟩
  · exact hset hs
  · rw [← hidx]
    exact hpages k hk

theorem OnlyBlock.liveAfter {b : Nat} (h : OnlyBlock b t) (hc : c.Valid) (hin : c.Within b) (hlive : LiveAfter t c.va c.pages v) :
    (L0_INDEX v).val = b / 2 ^ 18 % 512 ∧ (L1_INDEX v).val = b / 2 ^ 9 % 512 ∧ (L2_INDEX v).val = b % 512 := by
  have hpages := fun k (hk : k < c.pages) => block_indices (hin.page hc hk).2
  refine ⟨?_, ?_, ?_⟩
  · exact index_of_set (h.l0 v) (fun k hk => (hpages k hk).1) hlive.l0
  · exact index_of_set (h.l1 v) (fun k hk => (hpages k hk).2.1) hlive.l1
  · exact index_of_set (h.l2 v) (fun k hk => (hpages k hk).2.2) hlive.l2

/-- In one block a slot belongs to one page. -/
theorem Call.Within.lastPage_none {b : Nat} (hc : c.Valid) (hin : c.Within b) (hout : ¬ c.Covers v)
    (hv : v.toNat / 2 ^ 21 = b) : c.lastPage v = none := by
  rw [Call.lastPage, KernelMmu.lastPage, List.find?_eq_none]
  intro k hk hslot
  rw [List.mem_reverse, List.mem_range] at hk
  obtain ⟨hpage, hblock⟩ := hin.page hc hk
  have hidx : (pageAt c.va k).toNat / 2 ^ 12 % 512 = v.toNat / 2 ^ 12 % 512 := by
    have hval := congrArg Fin.val (of_decide_eq_true hslot)
    rw [L3_INDEX, L3_INDEX, ptIndex_val, ptIndex_val] at hval
    exact hval
  have hal := hc.va_aligned
  have hsize := hc.size_aligned
  unfold Call.pages at hk
  apply hout
  unfold Call.Covers
  omega

theorem separate_of_onlyBlock {b : Nat} (hb : b < 2 ^ 27) (h : OnlyBlock b t) (hc : c.Valid) (hin : c.Within b) :
    Separate L t c := by
  have hslot : ∀ v : Word, v.toNat < 2 ^ 48 → ¬ c.Covers v → LiveAfter t c.va c.pages v →
      v.toNat / 2 ^ 21 = b ∧ c.slotAfter t (L3_INDEX v) = t.l3 (L3_INDEX v) := by
    intro v hv hout hlive
    obtain ⟨h0, h1, h2⟩ := h.liveAfter hc hin hlive
    have hblock := block_of_indices hv hb h0 h1 h2
    refine ⟨hblock, ?_⟩
    exact slotAfter_none (hin.lastPage_none hc hout hblock)
  rw [separate_iff]
  refine fun v hv hout => ⟨fun hlive => ?_, fun hdead hlive => ?_⟩
  · rw [(hslot v hv hout hlive.after).2]
  · obtain ⟨hblock, hsame⟩ := hslot v hv hout hlive
    rw [hsame, h.l3 v hblock hdead]
    rfl

theorem OnlyBlock.zeroed (b : Nat) : OnlyBlock b zeroed := by
  have hempty : ¬ isValid 0 = true := by decide
  exact ⟨fun _ h => absurd h hempty, fun _ h => absurd h hempty, fun _ h => absurd h hempty, fun _ _ _ _ => rfl⟩

theorem OnlyBlock.step {b : Nat} (h : OnlyBlock b t) (hc : c.Valid) (hin : c.Within b) :
    OnlyBlock b (mapPages L t c.va c.pa c.attr c.pages) := by
  obtain ⟨h0, h1, h2⟩ := mapPages_upper L t c.va c.pa c.attr c.pages
  have hpages := fun k (hk : k < c.pages) => block_indices (hin.page hc hk).2
  refine ⟨fun v hset => ?_, fun v hset => ?_, fun v hset => ?_, fun v hv hdead s => ?_⟩
  · rw [h0, fill_valid (make_table_desc_valid _)] at hset
    exact index_of_set (h.l0 v) (fun k hk => (hpages k hk).1) hset
  · rw [h1, fill_valid (make_table_desc_valid _)] at hset
    exact index_of_set (h.l1 v) (fun k hk => (hpages k hk).2.1) hset
  · rw [h2, fill_valid (make_table_desc_valid _)] at hset
    exact index_of_set (h.l2 v) (fun k hk => (hpages k hk).2.2) hset
  · rw [live_mapPages] at hdead
    by_cases hempty : c.pages = 0
    · rw [hempty]
      exact h.l3 v hv (fun hlive => hdead hlive.after) s
    · -- the first page of the region has made the block reachable
      obtain ⟨-, hblock⟩ := hin.page hc (Nat.pos_of_ne_zero hempty)
      obtain ⟨i0, i1, i2⟩ := block_indices hblock
      obtain ⟨j0, j1, j2⟩ := block_indices hv
      have hpos := Nat.pos_of_ne_zero hempty
      exact absurd ⟨.inr ⟨0, hpos, Fin.ext (i0.trans j0.symm)⟩, .inr ⟨0, hpos, Fin.ext (i1.trans j1.symm)⟩,
        .inr ⟨0, hpos, Fin.ext (i2.trans j2.symm)⟩⟩ hdead

/-- Mappings that stay in one block of 2 MiB do not disturb each other. -/
theorem separate_of_one_block {b : Nat} (hb : b < 2 ^ 27)
    (hs : (mappings L).ReachableUnder (fun _ c => c.Valid ∧ c.Within b) t) (hc : c.Valid) (hin : c.Within b) :
    Separate L t c := by
  have honly : OnlyBlock b t := by
    apply hs.invariant
    · intro s h
      rw [h]
      exact .zeroed b
    · intro s c t hs hc h
      rw [step_eq L s hc.1, Option.some.injEq] at h
      rw [← h]
      exact hs.step hc.1 hc.2
  exact separate_of_onlyBlock hb honly hc hin

/-- Four tables in consecutive pages. -/
def someLayout : Layout where
  l0_table := 0x40010000
  l1_table := 0x40011000
  l2_table := 0x40012000
  l3_table := 0x40013000
  aligned := by simp
  low := by simp
  distinct := by decide

/-- The page at virtual address 0, and then the page at 2 MiB. -/
def firstPage : Call := ⟨0, 0, 0x1000, NORMAL_MEMORY⟩
def twoMiB : Call := ⟨0x200000, 0x1000, 0x1000, NORMAL_MEMORY⟩

theorem firstPage_valid : firstPage.Valid := ⟨by decide, by decide, by decide, by decide⟩

theorem twoMiB_valid : twoMiB.Valid := ⟨by decide, by decide, by decide, by decide⟩

def afterFirst : Tables := mapPages someLayout zeroed firstPage.va firstPage.pa firstPage.attr firstPage.pages

theorem afterFirst_reachable : (mappings someLayout).ReachableUnder (fun _ c => c.Valid) afterFirst :=
  .step (.init rfl) firstPage_valid (step_eq someLayout zeroed firstPage_valid)

theorem twoMiB_remaps_zero :
    (mappings someLayout).ReachableUnder (fun _ c => c.Valid) afterFirst ∧ twoMiB.Valid ∧
      ¬ Isolates someLayout afterFirst twoMiB := by
  refine ⟨afterFirst_reachable, twoMiB_valid, ?_⟩
  rintro ⟨t', hstep, hsame⟩
  rw [step_eq someLayout afterFirst twoMiB_valid, Option.some.injEq] at hstep
  subst hstep
  have hwalk := hsame (fun _ => 0) 0 (by unfold Call.Covers; decide)
  revert hwalk
  decide

/-- The page after the first one. -/
def secondPage : Call := ⟨0x1000, 0x8000, 0x1000, NORMAL_MEMORY⟩

theorem secondPage_isolates : Isolates someLayout afterFirst secondPage := by
  have hvalid : secondPage.Valid := ⟨by decide, by decide, by decide, by decide⟩
  have hin : firstPage.Within 0 ∧ secondPage.Within 0 := by
    refine ⟨⟨?_, ?_⟩, ⟨?_, ?_⟩⟩ <;> decide
  have hs : (mappings someLayout).ReachableUnder (fun _ c => c.Valid ∧ c.Within 0) afterFirst :=
    .step (.init rfl) ⟨firstPage_valid, hin.1⟩ (step_eq someLayout zeroed firstPage_valid)
  exact (isolates_iff afterFirst_reachable hvalid).mpr (separate_of_one_block (by decide) hs hvalid hin.2)

end Armv8Driver.KernelMmu
