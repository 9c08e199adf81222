import Armv8Driver.KernelMmu.Isolation

/-!
# The loop of `map_region`

The loop takes a page off an unsigned size until nothing is left. A multiple of the page size reaches
0, and any other size steps over it and goes on for ever. Where the loop ends, a second run finds every
upper entry set and writes the same pages again.
-/

namespace Armv8Driver.KernelMmu

open Arm Arm.Translation

variable {L : Layout} {t : Tables} {va pa size attr : Word} {n fuel : Nat}

/-! ### Termination -/

/-- The loop ends, after exactly `calls` calls of `map_page`. -/
def EndsAfter (L : Layout) (t : Tables) (va pa size attr : Word) (calls : Nat) : Prop :=
  ∀ fuel, (map_region L fuel t va pa size attr).isSome = true ↔ calls ≤ fuel

theorem endsAfter_pages (hsize : size.toNat = 4096 * n) : EndsAfter L t va pa size attr n := by
  intro fuel
  rw [map_region_pages n fuel t va pa size hsize]
  by_cases hle : n ≤ fuel
  · simp [hle]
  · simp [hle]

/-- What the size leaves modulo the page size stays the same, so it never reaches 0. -/
theorem map_region_endless (hsize : size.toNat % 4096 ≠ 0) (fuel : Nat) : map_region L fuel t va pa size attr = none := by
  have hpos : size > 0 := by
    rw [size_gt_zero]
    omega
  induction fuel generalizing t va pa size with
  | zero => exact map_region_exhausted hpos
  | succ fuel ih =>
    have hrest : (size - PAGE_SIZE).toNat % 4096 ≠ 0 := by
      rw [size_sub_page]
      omega
    rw [map_region_step fuel hpos]
    refine ih hrest ?_
    rw [size_gt_zero]
    omega

/-- The loop ends after as many calls as there are pages in the size, begun ones included, exactly when
the size is whole pages. -/
theorem map_region_endsAfter_iff (L : Layout) (t : Tables) (va pa size attr : Word) :
    EndsAfter L t va pa size attr ((size.toNat + 4095) / 4096) ↔ size.toNat % 4096 = 0 := by
  constructor
  · intro h
    by_contra hpart
    have hsome := (h _).mpr (Nat.le_refl _)
    rw [map_region_endless hpart] at hsome
    simp at hsome
  · intro hwhole
    apply endsAfter_pages
    omega

/-- A size of one byte wraps around, so it does not end after the one call for its page. -/
theorem map_region_one_byte : ¬ EndsAfter someLayout zeroed 0 0 1 NORMAL_MEMORY ((1 + 4095) / 4096) := by
  intro h
  have hsome := (h 1).mpr (by decide)
  have hpart : (1 : Word).toNat % 4096 ≠ 0 := by decide
  rw [map_region_endless hpart] at hsome
  simp at hsome

/-! ### Repetition -/

section Fill

variable {table : Fin PAGE_TABLE_ENTRIES → Word} {idx : Nat → Fin PAGE_TABLE_ENTRIES} {desc : Word}

theorem setIfInvalid_stable {i : Fin PAGE_TABLE_ENTRIES} (h : isValid (table i) = true) : setIfInvalid table i desc = table := by
  have hset : ¬ table i &&& PTE_VALID = 0 := by
    rw [and_valid_eq_zero, h]
    simp
  rw [setIfInvalid, if_neg hset]

theorem fill_stable (h : ∀ k < n, isValid (table (idx k)) = true) : fill table idx desc n = table := by
  induction n with
  | zero => rfl
  | succ n ih =>
    rw [fill, ih fun k hk => h k (by omega)]
    exact setIfInvalid_stable (h n (by omega))

/-- Filled entries are valid, whatever the table held, so they are not filled again. -/
theorem fill_fill (hdesc : isValid desc = true) : fill (fill table idx desc n) idx desc n = fill table idx desc n := by
  apply fill_stable
  intro k hk
  rw [fill_valid hdesc]
  exact .inr ⟨k, hk, rfl⟩

end Fill

/-- The pages of a region written once more leave the tables as they are. -/
theorem mapPages_mapPages (L : Layout) (t : Tables) (va pa attr : Word) (n : Nat) :
    mapPages L (mapPages L t va pa attr n) va pa attr n = mapPages L t va pa attr n := by
  obtain ⟨h0, h1, h2⟩ := mapPages_upper L t va pa attr n
  obtain ⟨h0', h1', h2'⟩ := mapPages_upper L (mapPages L t va pa attr n) va pa attr n
  apply Tables.ext
  · rw [h0', h0]
    exact fill_fill (make_table_desc_valid _)
  · rw [h1', h1]
    exact fill_fill (make_table_desc_valid _)
  · rw [h2', h2]
    exact fill_fill (make_table_desc_valid _)
  · funext s
    -- The last page of the region that has the slot writes it, in both runs.
    rw [l3_mapPages, slotAfter]
    cases hlast : lastPage va n s with
    | none => rfl
    | some k =>
      rw [l3_mapPages, slotAfter, hlast]

theorem map_region_idempotent (L : Layout) (t : Tables) (va pa size attr : Word) (hsize : size.toNat % 4096 = 0) :
    ∃ t', map_region L FUEL t va pa size attr = some t' ∧ map_region L FUEL t' va pa size attr = some t' := by
  have hpages : size.toNat = 4096 * (size.toNat / 4096) := by omega
  have hfuel : size.toNat / 4096 ≤ FUEL := by
    have hlt := size.isLt
    unfold FUEL
    omega
  refine ⟨mapPages L t va pa attr (size.toNat / 4096), ?_, ?_⟩
  · exact map_region_eq _ FUEL t va pa size hpages hfuel
  · rw [map_region_eq _ FUEL _ va pa size hpages hfuel, mapPages_mapPages]

/-- Any garbage in the tables, and the region of the kernel. -/
theorem map_region_idempotent_kernel :
    ∃ t', map_region someLayout FUEL ⟨fun _ => 3, fun _ => 2, fun _ => 1, fun _ => 0⟩ VIRTUAL_ADDRESS PHYSICAL_ADDRESS
        KERNEL_SIZE NORMAL_MEMORY = some t' ∧
      map_region someLayout FUEL t' VIRTUAL_ADDRESS PHYSICAL_ADDRESS KERNEL_SIZE NORMAL_MEMORY = some t' :=
  map_region_idempotent someLayout _ VIRTUAL_ADDRESS PHYSICAL_ADDRESS KERNEL_SIZE NORMAL_MEMORY (by decide)

end Armv8Driver.KernelMmu
