import Armv8Driver.KernelMmu.Walk

/-!
# What `map_region` leaves in the tables

For whole pages the loop ends, and its effect has a closed form: an upper entry is set once a page of
the region has its index, and an entry of `l3_table` is that of the last page of the region with its
index.
-/

namespace Armv8Driver.KernelMmu

open Arm Arm.Translation Transition

variable {L : Layout} {t t' : Tables} {ram : Nat → Word} {v va pa attr : Word} {c : Call} {n k : Nat}

/-- The address of page `k` from `a`. -/
def pageAt (a : Word) (k : Nat) : Word := a + BitVec.ofNat 64 (4096 * k)

/-- The tables after the first `n` pages. -/
def mapPages (L : Layout) (t : Tables) (va pa attr : Word) : Nat → Tables
  | 0 => t
  | n + 1 => map_page L (mapPages L t va pa attr n) (pageAt va n) (pageAt pa n) attr

theorem pageAt_zero (a : Word) : pageAt a 0 = a := by simp [pageAt]

theorem pageAt_succ (a : Word) (k : Nat) : pageAt (a + PAGE_SIZE) k = pageAt a (k + 1) := by
  have hsize : BitVec.ofNat 64 (4096 * (k + 1)) = PAGE_SIZE + BitVec.ofNat 64 (4096 * k) := by
    rw [Nat.mul_succ, Nat.add_comm, BitVec.ofNat_add]
    rfl
  rw [pageAt, pageAt, hsize, BitVec.add_assoc]

/-- The loop takes its pages from the front. -/
theorem mapPages_front : ∀ (n : Nat) (t : Tables) (va pa : Word),
    mapPages L t va pa attr (n + 1) =
      mapPages L (map_page L t va pa attr) (va + PAGE_SIZE) (pa + PAGE_SIZE) attr n := by
  intro n
  induction n with
  | zero =>
    intro t va pa
    simp only [mapPages, pageAt_zero]
  | succ n ih =>
    intro t va pa
    rw [mapPages, ih, mapPages, pageAt_succ, pageAt_succ]

theorem size_gt_zero {size : Word} : size > 0 ↔ size.toNat ≠ 0 := by
  rw [gt_iff_lt, BitVec.lt_def]
  simp only [BitVec.ofNat_eq_ofNat, BitVec.toNat_ofNat, Nat.zero_mod]
  omega

theorem map_region_done {size : Word} (fuel : Nat) (hsize : ¬ size > 0) : map_region L fuel t va pa size attr = some t := by
  rw [map_region.eq_def]
  exact if_neg hsize

theorem map_region_step {size : Word} (fuel : Nat) (hsize : size > 0) :
    map_region L (fuel + 1) t va pa size attr =
      map_region L fuel (map_page L t va pa attr) (va + PAGE_SIZE) (pa + PAGE_SIZE) (size - PAGE_SIZE) attr := by
  rw [map_region.eq_def]
  exact if_pos hsize

theorem map_region_exhausted {size : Word} (hsize : size > 0) : map_region L 0 t va pa size attr = none := by
  rw [map_region.eq_def]
  exact if_pos hsize

/-- One iteration takes a page off the size, modulo `2 ^ 64`. -/
theorem size_sub_page (size : Word) : (size - PAGE_SIZE).toNat = (size.toNat + (2 ^ 64 - 4096)) % 2 ^ 64 := by
  have hpage : PAGE_SIZE.toNat = 4096 := rfl
  rw [BitVec.toNat_sub, hpage, Nat.add_comm]

/-- For `n` whole pages the loop takes `n` iterations. -/
theorem map_region_pages : ∀ (n fuel : Nat) (t : Tables) (va pa size : Word), size.toNat = 4096 * n →
    map_region L fuel t va pa size attr = if n ≤ fuel then some (mapPages L t va pa attr n) else none := by
  intro n
  induction n with
  | zero =>
    intro fuel t va pa size hsize
    rw [if_pos (Nat.zero_le _)]
    apply map_region_done
    rw [size_gt_zero]
    omega
  | succ n ih =>
    intro fuel t va pa size hsize
    have hpos : size > 0 := by
      rw [size_gt_zero]
      omega
    have hrest : (size - PAGE_SIZE).toNat = 4096 * n := by
      have hlt := size.isLt
      rw [size_sub_page]
      omega
    cases fuel with
    | zero => rw [map_region_exhausted hpos, if_neg (Nat.not_succ_le_zero n)]
    | succ fuel =>
      rw [map_region_step fuel hpos, mapPages_front, ih _ _ _ _ _ hrest]
      simp only [Nat.succ_le_succ_iff]

theorem map_region_eq (n fuel : Nat) (t : Tables) (va pa size : Word) (hsize : size.toNat = 4096 * n) (hfuel : n ≤ fuel) :
    map_region L fuel t va pa size attr = some (mapPages L t va pa attr n) := by
  rw [map_region_pages n fuel t va pa size hsize, if_pos hfuel]

/-! ### The upper tables -/

/-- An upper table after the first `n` pages, whose indices in it are given by `idx`. -/
def fill (table : Fin PAGE_TABLE_ENTRIES → Word) (idx : Nat → Fin PAGE_TABLE_ENTRIES) (desc : Word) :
    Nat → Fin PAGE_TABLE_ENTRIES → Word
  | 0 => table
  | n + 1 => setIfInvalid (fill table idx desc n) (idx n) desc

theorem mapPages_upper (L : Layout) (t : Tables) (va pa attr : Word) (n : Nat) :
    (mapPages L t va pa attr n).l0 = fill t.l0 (fun k => L0_INDEX (pageAt va k)) (make_table_desc L.l1_table) n ∧
    (mapPages L t va pa attr n).l1 = fill t.l1 (fun k => L1_INDEX (pageAt va k)) (make_table_desc L.l2_table) n ∧
    (mapPages L t va pa attr n).l2 = fill t.l2 (fun k => L2_INDEX (pageAt va k)) (make_table_desc L.l3_table) n := by
  induction n with
  | zero => exact ⟨rfl, rfl, rfl⟩
  | succ n ih =>
    obtain ⟨h0, h1, h2⟩ := ih
    refine ⟨?_, ?_, ?_⟩
    · show setIfInvalid (mapPages L t va pa attr n).l0 _ _ = _
      rw [h0]
      rfl
    · show setIfInvalid (mapPages L t va pa attr n).l1 _ _ = _
      rw [h1]
      rfl
    · show setIfInvalid (mapPages L t va pa attr n).l2 _ _ = _
      rw [h2]
      rfl

section Fill

variable {table : Fin PAGE_TABLE_ENTRIES → Word} {idx : Nat → Fin PAGE_TABLE_ENTRIES} {desc : Word}
  {i j : Fin PAGE_TABLE_ENTRIES}

theorem setIfInvalid_valid (hdesc : isValid desc = true) :
    isValid (setIfInvalid table i desc j) = true ↔ isValid (table j) = true ∨ i = j := by
  unfold setIfInvalid
  by_cases hempty : table i &&& PTE_VALID = 0
  · rw [if_pos hempty]
    by_cases hij : i = j
    · subst hij
      simp [Function.update_self, hdesc]
    · simp [Function.update_of_ne (Ne.symm hij), hij]
  · rw [if_neg hempty]
    have hset : isValid (table i) = true := by
      rw [and_valid_eq_zero] at hempty
      simpa using hempty
    constructor
    · exact Or.inl
    · rintro (h | rfl)
      · exact h
      · exact hset

theorem fill_valid (hdesc : isValid desc = true) :
    isValid (fill table idx desc n i) = true ↔ isValid (table i) = true ∨ ∃ k < n, idx k = i := by
  induction n with
  | zero => simp [fill]
  | succ n ih =>
    rw [fill, setIfInvalid_valid hdesc, ih]
    constructor
    · rintro ((h | ⟨k, hk, hidx⟩) | h)
      · exact .inl h
      · exact .inr ⟨k, by omega, hidx⟩
      · exact .inr ⟨n, by omega, h⟩
    · rintro (h | ⟨k, hk, hidx⟩)
      · exact .inl (.inl h)
      · by_cases hkn : k = n
        · exact .inr (hkn ▸ hidx)
        · exact .inl (.inr ⟨k, by omega, hidx⟩)

theorem fill_entry (h : ∀ i, table i = 0 ∨ table i = desc) (n : Nat) (i : Fin PAGE_TABLE_ENTRIES) :
    fill table idx desc n i = 0 ∨ fill table idx desc n i = desc := by
  induction n with
  | zero => exact h i
  | succ n ih =>
    rw [fill, setIfInvalid]
    split_ifs
    · by_cases hi : i = idx n
      · rw [hi, Function.update_self]
        exact .inr rfl
      · rw [Function.update_of_ne hi]
        exact ih
    · exact ih

end Fill

theorem WellFormed.zeroed (L : Layout) : WellFormed L zeroed :=
  ⟨fun _ => .inl rfl, fun _ => .inl rfl, fun _ => .inl rfl⟩

theorem WellFormed.mapPages (hwf : WellFormed L t) (va pa attr : Word) (n : Nat) :
    WellFormed L (mapPages L t va pa attr n) := by
  obtain ⟨h0, h1, h2⟩ := mapPages_upper L t va pa attr n
  refine ⟨fun i => ?_, fun i => ?_, fun i => ?_⟩
  · rw [h0]
    exact fill_entry hwf.l0 n i
  · rw [h1]
    exact fill_entry hwf.l1 n i
  · rw [h2]
    exact fill_entry hwf.l2 n i

/-- The upper indices of the address are set, or those of a page of the region. -/
structure LiveAfter (t : Tables) (va : Word) (n : Nat) (v : Word) : Prop where
  l0 : isValid (t.l0 (L0_INDEX v)) = true ∨ ∃ k < n, L0_INDEX (pageAt va k) = L0_INDEX v
  l1 : isValid (t.l1 (L1_INDEX v)) = true ∨ ∃ k < n, L1_INDEX (pageAt va k) = L1_INDEX v
  l2 : isValid (t.l2 (L2_INDEX v)) = true ∨ ∃ k < n, L2_INDEX (pageAt va k) = L2_INDEX v

theorem live_mapPages : Live (mapPages L t va pa attr n) v ↔ LiveAfter t va n v := by
  obtain ⟨h0, h1, h2⟩ := mapPages_upper L t va pa attr n
  constructor
  · rintro ⟨hl0, hl1, hl2⟩
    rw [h0, fill_valid (make_table_desc_valid _)] at hl0
    rw [h1, fill_valid (make_table_desc_valid _)] at hl1
    rw [h2, fill_valid (make_table_desc_valid _)] at hl2
    exact ⟨hl0, hl1, hl2⟩
  · rintro ⟨hl0, hl1, hl2⟩
    refine ⟨?_, ?_, ?_⟩
    · rw [h0, fill_valid (make_table_desc_valid _)]
      exact hl0
    · rw [h1, fill_valid (make_table_desc_valid _)]
      exact hl1
    · rw [h2, fill_valid (make_table_desc_valid _)]
      exact hl2

theorem Live.after (h : Live t v) : LiveAfter t va n v := ⟨.inl h.l0, .inl h.l1, .inl h.l2⟩

/-! ### The page table -/

/-- The last of the first `n` pages that has the index. -/
def lastPage (va : Word) (n : Nat) (s : Fin PAGE_TABLE_ENTRIES) : Option Nat :=
  (List.range n).reverse.find? fun k => L3_INDEX (pageAt va k) = s

/-- The entry that the region has for a slot, or the old one. -/
def slotAfter (t : Tables) (va pa attr : Word) (n : Nat) (s : Fin PAGE_TABLE_ENTRIES) : Word :=
  match lastPage va n s with
  | some k => make_page_desc (pageAt pa k) attr
  | none => t.l3 s

theorem lastPage_succ (va : Word) (n : Nat) (s : Fin PAGE_TABLE_ENTRIES) :
    lastPage va (n + 1) s = if L3_INDEX (pageAt va n) = s then some n else lastPage va n s := by
  rw [lastPage, List.range_succ, List.reverse_append, List.reverse_singleton, List.singleton_append,
    List.find?_cons]
  by_cases h : L3_INDEX (pageAt va n) = s
  · simp [h]
  · simp [h, lastPage]

theorem l3_mapPages (s : Fin PAGE_TABLE_ENTRIES) :
    (mapPages L t va pa attr n).l3 s = slotAfter t va pa attr n s := by
  induction n with
  | zero => rfl
  | succ n ih =>
    show Function.update (mapPages L t va pa attr n).l3 (L3_INDEX (pageAt va n)) _ s = _
    rw [slotAfter, lastPage_succ]
    by_cases h : L3_INDEX (pageAt va n) = s
    · rw [if_pos h, h, Function.update_self]
    · rw [if_neg h, Function.update_of_ne (Ne.symm h), ih]
      rfl

end Armv8Driver.KernelMmu
