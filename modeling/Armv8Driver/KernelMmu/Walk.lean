import Armv8Driver.KernelMmu.Model

/-!
# The walk through well-formed tables

Every entry of the upper tables is 0 or the descriptor of the next table, so the walk of an address
either stops at an empty entry or ends in `l3_table`, with no attributes from above.
-/

namespace Armv8Driver.KernelMmu

open Arm Arm.Translation Transition

variable {L : Layout} {t t' : Tables} {ram : Nat → Word} {v va d a : Word}

/-! ### Indices and memory -/

theorem ptIndex_val (va : Word) (n : Nat) : (ptIndex va n).val = va.toNat / 2 ^ n % 512 := by
  show ((va >>> n) &&& PT_INDEX_MASK).toNat = _
  rw [BitVec.toNat_and, BitVec.toNat_ushiftRight, Nat.shiftRight_eq_div_pow]
  exact Nat.and_two_pow_sub_one_eq_mod _ 9

theorem ptIndex_index (va : Word) (n : Nat) : (ptIndex va (shift n)).val = index n va := ptIndex_val va (shift n)

theorem entry_add {base : Nat} (hbase : base % 4096 = 0) (i : Fin PAGE_TABLE_ENTRIES) : entry (base + 8 * i) = i := by
  have hi : i.val < 512 := i.isLt
  apply Fin.ext
  simp only [entry]
  omega

theorem div_add {base : Nat} (hbase : base % 4096 = 0) (i : Fin PAGE_TABLE_ENTRIES) :
    (base + 8 * i) / 4096 = base / 4096 := by
  have hi : i.val < 512 := i.isLt
  omega

/-- Tables at different aligned addresses do not share a page. -/
theorem Layout.page_ne {a b : Word} (ha : a.toNat % 4096 = 0) (hb : b.toNat % 4096 = 0) (hne : a ≠ b) :
    a.toNat / 4096 ≠ b.toNat / 4096 := by
  intro h
  exact hne (BitVec.eq_of_toNat_eq (by omega))

theorem read_l0 (i : Fin PAGE_TABLE_ENTRIES) : L.read t ram (L.l0_table.toNat + 8 * i) = t.l0 i := by
  have hal := L.aligned L.l0_table (by simp)
  simp only [Layout.read, div_add hal, entry_add hal, if_true]

theorem read_l1 (i : Fin PAGE_TABLE_ENTRIES) : L.read t ram (L.l1_table.toNat + 8 * i) = t.l1 i := by
  have hal := L.aligned L.l1_table (by simp)
  have hdist := L.distinct
  simp only [List.nodup_cons, List.mem_cons, not_or] at hdist
  have h0 := Layout.page_ne hal (L.aligned L.l0_table (by simp)) (Ne.symm hdist.1.1)
  simp only [Layout.read, div_add hal, entry_add hal, h0, if_true, if_false]

theorem read_l2 (i : Fin PAGE_TABLE_ENTRIES) : L.read t ram (L.l2_table.toNat + 8 * i) = t.l2 i := by
  have hal := L.aligned L.l2_table (by simp)
  have hdist := L.distinct
  simp only [List.nodup_cons, List.mem_cons, not_or] at hdist
  have h0 := Layout.page_ne hal (L.aligned L.l0_table (by simp)) (Ne.symm hdist.1.2.1)
  have h1 := Layout.page_ne hal (L.aligned L.l1_table (by simp)) (Ne.symm hdist.2.1.1)
  simp only [Layout.read, div_add hal, entry_add hal, h0, h1, if_true, if_false]

theorem read_l3 (i : Fin PAGE_TABLE_ENTRIES) : L.read t ram (L.l3_table.toNat + 8 * i) = t.l3 i := by
  have hal := L.aligned L.l3_table (by simp)
  have hdist := L.distinct
  simp only [List.nodup_cons, List.mem_cons, not_or] at hdist
  have h0 := Layout.page_ne hal (L.aligned L.l0_table (by simp)) (Ne.symm hdist.1.2.2.1)
  have h1 := Layout.page_ne hal (L.aligned L.l1_table (by simp)) (Ne.symm hdist.2.1.2.1)
  have h2 := Layout.page_ne hal (L.aligned L.l2_table (by simp)) (Ne.symm hdist.2.2.1.1)
  simp only [Layout.read, div_add hal, entry_add hal, h0, h1, h2, if_true, if_false]

theorem read_index {base : Nat} {table : Fin PAGE_TABLE_ENTRIES → Word}
    (hread : ∀ i : Fin PAGE_TABLE_ENTRIES, L.read t ram (base + 8 * i) = table i) (n : Nat) (v : Word) :
    L.read t ram (base + 8 * index n v) = table (ptIndex v (shift n)) := by
  rw [← ptIndex_index]
  exact hread _

/-! ### Descriptors -/

theorem and_valid_eq_zero : d &&& PTE_VALID = 0 ↔ isValid d = false := by
  constructor
  · intro h
    have hbit := congrArg (fun x : Word => x.getLsbD 0) h
    simpa [PTE_VALID, isValid] using hbit
  · intro h
    apply BitVec.eq_of_getLsbD_eq
    intro i hi
    by_cases hzero : i = 0
    · rw [hzero]
      simpa [PTE_VALID, isValid] using h
    · simp [PTE_VALID, hzero]

theorem isValid_zero : isValid 0 = false := rfl

theorem make_table_desc_valid (a : Word) : isValid (make_table_desc a) = true := by
  simp [isValid, make_table_desc, PTE_VALID, PTE_TABLE]

theorem make_table_desc_table (a : Word) : isTable (make_table_desc a) = true := by
  simp [isTable, make_table_desc, PTE_VALID, PTE_TABLE]

/-- The low bits of a table descriptor are no part of the address. -/
theorem nextTable_make_table_desc (hal : a.toNat % 4096 = 0) (hlow : a.toNat < 2 ^ 40) :
    nextTable (make_table_desc a) = a.toNat := by
  have hvalid : PTE_VALID.extractLsb' 12 36 = 0#36 := by decide
  have htable : PTE_TABLE.extractLsb' 12 36 = 0#36 := by decide
  rw [nextTable, make_table_desc, BitVec.extractLsb'_or, BitVec.extractLsb'_or, hvalid, htable, BitVec.or_zero,
    BitVec.or_zero, BitVec.extractLsb'_toNat, Nat.shiftRight_eq_div_pow]
  omega

theorem make_table_desc_attributes (hlow : a.toNat < 2 ^ 40) : (make_table_desc a).extractLsb' 59 5 = 0#5 := by
  have hvalid : PTE_VALID.extractLsb' 59 5 = 0#5 := by decide
  have htable : PTE_TABLE.extractLsb' 59 5 = 0#5 := by decide
  rw [make_table_desc, BitVec.extractLsb'_or, BitVec.extractLsb'_or, hvalid, htable, BitVec.or_zero, BitVec.or_zero]
  apply BitVec.eq_of_toNat_eq
  rw [BitVec.extractLsb'_toNat, Nat.shiftRight_eq_div_pow, Nat.div_eq_of_lt (by omega)]
  rfl

theorem Layout.regime_eq (L : Layout) : L.regime = ⟨L.l0_table.toNat, 48, 40⟩ := by
  have hlow := L.low L.l0_table (by simp)
  have hbase : (L.l0_table.extractLsb' 0 48).toNat = L.l0_table.toNat := by
    rw [BitVec.extractLsb'_toNat, Nat.shiftRight_zero, Nat.mod_eq_of_lt (by omega)]
  rw [Layout.regime, Regime.ofRegisters, hbase]
  rfl

theorem walk_start (hv : v.toNat < 2 ^ 48) :
    L.walk t ram v = walkTable L.regime (L.read t ram) v 3 L.l0_table.toNat 0 := by
  rw [Layout.walk, Arm.Translation.walk, L.regime_eq]
  exact if_pos hv

/-! ### Well-formed tables -/

/-- The upper tables hold nothing but empty entries and the descriptor of the next table. -/
structure WellFormed (L : Layout) (t : Tables) : Prop where
  l0 : ∀ i, t.l0 i = 0 ∨ t.l0 i = make_table_desc L.l1_table
  l1 : ∀ i, t.l1 i = 0 ∨ t.l1 i = make_table_desc L.l2_table
  l2 : ∀ i, t.l2 i = 0 ∨ t.l2 i = make_table_desc L.l3_table

/-- The walk of the address reaches `l3_table`. -/
structure Live (t : Tables) (v : Word) : Prop where
  l0 : isValid (t.l0 (L0_INDEX v)) = true
  l1 : isValid (t.l1 (L1_INDEX v)) = true
  l2 : isValid (t.l2 (L2_INDEX v)) = true

/-- One level of the walk, through an entry that is empty or the descriptor of the next table. -/
theorem walk_level {R : Regime} {read : Nat → Word} {n base : Nat} {next : Word} (hR : R.outputBits = 40)
    (hread : read (base + 8 * index (n + 1) v) = d) (hwf : d = 0 ∨ d = make_table_desc next)
    (hal : next.toNat % 4096 = 0) (hlow : next.toNat < 2 ^ 40) :
    walkTable R read v (n + 1) base 0 =
      if isValid d = true then walkTable R read v n next.toNat 0 else .error (.translation (2 - n)) := by
  rcases hwf with hzero | hdesc
  · rw [hzero, isValid_zero, if_neg Bool.false_ne_true, walkTable_invalid hread (hzero ▸ isValid_zero)]
  · have hsize : nextTable d < 2 ^ R.outputBits := by
      rw [hdesc, nextTable_make_table_desc hal hlow, hR]
      exact hlow
    rw [walkTable_next hread (hdesc ▸ make_table_desc_valid next) (hdesc ▸ make_table_desc_table next) hsize, hdesc,
      nextTable_make_table_desc hal hlow, make_table_desc_attributes hlow, BitVec.or_zero,
      if_pos (make_table_desc_valid next)]

theorem walk_eq (hwf : WellFormed L t) (hv : v.toNat < 2 ^ 48) :
    L.walk t ram v =
      if isValid (t.l0 (L0_INDEX v)) = true then
        if isValid (t.l1 (L1_INDEX v)) = true then
          if isValid (t.l2 (L2_INDEX v)) = true then walkTable L.regime (L.read t ram) v 0 L.l3_table.toNat 0
          else .error (.translation 2)
        else .error (.translation 1)
      else .error (.translation 0) := by
  have hR : L.regime.outputBits = 40 := by rw [L.regime_eq]
  rw [walk_start hv, walk_level hR (read_index read_l0 3 v) (hwf.l0 _) (L.aligned _ (by simp)) (L.low _ (by simp)),
    walk_level hR (read_index read_l1 2 v) (hwf.l1 _) (L.aligned _ (by simp)) (L.low _ (by simp)),
    walk_level hR (read_index read_l2 1 v) (hwf.l2 _) (L.aligned _ (by simp)) (L.low _ (by simp))]
  rfl

theorem walk_live (hwf : WellFormed L t) (hv : v.toNat < 2 ^ 48) (hlive : Live t v) :
    L.walk t ram v = walkTable L.regime (L.read t ram) v 0 L.l3_table.toNat 0 := by
  rw [walk_eq hwf hv, if_pos hlive.l0, if_pos hlive.l1, if_pos hlive.l2]

theorem walk_dead (hwf : WellFormed L t) (hv : v.toNat < 2 ^ 48) (hdead : ¬ Live t v) :
    ∃ level, L.walk t ram v = .error (.translation level) := by
  rw [walk_eq hwf hv]
  by_cases h0 : isValid (t.l0 (L0_INDEX v)) = true
  · by_cases h1 : isValid (t.l1 (L1_INDEX v)) = true
    · by_cases h2 : isValid (t.l2 (L2_INDEX v)) = true
      · exact absurd ⟨h0, h1, h2⟩ hdead
      · exact ⟨2, by rw [if_pos h0, if_pos h1, if_neg h2]⟩
    · exact ⟨1, by rw [if_pos h0, if_neg h1]⟩
  · exact ⟨0, by rw [if_neg h0]⟩

theorem walk_outside (hv : ¬ v.toNat < 2 ^ 48) : L.walk t ram v = .error (.translation 0) := by
  have hout : ¬ v.toNat < 2 ^ L.regime.inputBits := by
    rw [L.regime_eq]
    exact hv
  rw [Layout.walk, Arm.Translation.walk, if_neg hout]

/-- The result of the walk, with all faults alike. -/
theorem walk_live_toOption (hwf : WellFormed L t) (hv : v.toNat < 2 ^ 48) (hlive : Live t v) :
    (L.walk t ram v).toOption = (page L.regime (t.l3 (L3_INDEX v))).map fun p =>
      ⟨p.1 + v.toNat % 4096, ⟨p.2.1, p.2.2, 0⟩⟩ := by
  rw [walk_live hwf hv hlive, walkTable_page (read_index read_l3 0 v)]
  rfl

theorem walk_dead_toOption (hwf : WellFormed L t) (hdead : ¬ (v.toNat < 2 ^ 48 ∧ Live t v)) :
    (L.walk t ram v).toOption = none := by
  by_cases hv : v.toNat < 2 ^ 48
  · obtain ⟨level, hwalk⟩ : ∃ level, L.walk t ram v = .error (.translation level) :=
      walk_dead hwf hv fun hlive => hdead ⟨hv, hlive⟩
    rw [hwalk]
    rfl
  · rw [walk_outside hv]
    rfl

end Armv8Driver.KernelMmu
