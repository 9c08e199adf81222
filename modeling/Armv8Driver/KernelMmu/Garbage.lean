import Armv8Driver.KernelMmu.Identity
import Armv8Driver.KernelMmu.Loop

/-!
# What RAM held before

`boot.S` does not clear `.bss`, and nothing between `_start` and `build_translation_tables` stores into
the tables, so they begin with what RAM held. The pages of the kernel overwrite all of `l3_table`, but
an entry of an upper table that happens to be valid stays. The translation is the intended one for all
of RAM around the tables exactly if no such entry is in the way of a walk.
-/

namespace Armv8Driver.KernelMmu

open Arm Arm.Translation Transition

variable {L : Layout} {t u : Tables} {ram : Nat → Word} {v d table : Word} {n base : Nat} {i j k l : Fin PAGE_TABLE_ENTRIES}

/-! ### The intended translation -/

/-- The block of the kernel to itself, and nothing else. -/
def intended (v : Word) : Except Fault Output :=
  if L0_INDEX v ≠ L0_INDEX VIRTUAL_ADDRESS then .error (.translation 0)
  else if L1_INDEX v ≠ L1_INDEX VIRTUAL_ADDRESS then .error (.translation 1)
  else if L2_INDEX v ≠ L2_INDEX VIRTUAL_ADDRESS then .error (.translation 2)
  else .ok ⟨v.toNat, normalMemory⟩

/-- The entry leads to a table and adds no attributes. -/
structure Leads (table d : Word) : Prop where
  valid : isValid d = true
  isTable : isTable d = true
  next : nextTable d = table.toNat
  attributes : d.extractLsb' 59 5 = 0#5

/-- The entry is a block of 2 MiB that does what the pages of the kernel do. -/
structure KernelBlock (d : Word) : Prop where
  valid : isValid d = true
  isBlock : isTable d = false
  frame : frame 1 d = VIRTUAL_ADDRESS.toNat
  lower : d.extractLsb' 2 10 = normalMemory.lower
  upper : d.extractLsb' 52 3 = normalMemory.upper

/-- The upper tables have the way to the block of the kernel in them, and nothing else. -/
structure OnlyKernel (L : Layout) (t : Tables) : Prop where
  l0_rest : ∀ i, i ≠ L0_INDEX VIRTUAL_ADDRESS → isValid (t.l0 i) = false ∨ isTable (t.l0 i) = false
  l0 : Leads L.l1_table (t.l0 (L0_INDEX VIRTUAL_ADDRESS))
  l1_rest : ∀ i, i ≠ L1_INDEX VIRTUAL_ADDRESS → isValid (t.l1 i) = false
  l1 : Leads L.l2_table (t.l1 (L1_INDEX VIRTUAL_ADDRESS))
  l2_rest : ∀ i, i ≠ L2_INDEX VIRTUAL_ADDRESS → isValid (t.l2 i) = false
  l2 : Leads L.l3_table (t.l2 (L2_INDEX VIRTUAL_ADDRESS)) ∨ KernelBlock (t.l2 (L2_INDEX VIRTUAL_ADDRESS))

/-- The pages of the kernel are in `l3_table`. -/
def HasPages (t : Tables) : Prop := ∀ s, t.l3 s = make_page_desc (pageAt PHYSICAL_ADDRESS s) NORMAL_MEMORY

theorem Leads.make_table_desc (hal : table.toNat % 4096 = 0) (hlow : table.toNat < 2 ^ 40) :
    Leads table (make_table_desc table) :=
  ⟨make_table_desc_valid _, make_table_desc_table _, nextTable_make_table_desc hal hlow, make_table_desc_attributes hlow⟩

theorem Leads.walkTable {R : Regime} {read : Nat → Word} (h : Leads table d) (hlow : table.toNat < 2 ^ R.outputBits)
    (hread : read (base + 8 * index (n + 1) v) = d) :
    walkTable R read v (n + 1) base 0 = walkTable R read v n table.toNat 0 := by
  have hsize : nextTable d < 2 ^ R.outputBits := h.next ▸ hlow
  rw [walkTable_next hread h.valid h.isTable hsize, h.next, h.attributes, BitVec.or_zero]

theorem pageAt_physical (s : Fin PAGE_TABLE_ENTRIES) :
    (pageAt PHYSICAL_ADDRESS s).toNat = VIRTUAL_ADDRESS.toNat + 4096 * s := by
  have hs : s.val < 512 := s.isLt
  have hbase : VIRTUAL_ADDRESS.toNat = 0x40000000 := rfl
  show (pageAt VIRTUAL_ADDRESS s).toNat = _
  exact pageAt_toNat (by omega)

/-- The indices of an address in the block of the kernel. -/
theorem kernel_address (hv : v.toNat < 2 ^ 48) (h0 : L0_INDEX v = L0_INDEX VIRTUAL_ADDRESS)
    (h1 : L1_INDEX v = L1_INDEX VIRTUAL_ADDRESS) (h2 : L2_INDEX v = L2_INDEX VIRTUAL_ADDRESS) :
    v.toNat / 2 ^ 21 = 512 := by
  apply block_of_indices hv (by decide)
  · rw [h0]
    rfl
  · rw [h1]
    rfl
  · rw [h2]
    rfl

theorem outputBits_eq : L.regime.outputBits = 40 := by rw [L.regime_eq]

theorem walkTable_l3 (hpages : HasPages u) (hv : v.toNat / 2 ^ 21 = 512) :
    walkTable L.regime (L.read u ram) v 0 L.l3_table.toNat 0 = .ok ⟨v.toNat, normalMemory⟩ := by
  have hslot := pageAt_physical (L3_INDEX v)
  have hindex : (L3_INDEX v).val = v.toNat / 2 ^ 12 % 512 := ptIndex_val v 12
  have hbase : VIRTUAL_ADDRESS.toNat = 0x40000000 := rfl
  have hpage : page L.regime (u.l3 (L3_INDEX v)) =
      some ((pageAt PHYSICAL_ADDRESS (L3_INDEX v)).toNat, normalMemory.lower, normalMemory.upper) := by
    rw [hpages]
    exact page_normal outputBits_eq (by omega) (by omega)
  apply ok_of_toOption
  rw [walkTable_page (read_index read_l3 0 v)]
  show (page L.regime (u.l3 (L3_INDEX v))).map _ = _
  rw [hpage, Option.map_some]
  have haddress : (pageAt PHYSICAL_ADDRESS (L3_INDEX v)).toNat + v.toNat % 4096 = v.toNat := by omega
  simp only [haddress]
  rfl

theorem KernelBlock.leaf (h : KernelBlock d) (hv : v.toNat / 2 ^ 21 = 512) :
    leaf L.regime 1 d v 0 = .ok ⟨v.toNat, normalMemory⟩ := by
  have hbase : VIRTUAL_ADDRESS.toNat = 0x40000000 := rfl
  have hflag : accessFlag d = true := by
    have hbit := congrArg (fun x : BitVec 10 => x.getLsbD 8) h.lower
    simpa [accessFlag, normalMemory, NORMAL_MEMORY, PTE_VALID, PTE_PAGE, PTE_AF, PTE_SH_INNER, PTE_ATTRINDX] using hbit
  have haddress : VIRTUAL_ADDRESS.toNat + v.toNat % 2 ^ shift 1 = v.toNat := by
    show VIRTUAL_ADDRESS.toNat + v.toNat % 2 ^ 21 = v.toNat
    omega
  refine leaf_eq_ok.mpr ⟨?_, hflag, ?_⟩
  · rw [h.frame, outputBits_eq]
    decide
  · rw [h.frame, h.lower, h.upper, haddress]
    rfl

/-- Nothing of RAM is read on the way. -/
theorem OnlyKernel.walk (h : OnlyKernel L u) (hpages : HasPages u) (hv : v.toNat < 2 ^ 48) : L.walk u ram v = intended v := by
  have hlow : ∀ a ∈ [L.l0_table, L.l1_table, L.l2_table, L.l3_table], a.toNat < 2 ^ L.regime.outputBits := by
    rw [outputBits_eq]
    exact L.low
  rw [walk_start hv, intended]
  by_cases h0 : L0_INDEX v = L0_INDEX VIRTUAL_ADDRESS
  · rw [if_neg (not_not_intro h0), h.l0.walkTable (hlow _ (by simp)) ((read_index read_l0 3 v).trans (congrArg u.l0 h0))]
    by_cases h1 : L1_INDEX v = L1_INDEX VIRTUAL_ADDRESS
    · rw [if_neg (not_not_intro h1), h.l1.walkTable (hlow _ (by simp)) ((read_index read_l1 2 v).trans (congrArg u.l1 h1))]
      by_cases h2 : L2_INDEX v = L2_INDEX VIRTUAL_ADDRESS
      · rw [if_neg (not_not_intro h2)]
        have hread : L.read u ram (L.l2_table.toNat + 8 * index 1 v) = u.l2 (L2_INDEX VIRTUAL_ADDRESS) :=
          (read_index read_l2 1 v).trans (congrArg u.l2 h2)
        rcases h.l2 with hleads | hblock
        · rw [hleads.walkTable (hlow _ (by simp)) hread]
          exact walkTable_l3 hpages (kernel_address hv h0 h1 h2)
        · rw [walkTable_block hread hblock.valid hblock.isBlock (by decide)]
          exact hblock.leaf (kernel_address hv h0 h1 h2)
      · rw [if_pos h2]
        exact walkTable_invalid (read_index read_l2 1 v) (h.l2_rest _ h2)
    · rw [if_pos h1]
      exact walkTable_invalid (read_index read_l1 2 v) (h.l1_rest _ h1)
  · rw [if_pos h0]
    apply (walkTable_translation_iff (Nat.le_refl 2) (read_index read_l0 3 v)).mpr
    rcases h.l0_rest _ h0 with hvalid | hblock
    · exact .inl hvalid
    · exact .inr ⟨rfl, hblock⟩

/-! ### Tables that give the intended translation -/

/-- Each choice of the four indices is that of an address. -/
theorem exists_address (i j k l : Fin PAGE_TABLE_ENTRIES) : ∃ v : Word, v.toNat < 2 ^ 48 ∧
    L0_INDEX v = i ∧ L1_INDEX v = j ∧ L2_INDEX v = k ∧ L3_INDEX v = l := by
  have hi : i.val < 512 := i.isLt
  have hj : j.val < 512 := j.isLt
  have hk : k.val < 512 := k.isLt
  have hl : l.val < 512 := l.isLt
  obtain ⟨v, hv⟩ : ∃ v : Word, v.toNat = i * 2 ^ 39 + j * 2 ^ 30 + k * 2 ^ 21 + l * 2 ^ 12 := by
    refine ⟨BitVec.ofNat 64 (i * 2 ^ 39 + j * 2 ^ 30 + k * 2 ^ 21 + l * 2 ^ 12), ?_⟩
    rw [BitVec.toNat_ofNat]
    omega
  refine ⟨v, by omega, Fin.ext ?_, Fin.ext ?_, Fin.ext ?_, Fin.ext ?_⟩
  all_goals
    refine (ptIndex_val _ _).trans ?_
    rw [hv]
    omega

/-- A table may lie in one of the pages of the tables, or elsewhere in RAM. -/
theorem read_cases (L : Layout) (u : Tables) (ram : Nat → Word) (hbase : base % 4096 = 0) :
    base = L.l0_table.toNat ∨ base = L.l1_table.toNat ∨ base = L.l2_table.toNat ∨ base = L.l3_table.toNat ∨
      ∀ i : Fin PAGE_TABLE_ENTRIES, L.read u ram (base + 8 * i) = ram (base + 8 * i) := by
  have hpage : ∀ a ∈ [L.l0_table, L.l1_table, L.l2_table, L.l3_table], base / 4096 = a.toNat / 4096 → base = a.toNat := by
    intro a ha heq
    have hal := L.aligned a ha
    omega
  by_cases h0 : base / 4096 = L.l0_table.toNat / 4096
  · exact .inl (hpage _ (by simp) h0)
  by_cases h1 : base / 4096 = L.l1_table.toNat / 4096
  · exact .inr (.inl (hpage _ (by simp) h1))
  by_cases h2 : base / 4096 = L.l2_table.toNat / 4096
  · exact .inr (.inr (.inl (hpage _ (by simp) h2)))
  by_cases h3 : base / 4096 = L.l3_table.toNat / 4096
  · exact .inr (.inr (.inr (.inl (hpage _ (by simp) h3))))
  refine .inr (.inr (.inr (.inr fun i => ?_)))
  simp only [Layout.read, div_add hbase, h0, h1, h2, h3, if_false]

theorem nextTable_aligned (d : Word) : nextTable d % 4096 = 0 := Nat.mul_mod_left _ _

/-- The walk of the address is that of the kernel until `n` levels remain. -/
structure OnTheWay (n : Nat) (v : Word) : Prop where
  l0 : n < 3 → L0_INDEX v = L0_INDEX VIRTUAL_ADDRESS
  l1 : n < 2 → L1_INDEX v = L1_INDEX VIRTUAL_ADDRESS
  l2 : n < 1 → L2_INDEX v = L2_INDEX VIRTUAL_ADDRESS

/-- With RAM empty, the walks that get to a table with `n` levels below it give the intended result from there. -/
def Intends (L : Layout) (u : Tables) (n base : Nat) : Prop :=
  ∀ v : Word, v.toNat < 2 ^ 48 → OnTheWay n v → walkTable L.regime (L.read u fun _ => 0) v n base 0 = intended v

theorem OnTheWay.up (h : OnTheWay n v) : OnTheWay (n + 1) v :=
  ⟨fun hn => h.l0 (by omega), fun hn => h.l1 (by omega), fun hn => h.l2 (by omega)⟩

theorem OnTheWay.kernel (n : Nat) : OnTheWay n VIRTUAL_ADDRESS := ⟨fun _ => rfl, fun _ => rfl, fun _ => rfl⟩

theorem intended_on (h : OnTheWay 0 v) : intended v = .ok ⟨v.toNat, normalMemory⟩ := by
  rw [intended, if_neg (not_not_intro (h.l0 (by decide))), if_neg (not_not_intro (h.l1 (by decide))),
    if_neg (not_not_intro (h.l2 (by decide)))]

theorem intended_off (hn : n ≤ 2) (hon : OnTheWay (n + 1) v) (hoff : ¬ OnTheWay n v) :
    intended v = .error (.translation (2 - n)) := by
  have hcases : n = 0 ∨ n = 1 ∨ n = 2 := by omega
  rcases hcases with rfl | rfl | rfl
  · have h2 : L2_INDEX v ≠ L2_INDEX VIRTUAL_ADDRESS := fun h2 =>
      hoff ⟨fun _ => hon.l0 (by decide), fun _ => hon.l1 (by decide), fun _ => h2⟩
    rw [intended, if_neg (not_not_intro (hon.l0 (by decide))), if_neg (not_not_intro (hon.l1 (by decide))), if_pos h2]
  · have h1 : L1_INDEX v ≠ L1_INDEX VIRTUAL_ADDRESS := fun h1 =>
      hoff ⟨fun _ => hon.l0 (by decide), fun _ => h1, by omega⟩
    rw [intended, if_neg (not_not_intro (hon.l0 (by decide))), if_pos h1]
  · have h0 : L0_INDEX v ≠ L0_INDEX VIRTUAL_ADDRESS := fun h0 => hoff ⟨fun _ => h0, by omega, by omega⟩
    rw [intended, if_pos h0]

/-- An entry off the way stops the walk. -/
theorem Intends.entry_off (h : Intends L u (n + 1) base) (hn : n ≤ 2) (hv : v.toNat < 2 ^ 48) (hon : OnTheWay (n + 1) v)
    (hoff : ¬ OnTheWay n v) (hread : L.read u (fun _ => 0) (base + 8 * index (n + 1) v) = d) :
    isValid d = false ∨ (n = 2 ∧ isTable d = false) := by
  apply (walkTable_translation_iff hn hread).mp
  rw [h v hv hon]
  exact intended_off hn hon hoff

theorem Intends.kernel_ok (h : Intends L u n base) :
    walkTable L.regime (L.read u fun _ => 0) VIRTUAL_ADDRESS n base 0 = .ok ⟨VIRTUAL_ADDRESS.toNat, normalMemory⟩ := by
  rw [h VIRTUAL_ADDRESS (by decide) (.kernel n)]
  exact intended_on (.kernel 0)

/-- A table descriptor on the way adds no attributes, and leads to a table from which the walks go on as
intended. -/
theorem Intends.next (h : Intends L u (n + 1) base) (hread : ∀ v, OnTheWay n v →
    L.read u (fun _ => 0) (base + 8 * index (n + 1) v) = d) (htable : isTable d = true) :
    isValid d = true ∧ d.extractLsb' 59 5 = 0#5 ∧ Intends L u n (nextTable d) := by
  obtain ⟨hvalid, ⟨-, hsize, hok⟩ | ⟨hblock, -, -⟩⟩ := walkTable_ok h.kernel_ok (hread _ (.kernel n))
  · have hattr : d.extractLsb' 59 5 = 0#5 := (BitVec.or_eq_zero_iff.mp (walkTable_ok_table hok rfl)).2
    refine ⟨hvalid, hattr, fun v hv hon => ?_⟩
    rw [← h v hv hon.up, walkTable_next (hread v hon) hvalid htable hsize, hattr]
    rfl
  · rw [htable] at hblock
    cases hblock

section Base

variable {entries : Fin PAGE_TABLE_ENTRIES → Word}

/-- A table that the walks go through as intended has a valid entry on the way. -/
theorem Intends.goesOn (h : Intends L u (n + 1) base)
    (hread : ∀ i : Fin PAGE_TABLE_ENTRIES, L.read u (fun _ => 0) (base + 8 * i) = entries i) :
    isValid (entries (ptIndex VIRTUAL_ADDRESS (shift (n + 1)))) = true :=
  (walkTable_ok h.kernel_ok (read_index hread _ _)).1

/-- An index that is not that of the kernel leads off the way. -/
theorem Intends.l1_off (h : Intends L u 2 base)
    (hread : ∀ i : Fin PAGE_TABLE_ENTRIES, L.read u (fun _ => 0) (base + 8 * i) = entries i)
    (hi : i ≠ L1_INDEX VIRTUAL_ADDRESS) : isValid (entries i) = false := by
  obtain ⟨v, hv, h0, h1, -⟩ := exists_address (L0_INDEX VIRTUAL_ADDRESS) i i i
  have hoff : ¬ OnTheWay 1 v := fun hon => hi (h1.symm.trans (hon.l1 (by decide)))
  have hentry := h.entry_off (by decide) hv ⟨fun _ => h0, by omega, by omega⟩ hoff (read_index hread 2 v)
  rw [show ptIndex v (shift 2) = i from h1] at hentry
  exact hentry.resolve_right fun hlevel => absurd hlevel.1 (by decide)

theorem Intends.l2_off (h : Intends L u 1 base)
    (hread : ∀ i : Fin PAGE_TABLE_ENTRIES, L.read u (fun _ => 0) (base + 8 * i) = entries i)
    (hi : i ≠ L2_INDEX VIRTUAL_ADDRESS) : isValid (entries i) = false := by
  obtain ⟨v, hv, h0, h1, h2, -⟩ := exists_address (L0_INDEX VIRTUAL_ADDRESS) (L1_INDEX VIRTUAL_ADDRESS) i i
  have hoff : ¬ OnTheWay 0 v := fun hon => hi (h2.symm.trans (hon.l2 (by decide)))
  have hentry := h.entry_off (by decide) hv ⟨fun _ => h0, fun _ => h1, by omega⟩ hoff (read_index hread 1 v)
  rw [show ptIndex v (shift 1) = i from h2] at hentry
  exact hentry.resolve_right fun hlevel => absurd hlevel.1 (by decide)

end Base

/-- At level 0 a block faults like an invalid entry. -/
theorem Intends.l0_off (h : Intends L u 3 L.l0_table.toNat) (hi : i ≠ L0_INDEX VIRTUAL_ADDRESS) :
    isValid (u.l0 i) = false ∨ isTable (u.l0 i) = false := by
  obtain ⟨v, hv, h0, -⟩ := exists_address i i i i
  have hoff : ¬ OnTheWay 2 v := fun hon => hi (h0.symm.trans (hon.l0 (by decide)))
  have hentry := h.entry_off (by decide) hv ⟨by omega, by omega, by omega⟩ hoff (read_index read_l0 3 v)
  rw [show ptIndex v (shift 3) = i from h0] at hentry
  exact hentry.imp_right And.right

/-! Each table has an entry that no other table may have in its place. -/

theorem isValid_l3 (hpages : HasPages u) (s : Fin PAGE_TABLE_ENTRIES) : isValid (u.l3 s) = true := by
  have hnormal : NORMAL_MEMORY.getLsbD 0 = true := by decide
  rw [hpages, isValid, make_page_desc, BitVec.getLsbD_or, hnormal, Bool.or_true]

/-- Entry 0 is off the way, but valid in every table except `l1_table`. -/
theorem Intends.base_l1 (h : Intends L u 2 base) (hal : base % 4096 = 0) (hlive : Live u VIRTUAL_ADDRESS)
    (hpages : HasPages u) : base = L.l1_table.toNat := by
  have hne : L0_INDEX VIRTUAL_ADDRESS ≠ L1_INDEX VIRTUAL_ADDRESS := by decide
  rcases read_cases L u (fun _ => 0) hal with rfl | rfl | rfl | rfl | hram
  · have hinvalid := h.l1_off read_l0 hne
    rw [hlive.l0] at hinvalid
    cases hinvalid
  · rfl
  · have hinvalid := h.l1_off read_l2 hne
    rw [show isValid (u.l2 (L0_INDEX VIRTUAL_ADDRESS)) = true from hlive.l2] at hinvalid
    cases hinvalid
  · have hinvalid := h.l1_off read_l3 hne
    rw [isValid_l3 hpages] at hinvalid
    cases hinvalid
  · have hvalid := h.goesOn hram
    cases hvalid

/-- Entry 0 is on the way. In `l1_table` it is invalid, and that of `l0_table` leads there. -/
theorem Intends.base_l2 (h : Intends L u 1 base) (hal : base % 4096 = 0) (hpages : HasPages u)
    (hl0 : Leads L.l1_table (u.l0 (L0_INDEX VIRTUAL_ADDRESS))) (hl1 : isValid (u.l1 (L0_INDEX VIRTUAL_ADDRESS)) = false) :
    base = L.l2_table.toNat := by
  rcases read_cases L u (fun _ => 0) hal with rfl | rfl | rfl | rfl | hram
  · obtain ⟨-, ⟨-, -, hok⟩ | ⟨hblock, -, -⟩⟩ := walkTable_ok h.kernel_ok (read_index read_l0 1 VIRTUAL_ADDRESS)
    · rw [show nextTable (u.l0 (ptIndex VIRTUAL_ADDRESS (shift 1))) = L.l1_table.toNat from hl0.next] at hok
      have hvalid := (walkTable_ok_page hok (read_index read_l1 0 VIRTUAL_ADDRESS)).1
      rw [show isValid (u.l1 (ptIndex VIRTUAL_ADDRESS (shift 0))) = false from hl1] at hvalid
      cases hvalid
    · rw [show isTable (u.l0 (ptIndex VIRTUAL_ADDRESS (shift 1))) = true from hl0.isTable] at hblock
      cases hblock
  · have hvalid := h.goesOn read_l1
    rw [show isValid (u.l1 (ptIndex VIRTUAL_ADDRESS (shift 1))) = false from hl1] at hvalid
    cases hvalid
  · rfl
  · have hinvalid := h.l2_off read_l3 (i := L1_INDEX VIRTUAL_ADDRESS) (by decide)
    rw [isValid_l3 hpages] at hinvalid
    cases hinvalid
  · have hvalid := h.goesOn hram
    cases hvalid

/-- All entries are on the way. -/
theorem Intends.base_l3 (h : Intends L u 0 base) (hal : base % 4096 = 0)
    (hl0 : isValid (u.l0 (L1_INDEX VIRTUAL_ADDRESS)) = false ∨ isTable (u.l0 (L1_INDEX VIRTUAL_ADDRESS)) = false)
    (hl1 : isValid (u.l1 (L0_INDEX VIRTUAL_ADDRESS)) = false) (hl2 : isValid (u.l2 (L1_INDEX VIRTUAL_ADDRESS)) = false) :
    base = L.l3_table.toNat := by
  have hpage : ∀ (entries : Fin PAGE_TABLE_ENTRIES → Word) (l : Fin PAGE_TABLE_ENTRIES),
      (∀ i : Fin PAGE_TABLE_ENTRIES, L.read u (fun _ => 0) (base + 8 * i) = entries i) →
      isValid (entries l) = true ∧ isTable (entries l) = true := by
    intro entries l hread
    obtain ⟨v, hv, h0, h1, h2, h3⟩ :=
      exists_address (L0_INDEX VIRTUAL_ADDRESS) (L1_INDEX VIRTUAL_ADDRESS) (L2_INDEX VIRTUAL_ADDRESS) l
    have hon : OnTheWay 0 v := ⟨fun _ => h0, fun _ => h1, fun _ => h2⟩
    have hok := (h v hv hon).trans (intended_on hon)
    have hentry := walkTable_ok_page hok (read_index hread 0 v)
    rwa [show ptIndex v (shift 0) = l from h3] at hentry
  rcases read_cases L u (fun _ => 0) hal with rfl | rfl | rfl | rfl | hram
  · obtain ⟨hvalid, htable⟩ := hpage _ (L1_INDEX VIRTUAL_ADDRESS) read_l0
    simp [hvalid, htable] at hl0
  · obtain ⟨hvalid, -⟩ := hpage _ (L0_INDEX VIRTUAL_ADDRESS) read_l1
    simp [hvalid] at hl1
  · obtain ⟨hvalid, -⟩ := hpage _ (L1_INDEX VIRTUAL_ADDRESS) read_l2
    simp [hvalid] at hl2
  · rfl
  · obtain ⟨hvalid, -⟩ := hpage _ (L0_INDEX VIRTUAL_ADDRESS) hram
    cases hvalid

/-- The block of 1 GiB would not leave anything to level 2. -/
theorem Intends.l1_isTable (h : Intends L u 2 L.l1_table.toNat) : isTable (u.l1 (L1_INDEX VIRTUAL_ADDRESS)) = true := by
  by_contra hblock
  rw [Bool.not_eq_true] at hblock
  have hvalid := h.goesOn read_l1
  obtain ⟨v, hv, h0, h1, h2, -⟩ := exists_address (L0_INDEX VIRTUAL_ADDRESS) (L1_INDEX VIRTUAL_ADDRESS)
    (L1_INDEX VIRTUAL_ADDRESS) (L1_INDEX VIRTUAL_ADDRESS)
  have hoff : ¬ OnTheWay 0 v := by
    intro hon
    have hzero := h2.symm.trans (hon.l2 (by decide))
    revert hzero
    decide
  have hread : L.read u (fun _ => 0) (L.l1_table.toNat + 8 * index 2 v) = u.l1 (L1_INDEX VIRTUAL_ADDRESS) :=
    (read_index read_l1 2 v).trans (congrArg u.l1 h1)
  have hfault := intended_off (by decide) ⟨fun _ => h0, fun _ => h1, by omega⟩ hoff
  rw [← h v hv ⟨fun _ => h0, by omega, by omega⟩, walkTable_block hread hvalid hblock (by decide)] at hfault
  exact leaf_ne_translation hfault

theorem KernelBlock.of_leaf (hvalid : isValid d = true) (hblock : isTable d = false)
    (h : Translation.leaf L.regime 1 d VIRTUAL_ADDRESS 0 = .ok ⟨VIRTUAL_ADDRESS.toNat, normalMemory⟩) : KernelBlock d := by
  obtain ⟨-, -, ho⟩ := leaf_eq_ok.mp h
  rw [Output.mk.injEq, normalMemory, Attributes.mk.injEq] at ho
  obtain ⟨haddress, hlower, hupper, -⟩ := ho
  have hoffset : VIRTUAL_ADDRESS.toNat % 2 ^ shift 1 = 0 := by decide
  rw [hoffset, Nat.add_zero] at haddress
  exact ⟨hvalid, hblock, haddress.symm, hlower.symm, hupper.symm⟩

/-- Once the entries on the way are valid and the pages of the kernel in place, the translation is the
intended one exactly if there is nothing else. -/
theorem walk_intended_iff (hlive : Live u VIRTUAL_ADDRESS) (hpages : HasPages u) :
    (∀ ram v, v.toNat < 2 ^ 48 → L.walk u ram v = intended v) ↔ OnlyKernel L u := by
  constructor
  · intro hwalk
    have h3 : Intends L u 3 L.l0_table.toNat := by
      intro v hv _
      rw [← walk_start hv]
      exact hwalk _ v hv
    -- level 0
    have hrest0 := fun i (hi : i ≠ L0_INDEX VIRTUAL_ADDRESS) => h3.l0_off hi
    have htable0 : isTable (u.l0 (L0_INDEX VIRTUAL_ADDRESS)) = true := by
      obtain ⟨-, ⟨htable, -⟩ | ⟨-, hlevel, -⟩⟩ := walkTable_ok h3.kernel_ok (read_index read_l0 3 VIRTUAL_ADDRESS)
      · exact htable
      · exact absurd rfl hlevel
    obtain ⟨hvalid0, hattr0, h2⟩ := h3.next
      (fun v hon => (read_index read_l0 3 v).trans (congrArg u.l0 (hon.l0 (by decide)))) htable0
    have hbase1 := h2.base_l1 (nextTable_aligned _) hlive hpages
    rw [hbase1] at h2
    -- level 1
    have hrest1 := fun i (hi : i ≠ L1_INDEX VIRTUAL_ADDRESS) => h2.l1_off read_l1 hi
    have htable1 := h2.l1_isTable
    obtain ⟨hvalid1, hattr1, h1⟩ := h2.next
      (fun v hon => (read_index read_l1 2 v).trans (congrArg u.l1 (hon.l1 (by decide)))) htable1
    have hbase2 := h1.base_l2 (nextTable_aligned _) hpages ⟨hvalid0, htable0, hbase1, hattr0⟩ (hrest1 _ (by decide))
    rw [hbase2] at h1
    -- level 2
    have hrest2 := fun i (hi : i ≠ L2_INDEX VIRTUAL_ADDRESS) => h1.l2_off read_l2 hi
    refine ⟨hrest0, ⟨hvalid0, htable0, hbase1, hattr0⟩, hrest1, ⟨hvalid1, htable1, hbase2, hattr1⟩, hrest2, ?_⟩
    obtain ⟨hvalid2, ⟨htable2, -⟩ | ⟨hblock, -, hleaf⟩⟩ := walkTable_ok h1.kernel_ok (read_index read_l2 1 VIRTUAL_ADDRESS)
    · obtain ⟨-, hattr2, h0⟩ := h1.next
        (fun v hon => (read_index read_l2 1 v).trans (congrArg u.l2 (hon.l2 (by decide)))) htable2
      have hbase3 := h0.base_l3 (nextTable_aligned _) (hrest0 _ (by decide)) (hrest1 _ (by decide)) (hrest2 _ (by decide))
      exact .inl ⟨hvalid2, htable2, hbase3, hattr2⟩
    · exact .inr (.of_leaf hvalid2 hblock hleaf)
  · intro h ram v hv
    exact h.walk hpages hv

/-! ### The tables after boot -/

/-- The contents whose valid entries are all in their places. `l3_table` may hold anything. -/
structure Harmless (L : Layout) (t : Tables) : Prop where
  l0_rest : ∀ i, i ≠ L0_INDEX VIRTUAL_ADDRESS → isValid (t.l0 i) = false ∨ isTable (t.l0 i) = false
  l0 : isValid (t.l0 (L0_INDEX VIRTUAL_ADDRESS)) = false ∨ Leads L.l1_table (t.l0 (L0_INDEX VIRTUAL_ADDRESS))
  l1_rest : ∀ i, i ≠ L1_INDEX VIRTUAL_ADDRESS → isValid (t.l1 i) = false
  l1 : isValid (t.l1 (L1_INDEX VIRTUAL_ADDRESS)) = false ∨ Leads L.l2_table (t.l1 (L1_INDEX VIRTUAL_ADDRESS))
  l2_rest : ∀ i, i ≠ L2_INDEX VIRTUAL_ADDRESS → isValid (t.l2 i) = false
  l2 : isValid (t.l2 (L2_INDEX VIRTUAL_ADDRESS)) = false ∨ Leads L.l3_table (t.l2 (L2_INDEX VIRTUAL_ADDRESS)) ∨
    KernelBlock (t.l2 (L2_INDEX VIRTUAL_ADDRESS))

/-- The hardware translates every 48-bit address alike after a boot with the one and with the other content
of the tables, whatever the rest of RAM holds. -/
def SameTranslation (L : Layout) (t₁ t₂ : Tables) : Prop :=
  ∃ u₁ u₂, build_translation_tables L t₁ = some u₁ ∧ build_translation_tables L t₂ = some u₂ ∧
    ∀ (ram : Nat → Word) (v : Word), v.toNat < 2 ^ 48 → L.walk u₁ ram v = L.walk u₂ ram v

/-- What `build_translation_tables` makes of the content. -/
def built (L : Layout) (t : Tables) : Tables := mapPages L t VIRTUAL_ADDRESS PHYSICAL_ADDRESS NORMAL_MEMORY kernel.pages

section Fill

variable (entries : Fin PAGE_TABLE_ENTRIES → Word) {idx : Nat → Fin PAGE_TABLE_ENTRIES} {desc : Word}

/-- If all pages have one index, the first of them decides. -/
theorem fill_const (hdesc : isValid desc = true) (hidx : ∀ k < n + 1, idx k = i) :
    fill entries idx desc (n + 1) = setIfInvalid entries i desc := by
  induction n with
  | zero => rw [fill, fill, hidx 0 (by decide)]
  | succ n ih =>
    rw [fill, ih fun k hk => hidx k (by omega), hidx (n + 1) (by omega)]
    exact setIfInvalid_stable ((setIfInvalid_valid hdesc).mpr (.inr rfl))

theorem setIfInvalid_of_ne (h : j ≠ i) : setIfInvalid entries i desc j = entries j := by
  unfold setIfInvalid
  split_ifs
  · exact Function.update_of_ne h _ _
  · rfl

/-- The entry has a property of the descriptor exactly if it was invalid or had it before. -/
theorem setIfInvalid_self_iff (i : Fin PAGE_TABLE_ENTRIES) {P : Word → Prop} (hdesc : P desc) :
    P (setIfInvalid entries i desc i) ↔ isValid (entries i) = false ∨ P (entries i) := by
  unfold setIfInvalid
  split_ifs with hempty
  · rw [and_valid_eq_zero] at hempty
    rw [Function.update_self]
    exact iff_of_true hdesc (.inl hempty)
  · rw [and_valid_eq_zero] at hempty
    exact (or_iff_right hempty).symm

end Fill

theorem built_upper (L : Layout) (t : Tables) :
    (built L t).l0 = setIfInvalid t.l0 (L0_INDEX VIRTUAL_ADDRESS) (make_table_desc L.l1_table) ∧
    (built L t).l1 = setIfInvalid t.l1 (L1_INDEX VIRTUAL_ADDRESS) (make_table_desc L.l2_table) ∧
    (built L t).l2 = setIfInvalid t.l2 (L2_INDEX VIRTUAL_ADDRESS) (make_table_desc L.l3_table) := by
  obtain ⟨h0, h1, h2⟩ := mapPages_upper L t VIRTUAL_ADDRESS PHYSICAL_ADDRESS NORMAL_MEMORY kernel.pages
  have hblock : ∀ k < kernel.pages, (pageAt VIRTUAL_ADDRESS k).toNat / 2 ^ 21 = 512 := fun k hk =>
    (kernel_within.page kernel_valid hk).2
  refine ⟨h0.trans ?_, h1.trans ?_, h2.trans ?_⟩
  · exact fill_const _ (make_table_desc_valid _) fun k hk => Fin.ext (block_indices (hblock k hk)).1
  · exact fill_const _ (make_table_desc_valid _) fun k hk => Fin.ext (block_indices (hblock k hk)).2.1
  · exact fill_const _ (make_table_desc_valid _) fun k hk => Fin.ext (block_indices (hblock k hk)).2.2

theorem built_live (L : Layout) (t : Tables) : Live (built L t) VIRTUAL_ADDRESS := by
  have hpos : 0 < kernel.pages := by decide
  have hfirst : pageAt VIRTUAL_ADDRESS 0 = VIRTUAL_ADDRESS := pageAt_zero _
  rw [built, live_mapPages]
  exact ⟨.inr ⟨0, hpos, congrArg L0_INDEX hfirst⟩, .inr ⟨0, hpos, congrArg L1_INDEX hfirst⟩,
    .inr ⟨0, hpos, congrArg L2_INDEX hfirst⟩⟩

/-- Each page of the kernel has an entry of its own. -/
theorem built_pages (L : Layout) (t : Tables) : HasPages (built L t) := by
  have hslot : ∀ k < 512, (L3_INDEX (pageAt VIRTUAL_ADDRESS k)).val = k := by
    intro k hk
    have hbase : VIRTUAL_ADDRESS.toNat = 0x40000000 := rfl
    have hpage := pageAt_toNat (a := VIRTUAL_ADDRESS) (k := k) (by omega)
    rw [L3_INDEX, ptIndex_val, hpage]
    omega
  intro s
  obtain ⟨j, hlast, -, hj, hjs⟩ := lastPage_exists (n := kernel.pages) s.isLt (Fin.ext (hslot s s.isLt))
  have hjs' : j = s := by rw [← hslot j hj, hjs]
  rw [built, l3_mapPages, slotAfter, hlast, hjs']

theorem harmless_iff : OnlyKernel L (built L t) ↔ Harmless L t := by
  obtain ⟨h0, h1, h2⟩ := built_upper L t
  have hleads : ∀ a ∈ [L.l0_table, L.l1_table, L.l2_table, L.l3_table], Leads a (make_table_desc a) := fun a ha =>
    .make_table_desc (L.aligned a ha) (L.low a ha)
  have hslot0 := setIfInvalid_self_iff t.l0 (L0_INDEX VIRTUAL_ADDRESS) (hleads L.l1_table (by simp))
  have hslot1 := setIfInvalid_self_iff t.l1 (L1_INDEX VIRTUAL_ADDRESS) (hleads L.l2_table (by simp))
  have hslot2 := setIfInvalid_self_iff t.l2 (L2_INDEX VIRTUAL_ADDRESS) (P := fun d => Leads L.l3_table d ∨ KernelBlock d)
    (.inl (hleads L.l3_table (by simp)))
  constructor
  · intro h
    refine ⟨fun i hi => ?_, hslot0.mp (h0 ▸ h.l0), fun i hi => ?_, hslot1.mp (h1 ▸ h.l1), fun i hi => ?_,
      hslot2.mp (h2 ▸ h.l2)⟩
    · have hrest := h.l0_rest i hi
      rwa [h0, setIfInvalid_of_ne _ hi] at hrest
    · have hrest := h.l1_rest i hi
      rwa [h1, setIfInvalid_of_ne _ hi] at hrest
    · have hrest := h.l2_rest i hi
      rwa [h2, setIfInvalid_of_ne _ hi] at hrest
  · intro h
    refine ⟨fun i hi => ?_, ?_, fun i hi => ?_, ?_, fun i hi => ?_, ?_⟩
    · rw [h0, setIfInvalid_of_ne _ hi]
      exact h.l0_rest i hi
    · rw [h0]
      exact hslot0.mpr h.l0
    · rw [h1, setIfInvalid_of_ne _ hi]
      exact h.l1_rest i hi
    · rw [h1]
      exact hslot1.mpr h.l1
    · rw [h2, setIfInvalid_of_ne _ hi]
      exact h.l2_rest i hi
    · rw [h2]
      exact hslot2.mpr h.l2

theorem built_intended_iff :
    (∀ ram v, v.toNat < 2 ^ 48 → L.walk (built L t) ram v = intended v) ↔ Harmless L t :=
  (walk_intended_iff (built_live L t) (built_pages L t)).trans harmless_iff

theorem sameTranslation_iff_built {t₁ t₂ : Tables} : SameTranslation L t₁ t₂ ↔
    ∀ ram v, v.toNat < 2 ^ 48 → L.walk (built L t₁) ram v = L.walk (built L t₂) ram v := by
  constructor
  · rintro ⟨u₁, u₂, hu₁, hu₂, hsame⟩
    rw [build_translation_tables_eq, Option.some.injEq] at hu₁ hu₂
    subst hu₁ hu₂
    exact hsame
  · intro hsame
    exact ⟨_, _, build_translation_tables_eq L t₁, build_translation_tables_eq L t₂, hsame⟩

theorem SameTranslation.symm {t₁ t₂ : Tables} (h : SameTranslation L t₁ t₂) : SameTranslation L t₂ t₁ := by
  rw [sameTranslation_iff_built] at h ⊢
  exact fun ram v hv => (h ram v hv).symm

theorem Harmless.sameTranslation_iff {t₁ t₂ : Tables} (h : Harmless L t₁) : SameTranslation L t₁ t₂ ↔ Harmless L t₂ := by
  have hintended := built_intended_iff.mpr h
  rw [sameTranslation_iff_built, ← built_intended_iff]
  constructor
  · intro hsame ram v hv
    rw [← hsame ram v hv]
    exact hintended ram v hv
  · intro hintended' ram v hv
    rw [hintended ram v hv, hintended' ram v hv]

/-- A boot over a harmless content translates like one over another content exactly if that one is harmless too. -/
theorem boot_translation_iff (L : Layout) (t₁ t₂ : Tables) :
    (Harmless L t₁ → (SameTranslation L t₁ t₂ ↔ Harmless L t₂)) ∧
      (Harmless L t₂ → (SameTranslation L t₁ t₂ ↔ Harmless L t₁)) := by
  refine ⟨Harmless.sameTranslation_iff, fun h => ?_⟩
  rw [← h.sameTranslation_iff]
  exact ⟨SameTranslation.symm, SameTranslation.symm⟩

theorem Harmless.of_invalid (h0 : ∀ i, isValid (t.l0 i) = false) (h1 : ∀ i, isValid (t.l1 i) = false)
    (h2 : ∀ i, isValid (t.l2 i) = false) : Harmless L t :=
  ⟨fun i _ => .inl (h0 i), .inl (h0 _), fun i _ => h1 i, .inl (h1 _), fun i _ => h2 i, .inl (h2 _)⟩

theorem zeroed_harmless : Harmless L zeroed := .of_invalid (fun _ => isValid_zero) (fun _ => isValid_zero) fun _ => isValid_zero

/-- Even words in the upper tables, and all ones in `l3_table`. -/
def evenWords : Tables := ⟨fun _ => 2, fun _ => 0x80000400, fun _ => 0x8000000000000000, fun _ => 0xffffffffffffffff⟩

theorem evenWords_harmless : Harmless L evenWords := by
  have h0 : isValid 2 = false := by decide
  have h1 : isValid 0x80000400 = false := by decide
  have h2 : isValid 0x8000000000000000 = false := by decide
  exact .of_invalid (fun _ => h0) (fun _ => h1) fun _ => h2

theorem boot_translation_evenWords :
    (SameTranslation someLayout zeroed evenWords ↔ Harmless someLayout evenWords) ∧
      (SameTranslation someLayout zeroed evenWords ↔ Harmless someLayout zeroed) :=
  ⟨(boot_translation_iff someLayout zeroed evenWords).1 zeroed_harmless,
    (boot_translation_iff someLayout zeroed evenWords).2 evenWords_harmless⟩

/-- One word of RAM that reads as a block descriptor for the GiB at `0x80000000`. -/
def oneBlock : Tables := { zeroed with l1 := Function.update zeroed.l1 (L1_INDEX 0x80000000) 0x80000401 }

theorem oneBlock_not_same : ¬ SameTranslation someLayout zeroed oneBlock := by
  intro hsame
  have hrest := (zeroed_harmless.sameTranslation_iff.mp hsame).l1_rest (L1_INDEX 0x80000000) (by decide)
  have hvalid : isValid (oneBlock.l1 (L1_INDEX 0x80000000)) = true := by decide
  rw [hvalid] at hrest
  cases hrest

end Armv8Driver.KernelMmu
