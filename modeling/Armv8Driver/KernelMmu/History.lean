import Armv8Driver.KernelMmu.Loop
import Mathlib.Data.List.Induction

/-!
# The tables after any calls of `map_page`

`map_page` asks nothing of its arguments, and the functions below it ask nothing of where the tables
are, so both are arbitrary here. What the tables hold is a function of the calls alone: an upper entry
has been set once a call had its index, and a page entry is that of the last call with its index.
-/

namespace Armv8Driver.KernelMmu

open Arm Arm.Translation

/-- Four pages for the tables, anywhere in the address space. -/
structure Placement where
  l0_table : Word
  l1_table : Word
  l2_table : Word
  l3_table : Word
  aligned : ∀ a ∈ [l0_table, l1_table, l2_table, l3_table], a.toNat % 4096 = 0
  distinct : [l0_table, l1_table, l2_table, l3_table].Nodup

def Layout.placement (L : Layout) : Placement := ⟨L.l0_table, L.l1_table, L.l2_table, L.l3_table, L.aligned, L.distinct⟩

namespace Placement

def ensure_page_tables (P : Placement) (t : Tables) (va : Word) : Tables :=
  { t with
    l0 := setIfInvalid t.l0 (L0_INDEX va) (make_table_desc P.l1_table)
    l1 := setIfInvalid t.l1 (L1_INDEX va) (make_table_desc P.l2_table)
    l2 := setIfInvalid t.l2 (L2_INDEX va) (make_table_desc P.l3_table) }

def map_page (P : Placement) (t : Tables) (va pa attr : Word) : Tables :=
  install_pte (P.ensure_page_tables t va) va pa attr

end Placement

/-- The model of `kernel_mmu.c` is this one below `2 ^ 40`. -/
theorem map_page_placement (L : Layout) (t : Tables) (va pa attr : Word) :
    map_page L t va pa attr = L.placement.map_page t va pa attr := rfl

/-- The arguments of a call of `map_page`. -/
structure PageCall where
  va : Word
  pa : Word
  attr : Word
  deriving DecidableEq

/-- The tables after the calls, oldest first. -/
def Placement.mapped (P : Placement) (calls : List PageCall) : Tables :=
  calls.foldl (fun t c => P.map_page t c.va c.pa c.attr) zeroed

/-- The last call with the L3 index. -/
def lastCall (calls : List PageCall) (k : Fin PAGE_TABLE_ENTRIES) : Option PageCall :=
  calls.reverse.find? fun c => L3_INDEX c.va = k

/-- A valid descriptor of the table at `table` and of nothing else. -/
structure TableDesc (table d : Word) : Prop where
  low : d &&& 0xFFF = PTE_VALID ||| PTE_TABLE
  address : d &&& ~~~0xFFF = table

/-- What the tables hold after the calls. -/
structure WellMapped (P : Placement) (calls : List PageCall) (t : Tables) : Prop where
  l0 : ∀ i, t.l0 i = 0 ∨ TableDesc P.l1_table (t.l0 i)
  l1 : ∀ i, t.l1 i = 0 ∨ TableDesc P.l2_table (t.l1 i)
  l2 : ∀ i, t.l2 i = 0 ∨ TableDesc P.l3_table (t.l2 i)
  l3 : ∀ k, t.l3 k = (lastCall calls k).elim 0 fun c => c.pa ||| c.attr
  live : ∀ c ∈ calls, Live t c.va

/-- The entries of the upper tables that are set have not changed. -/
structure UpperKept (t t' : Tables) : Prop where
  l0 : ∀ i, t.l0 i ≠ 0 → t'.l0 i = t.l0 i
  l1 : ∀ i, t.l1 i ≠ 0 → t'.l1 i = t.l1 i
  l2 : ∀ i, t.l2 i ≠ 0 → t'.l2 i = t.l2 i

variable {P : Placement} {calls more : List PageCall} {c : PageCall} {idx : Word → Fin PAGE_TABLE_ENTRIES} {desc table : Word}
  {i k : Fin PAGE_TABLE_ENTRIES}

/-! ### The tables as functions of the calls -/

/-- An upper table: the entries whose index a call has had. -/
def upper (idx : Word → Fin PAGE_TABLE_ENTRIES) (desc : Word) (calls : List PageCall) (i : Fin PAGE_TABLE_ENTRIES) : Word :=
  if ∃ c ∈ calls, idx c.va = i then desc else 0

/-- The page table. -/
def slots (calls : List PageCall) (k : Fin PAGE_TABLE_ENTRIES) : Word :=
  (lastCall calls k).elim 0 fun c => c.pa ||| c.attr

theorem upper_append : upper idx desc (calls ++ [c]) i = if idx c.va = i then desc else upper idx desc calls i := by
  have hseen : (∃ b ∈ calls ++ [c], idx b.va = i) ↔ (∃ b ∈ calls, idx b.va = i) ∨ idx c.va = i := by
    simp only [List.mem_append, List.mem_singleton, or_and_right, exists_or, exists_eq_left]
  simp only [upper, hseen]
  by_cases hi : idx c.va = i
  · rw [if_pos (.inr hi), if_pos hi]
  · simp only [hi, or_false, if_false]

theorem setIfInvalid_upper (hdesc : isValid desc = true) :
    setIfInvalid (upper idx desc calls) (idx c.va) desc = upper idx desc (calls ++ [c]) := by
  by_cases hset : ∃ b ∈ calls, idx b.va = idx c.va
  · -- The entry is set already, so the call adds no index.
    have hentry : upper idx desc calls (idx c.va) = desc := if_pos hset
    have hvalid : isValid (upper idx desc calls (idx c.va)) = true := by
      rw [hentry]
      exact hdesc
    rw [setIfInvalid_stable hvalid]
    funext i
    rw [upper_append]
    split_ifs with hi
    · rw [← hi, hentry]
    · rfl
  · have hentry : upper idx desc calls (idx c.va) = 0 := if_neg hset
    have hempty : upper idx desc calls (idx c.va) &&& PTE_VALID = 0 := by
      rw [hentry]
      rfl
    rw [setIfInvalid, if_pos hempty]
    funext i
    rw [upper_append]
    split_ifs with hi
    · rw [← hi, Function.update_self]
    · rw [Function.update_of_ne (Ne.symm hi)]

theorem lastCall_append : lastCall (calls ++ [c]) k = if L3_INDEX c.va = k then some c else lastCall calls k := by
  rw [lastCall, List.reverse_append, List.reverse_singleton, List.singleton_append, List.find?_cons]
  by_cases h : L3_INDEX c.va = k
  · simp [h]
  · simp [h, lastCall]

theorem update_slots :
    Function.update (slots calls) (L3_INDEX c.va) (make_page_desc c.pa c.attr) = slots (calls ++ [c]) := by
  funext k
  rw [slots, lastCall_append]
  by_cases h : L3_INDEX c.va = k
  · subst h
    rw [Function.update_self, if_pos rfl]
    rfl
  · rw [Function.update_of_ne (Ne.symm h), if_neg h]
    rfl

theorem mapped_eq (P : Placement) (calls : List PageCall) : P.mapped calls =
    ⟨upper L0_INDEX (make_table_desc P.l1_table) calls, upper L1_INDEX (make_table_desc P.l2_table) calls,
      upper L2_INDEX (make_table_desc P.l3_table) calls, slots calls⟩ := by
  induction calls using List.reverseRecOn with
  | nil => rfl
  | append_singleton calls c ih =>
    have hstep : P.mapped (calls ++ [c]) = P.map_page (P.mapped calls) c.va c.pa c.attr := by
      rw [Placement.mapped, List.foldl_append]
      rfl
    rw [hstep, ih]
    apply Tables.ext
    · exact setIfInvalid_upper (make_table_desc_valid _)
    · exact setIfInvalid_upper (make_table_desc_valid _)
    · exact setIfInvalid_upper (make_table_desc_valid _)
    · exact update_slots

/-! ### What follows -/

/-- An aligned address and the bits below it do not overlap. -/
theorem make_table_desc_tableDesc (hal : table.toNat % 4096 = 0) : TableDesc table (make_table_desc table) := by
  have hlow : table &&& 0xFFF = 0 := by
    apply BitVec.eq_of_toNat_eq
    rw [BitVec.toNat_and]
    exact (Nat.and_two_pow_sub_one_eq_mod _ 12).trans hal
  have hhigh : table &&& ~~~0xFFF = table := by
    have hsplit : table &&& 0xFFF ||| table &&& ~~~0xFFF = table := by
      rw [← BitVec.and_or_distrib_left, BitVec.or_not_self, BitVec.and_allOnes]
    rw [hlow] at hsplit
    simpa using hsplit
  have hdist : ∀ mask : Word,
      make_table_desc table &&& mask = table &&& mask ||| PTE_VALID &&& mask ||| PTE_TABLE &&& mask := by
    intro mask
    rw [make_table_desc, BitVec.and_or_distrib_right, BitVec.and_or_distrib_right]
  constructor
  · rw [hdist, hlow]
    rfl
  · have hvalid : PTE_VALID &&& ~~~0xFFF = 0#64 := by decide
    have htable : PTE_TABLE &&& ~~~0xFFF = 0#64 := by decide
    rw [hdist, hhigh, hvalid, htable, BitVec.or_zero, BitVec.or_zero]

theorem upper_tableDesc (hal : table.toNat % 4096 = 0) :
    upper idx (make_table_desc table) calls i = 0 ∨ TableDesc table (upper idx (make_table_desc table) calls i) := by
  unfold upper
  split_ifs
  · exact .inr (make_table_desc_tableDesc hal)
  · exact .inl rfl

theorem upper_kept (h : upper idx desc calls i ≠ 0) : upper idx desc (calls ++ more) i = upper idx desc calls i := by
  unfold upper at h ⊢
  split_ifs at h ⊢ with hlater hseen
  · rfl
  · exact absurd rfl h
  · obtain ⟨c, hc, hi⟩ := ‹∃ c ∈ calls, idx c.va = i›
    exact absurd ⟨c, List.mem_append_left more hc, hi⟩ hlater
  · exact absurd rfl h

theorem upper_valid (hdesc : isValid desc = true) (hc : c ∈ calls) : isValid (upper idx desc calls (idx c.va)) = true := by
  rw [upper, if_pos ⟨c, hc, rfl⟩]
  exact hdesc

/-- The tables are well formed after any calls, and further calls change no upper entry that is set. -/
theorem mapped_wellMapped (P : Placement) (calls more : List PageCall) :
    WellMapped P calls (P.mapped calls) ∧ UpperKept (P.mapped calls) (P.mapped (calls ++ more)) := by
  rw [mapped_eq, mapped_eq]
  constructor
  · refine ⟨fun i => ?_, fun i => ?_, fun i => ?_, fun k => rfl, fun c hc => ?_⟩
    · exact upper_tableDesc (P.aligned _ (by simp))
    · exact upper_tableDesc (P.aligned _ (by simp))
    · exact upper_tableDesc (P.aligned _ (by simp))
    · have hdesc := make_table_desc_valid
      exact ⟨upper_valid (hdesc _) hc, upper_valid (hdesc _) hc, upper_valid (hdesc _) hc⟩
  · exact ⟨fun i => upper_kept, fun i => upper_kept, fun i => upper_kept⟩

end Armv8Driver.KernelMmu
