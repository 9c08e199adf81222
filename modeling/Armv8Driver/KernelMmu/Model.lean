import Armv8Driver.Arm.Translation
import Armv8Driver.Transition.System
import Mathlib.Logic.Function.Basic

/-!
# `kernel_mmu.c`

The four translation tables, the functions that fill them, and the walk that the MMU does through them
once `mmu_init` has installed `l0_table`. There is one table for each level, whatever the address. The
files of `03_MMU` and `04_GIC_Interrupt` are the same.
-/

namespace Armv8Driver.KernelMmu

open Arm Arm.Translation Transition

def PAGE_SIZE : Word := 4096
def PAGE_TABLE_ENTRIES : Nat := 512

def VIRTUAL_ADDRESS : Word := 0x40000000
def PHYSICAL_ADDRESS : Word := VIRTUAL_ADDRESS
def KERNEL_SIZE : Word := 0x00200000

def PTE_VALID : Word := 1 <<< 0
def PTE_TABLE : Word := 1 <<< 1
def PTE_PAGE : Word := 1 <<< 1
def PTE_SH_INNER : Word := 3 <<< 8
def PTE_AF : Word := 1 <<< 10
def PTE_ATTRINDX (x : Word) : Word := x <<< 2

def NORMAL_MEMORY : Word := PTE_VALID ||| PTE_PAGE ||| PTE_AF ||| PTE_SH_INNER ||| PTE_ATTRINDX 0

def TCR_T0SZ : Word := 16
def TCR_IRGN0_WBWA : Word := 1 <<< 8
def TCR_ORGN0_WBWA : Word := 1 <<< 10
def TCR_SH0_INNER : Word := 3 <<< 12
def TCR_TG0_4K : Word := 0 <<< 14
def TCR_IPS_40BIT : Word := 2 <<< 32

def TCR_VALUE : Word :=
  TCR_T0SZ ||| TCR_IRGN0_WBWA ||| TCR_ORGN0_WBWA ||| TCR_SH0_INNER ||| TCR_TG0_4K ||| TCR_IPS_40BIT

def PT_INDEX_MASK : Word := 0x1FF

/-- The shape of the four index macros. -/
def ptIndex (va : Word) (shift : Nat) : Fin PAGE_TABLE_ENTRIES :=
  ⟨((va >>> shift) &&& PT_INDEX_MASK).toNat, by
    rw [BitVec.toNat_and]
    exact Nat.lt_of_le_of_lt Nat.and_le_right (by decide)⟩

def L0_INDEX (va : Word) : Fin PAGE_TABLE_ENTRIES := ptIndex va 39
def L1_INDEX (va : Word) : Fin PAGE_TABLE_ENTRIES := ptIndex va 30
def L2_INDEX (va : Word) : Fin PAGE_TABLE_ENTRIES := ptIndex va 21
def L3_INDEX (va : Word) : Fin PAGE_TABLE_ENTRIES := ptIndex va 12

/-- Where the linker has put the four tables. -/
structure Layout where
  l0_table : Word
  l1_table : Word
  l2_table : Word
  l3_table : Word
  aligned : ∀ a ∈ [l0_table, l1_table, l2_table, l3_table], a.toNat % 4096 = 0
  low : ∀ a ∈ [l0_table, l1_table, l2_table, l3_table], a.toNat < 2 ^ 40
  distinct : [l0_table, l1_table, l2_table, l3_table].Nodup

/-- What the four tables hold. -/
@[ext] structure Tables where
  l0 : Fin PAGE_TABLE_ENTRIES → Word
  l1 : Fin PAGE_TABLE_ENTRIES → Word
  l2 : Fin PAGE_TABLE_ENTRIES → Word
  l3 : Fin PAGE_TABLE_ENTRIES → Word

def make_table_desc (table : Word) : Word := table ||| PTE_VALID ||| PTE_TABLE

def make_page_desc (pa attr : Word) : Word := pa ||| attr

/-- `if (!(table[i] & PTE_VALID)) table[i] = desc`. -/
def setIfInvalid (table : Fin PAGE_TABLE_ENTRIES → Word) (i : Fin PAGE_TABLE_ENTRIES) (desc : Word) :
    Fin PAGE_TABLE_ENTRIES → Word :=
  if table i &&& PTE_VALID = 0 then Function.update table i desc else table

def ensure_page_tables (L : Layout) (t : Tables) (va : Word) : Tables :=
  { t with
    l0 := setIfInvalid t.l0 (L0_INDEX va) (make_table_desc L.l1_table)
    l1 := setIfInvalid t.l1 (L1_INDEX va) (make_table_desc L.l2_table)
    l2 := setIfInvalid t.l2 (L2_INDEX va) (make_table_desc L.l3_table) }

def install_pte (t : Tables) (va pa attr : Word) : Tables :=
  { t with l3 := Function.update t.l3 (L3_INDEX va) (make_page_desc pa attr) }

def map_page (L : Layout) (t : Tables) (va pa attr : Word) : Tables :=
  install_pte (ensure_page_tables L t va) va pa attr

/-- The loop of `map_region`, for at most `fuel` iterations. A size that is no multiple of `PAGE_SIZE`
steps over 0, so the loop has no bound of its own. -/
def map_region (L : Layout) : Nat → Tables → Word → Word → Word → Word → Option Tables
  | fuel, t, va_start, pa_start, size, attr =>
    if size > 0 then
      match fuel with
      | 0 => none
      | fuel + 1 =>
        map_region L fuel (map_page L t va_start pa_start attr) (va_start + PAGE_SIZE) (pa_start + PAGE_SIZE)
          (size - PAGE_SIZE) attr
    else some t

/-- More iterations than any multiple of `PAGE_SIZE` needs. -/
def FUEL : Nat := 2 ^ 52

/-- The tables are in `.bss`. -/
def zeroed : Tables := ⟨fun _ => 0, fun _ => 0, fun _ => 0, fun _ => 0⟩

def build_translation_tables (L : Layout) (t : Tables) : Option Tables :=
  map_region L FUEL t VIRTUAL_ADDRESS PHYSICAL_ADDRESS KERNEL_SIZE NORMAL_MEMORY

/-! ### The walk -/

/-- The entry of a table that an address in it falls into. -/
def entry (a : Nat) : Fin PAGE_TABLE_ENTRIES := ⟨a / 8 % 512, Nat.mod_lt _ (by decide)⟩

/-- Memory with the tables in it; `ram` is the rest. -/
def Layout.read (L : Layout) (t : Tables) (ram : Nat → Word) (a : Nat) : Word :=
  if a / 4096 = L.l0_table.toNat / 4096 then t.l0 (entry a)
  else if a / 4096 = L.l1_table.toNat / 4096 then t.l1 (entry a)
  else if a / 4096 = L.l2_table.toNat / 4096 then t.l2 (entry a)
  else if a / 4096 = L.l3_table.toNat / 4096 then t.l3 (entry a)
  else ram a

/-- What `mmu_init` selects. -/
def Layout.regime (L : Layout) : Regime := .ofRegisters L.l0_table TCR_VALUE

/-- The walk of the hardware after `mmu_init`. -/
def Layout.walk (L : Layout) (t : Tables) (ram : Nat → Word) (v : Word) : Except Fault Output :=
  Arm.Translation.walk L.regime (L.read t ram) v

/-! ### Calls of `map_region` -/

structure Call where
  va : Word
  pa : Word
  size : Word
  attr : Word
  deriving DecidableEq

/-- Whole pages, in the 48-bit space. -/
structure Call.Valid (c : Call) : Prop where
  va_aligned : c.va.toNat % 4096 = 0
  pa_aligned : c.pa.toNat % 4096 = 0
  size_aligned : c.size.toNat % 4096 = 0
  inSpace : c.va.toNat + c.size.toNat ≤ 2 ^ 48

/-- The states of the tables under calls of `map_region`. -/
def mappings (L : Layout) : System Tables Call where
  init t := t = zeroed
  step t c := map_region L FUEL t c.va c.pa c.size c.attr

end Armv8Driver.KernelMmu
