import Mathlib.Algebra.Group.Nat.Defs

/-!
# The two contiguity checks of `02_Vmalloc_Basic`

Both walk a buffer page by page. `check_vmalloc_contiguity` asks for the page behind each address, and
compares its frame with the frame found before; `check_kmalloc_contiguity` compares each physical
address with the first one. What the kernel answers is a parameter.
-/

namespace Armv8Driver.VmallocBasic

/-- `unsigned long`. -/
abbrev Word := BitVec 64

def PAGE_SIZE : Word := 4096
def PAGE_SHIFT : Nat := 12

/-- A page of physical memory; its address fits into `phys_addr_t`. -/
structure Page where
  pfn : Word
  physical : pfn.toNat < 2 ^ 52

def page_to_pfn (pg : Page) : Word := pg.pfn

def PFN_PHYS (pfn : Word) : Word := pfn <<< PAGE_SHIFT

/-- `for (offset = 0; offset < size; offset += PAGE_SIZE)`, from an offset on and for at most `fuel`
iterations. -/
def forPages {σ : Type} (body : σ → Word → σ) (size : Word) : Nat → Word → σ → Option σ
  | fuel, offset, s =>
    if offset < size then
      match fuel with
      | 0 => none
      | fuel + 1 => forPages body size fuel (offset + PAGE_SIZE) (body s offset)
    else some s

/-- More iterations than any whole number of pages needs. -/
def FUEL : Nat := 2 ^ 52

/-! ### `check_vmalloc_contiguity` -/

/-- A line for a page. -/
structure PageLine where
  page_num : BitVec 32
  vaddr : Word
  pfn : Word
  phys : Word
  contig : Bool

/-- The locals that outlive an iteration, and what has been printed. -/
structure Check where
  prev_pfn : Word
  page_num : BitVec 32
  discontig_count : BitVec 32
  pr_err : List Word
  pr_info : List PageLine

def Check.start : Check := ⟨0, 0, 0, [], []⟩

def checkPage (vmalloc_to_page : Word → Option Page) (addr : Word) (s : Check) (offset : Word) : Check :=
  match vmalloc_to_page (addr + offset) with
  | none => { s with pr_err := s.pr_err ++ [offset] }
  | some pg =>
    let pfn := page_to_pfn pg
    let phys := PFN_PHYS pfn
    let contig : Bool := s.page_num = 0 ∨ pfn = s.prev_pfn + 1
    { s with
      prev_pfn := pfn
      page_num := s.page_num + 1
      discontig_count := if contig then s.discontig_count else s.discontig_count + 1
      pr_info := s.pr_info ++ [⟨s.page_num, addr + offset, pfn, phys, contig⟩] }

def check_vmalloc_contiguity (vmalloc_to_page : Word → Option Page) (vbuf size : Word) : Option Check :=
  forPages (checkPage vmalloc_to_page vbuf) size FUEL 0 .start

/-! ### `check_kmalloc_contiguity` -/

structure OffsetLine where
  offset : Word
  virt : Word
  phys : Word
  unexpected : Bool

def checkOffset (virt_to_phys : Word → Word) (addr base_phys : Word) (printed : List OffsetLine) (offset : Word) :
    List OffsetLine :=
  let phys := virt_to_phys (addr + offset)
  let expected := base_phys + offset
  printed ++ [⟨offset, addr + offset, phys, phys ≠ expected⟩]

def check_kmalloc_contiguity (virt_to_phys : Word → Word) (kbuf size : Word) : Option (List OffsetLine) :=
  let base_phys := virt_to_phys kbuf
  forPages (checkOffset virt_to_phys kbuf base_phys) size FUEL 0 []

/-! ### The loop -/

variable {σ : Type} {body : σ → Word → σ} {s : σ} {size : Word} {n i fuel : Nat}

/-- Where page `i` of a buffer begins. -/
def pageOffset (i : Nat) : Word := BitVec.ofNat 64 (4096 * i)

/-- The state after the first `n` pages. -/
def afterPages (body : σ → Word → σ) (s : σ) : Nat → σ
  | 0 => s
  | n + 1 => body (afterPages body s n) (pageOffset n)

theorem pageOffset_succ (i : Nat) : pageOffset (i + 1) = pageOffset i + PAGE_SIZE := by
  rw [pageOffset, Nat.mul_succ, BitVec.ofNat_add]
  rfl

theorem pageOffset_lt (hsize : size.toNat = 4096 * n) (hi : i ≤ n) : pageOffset i < size ↔ i < n := by
  have hlt := size.isLt
  have hoffset : (pageOffset i).toNat = 4096 * i := by
    rw [pageOffset, BitVec.toNat_ofNat]
    exact Nat.mod_eq_of_lt (by omega)
  rw [BitVec.lt_def, hoffset, hsize]
  omega

theorem forPages_from (hsize : size.toNat = 4096 * n) (hi : i ≤ n) (hfuel : n - i ≤ fuel) :
    forPages body size fuel (pageOffset i) (afterPages body s i) = some (afterPages body s n) := by
  induction fuel generalizing i with
  | zero =>
    have hend : i = n := by omega
    have hover : ¬ pageOffset i < size := by
      rw [pageOffset_lt hsize hi]
      omega
    rw [forPages, if_neg hover, hend]
  | succ fuel ih =>
    by_cases hlast : i = n
    · have hover : ¬ pageOffset i < size := by
        rw [pageOffset_lt hsize hi]
        omega
      rw [forPages, if_neg hover, hlast]
    · have hmore : pageOffset i < size := by
        rw [pageOffset_lt hsize hi]
        omega
      rw [forPages, if_pos hmore, ← pageOffset_succ]
      exact ih (by omega) (by omega)

/-- A whole number of pages is walked to its end. -/
theorem forPages_eq (hsize : size.toNat = 4096 * n) : forPages body size FUEL 0 s = some (afterPages body s n) := by
  have hfuel : n - 0 ≤ FUEL := by
    have hlt := size.isLt
    unfold FUEL
    omega
  exact forPages_from hsize (Nat.zero_le n) hfuel

end Armv8Driver.VmallocBasic
