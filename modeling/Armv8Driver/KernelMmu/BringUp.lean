import Armv8Driver.KernelMmu.Garbage

/-!
# Switching the MMU on

`build_translation_tables` and `mmu_init` as `main` of `03_MMU` calls them, one iteration of the loop or one barrier or
register access a step. The stores to the tables are seen by the walker at any time before `dsb_sy`, in any order, and a
register that has been written acts at any time before `isb`. Whatever these do, the kernel is where it was, if RAM
held nothing harmful in place of the tables.
-/

namespace Armv8Driver.KernelMmu

open Arm Arm.Translation Transition

def MAIR_ATTR_NORMAL : Word := 0xff
def MAIR_ATTR_DEVICE : Word := 0x04
def MAIR_VALUE : Word := MAIR_ATTR_NORMAL <<< 0 ||| MAIR_ATTR_DEVICE <<< 8

/-- The system registers that `mmu_init` writes. -/
inductive Reg where
  | mair_el1 | tcr_el1 | ttbr0_el1 | sctlr_el1
  deriving DecidableEq

/-- Where `main` is: at the top of the loop of `map_region`, or before a call of `mmu_init`. -/
inductive Pc where
  | map_region (va_start pa_start size : Word)
  | write_mair_el1 | write_tcr_el1 | write_ttbr0_el1
  | dsb_sy | isb
  | read_sctlr_el1 | write_sctlr_el1 (sctlr : Word)
  | isbEnabled
  | loop
  deriving DecidableEq

/-- `tables` and `regs` are as `main` has written them, `seen` and `acting` as the MMU has them. -/
structure Mmu where
  pc : Pc
  tables : Tables
  seen : Tables
  pending : Bool
  regs : Reg → Word
  acting : Reg → Word

/-- A step of `main`; the walker comes to see something else of the pending stores; a register comes to act. -/
inductive Step where
  | cpu
  | walker (seen : Tables)
  | settle (r : Reg)

def Mmu.msr (s : Mmu) (r : Reg) (val : Word) : Mmu := { s with regs := Function.update s.regs r val }

variable {L : Layout} {held : Tables} {s t : Mmu} {ram : Nat → Word} {v : Word}

def mainStep (L : Layout) (s : Mmu) : Option Mmu :=
  match s.pc with
  | .map_region va_start pa_start size =>
    if size > 0 then
      some { s with
        tables := map_page L s.tables va_start pa_start NORMAL_MEMORY
        pending := true
        pc := .map_region (va_start + PAGE_SIZE) (pa_start + PAGE_SIZE) (size - PAGE_SIZE) }
    else some { s with pc := .write_mair_el1 }
  | .write_mair_el1 => some { s.msr .mair_el1 MAIR_VALUE with pc := .write_tcr_el1 }
  | .write_tcr_el1 => some { s.msr .tcr_el1 TCR_VALUE with pc := .write_ttbr0_el1 }
  | .write_ttbr0_el1 => some { s.msr .ttbr0_el1 L.l0_table with pc := .dsb_sy }
  | .dsb_sy => some { s with seen := s.tables, pending := false, pc := .isb }
  | .isb => some { s with acting := s.regs, pc := .read_sctlr_el1 }
  | .read_sctlr_el1 => some { s with pc := .write_sctlr_el1 (s.regs .sctlr_el1 ||| 1 <<< 0) }
  | .write_sctlr_el1 sctlr => some { s.msr .sctlr_el1 sctlr with pc := .isbEnabled }
  | .isbEnabled => some { s with acting := s.regs, pc := .loop }
  | .loop => none

def Mmu.step (L : Layout) (s : Mmu) : Step → Option Mmu
  | .cpu => mainStep L s
  | .walker seen => if s.pending then some { s with seen := seen } else none
  | .settle r => some { s with acting := Function.update s.acting r (s.regs r) }

/-- `SCTLR_EL1.M`. -/
def mmuEnabled (sctlr : Word) : Bool := sctlr.getLsbD 0

/-- `build_translation_tables` is called, with the MMU off and the tables as RAM held them. -/
def bringUp (L : Layout) (held : Tables) : System Mmu Step where
  init s := s.pc = .map_region VIRTUAL_ADDRESS PHYSICAL_ADDRESS KERNEL_SIZE ∧ s.tables = held ∧
    mmuEnabled (s.regs .sctlr_el1) = false ∧ s.acting = s.regs
  step := Mmu.step L

/-- Where a data access goes, and the byte of `MAIR_EL1` that says how. -/
structure Access where
  address : Nat
  memAttr : BitVec 8
  deriving DecidableEq

/-- The byte that the attribute index selects. -/
def memAttr (mair : Word) (a : Attributes) : BitVec 8 := mair.extractLsb' (8 * (a.lower.extractLsb' 0 3).toNat) 8

/-- With the MMU off, the address itself, as a device. -/
def Mmu.access (L : Layout) (s : Mmu) (ram : Nat → Word) (v : Word) : Option Access :=
  if mmuEnabled (s.acting .sctlr_el1) then
    (walk (.ofRegisters (s.acting .ttbr0_el1) (s.acting .tcr_el1)) (L.read s.seen ram) v).toOption.map fun o =>
      ⟨o.address, memAttr (s.acting .mair_el1) o.attributes⟩
  else some ⟨v.toNat, 0⟩

/-! ### What has been done at each point -/

def Pc.rank : Pc → Nat
  | .map_region _ _ _ => 0
  | .write_mair_el1 => 1
  | .write_tcr_el1 => 2
  | .write_ttbr0_el1 => 3
  | .dsb_sy => 4
  | .isb => 5
  | .read_sctlr_el1 => 6
  | .write_sctlr_el1 _ => 7
  | .isbEnabled => 8
  | .loop => 9

/-- The tables after the first `k` pages of the kernel. -/
def kernelPages (L : Layout) (held : Tables) (k : Nat) : Tables :=
  mapPages L held VIRTUAL_ADDRESS PHYSICAL_ADDRESS NORMAL_MEMORY k

/-- The state of the loop, and the value to be written. -/
def Pc.Fits (L : Layout) (held tables : Tables) : Pc → Prop
  | .map_region va_start pa_start size => ∃ k, tables = kernelPages L held k ∧ va_start = pageAt VIRTUAL_ADDRESS k ∧
      pa_start = pageAt PHYSICAL_ADDRESS k ∧ size.toNat + 4096 * k = 4096 * 512
  | .write_sctlr_el1 sctlr => tables = kernelPages L held 512 ∧ mmuEnabled sctlr = true
  | _ => tables = kernelPages L held 512

/-- What holds from each point on. -/
structure Done (L : Layout) (s : Mmu) (rank : Nat) : Prop where
  mair : 2 ≤ rank → s.regs .mair_el1 = MAIR_VALUE
  tcr : 3 ≤ rank → s.regs .tcr_el1 = TCR_VALUE
  ttbr0 : 4 ≤ rank → s.regs .ttbr0_el1 = L.l0_table
  seen : 5 ≤ rank → s.seen = s.tables ∧ s.pending = false
  acting : 6 ≤ rank → ∀ r, r ≠ .sctlr_el1 → s.acting r = s.regs r
  off : rank ≤ 7 → mmuEnabled (s.regs .sctlr_el1) = false ∧ mmuEnabled (s.acting .sctlr_el1) = false
  enabled : 8 ≤ rank → mmuEnabled (s.regs .sctlr_el1) = true
  on : 9 ≤ rank → mmuEnabled (s.acting .sctlr_el1) = true

structure Inv (L : Layout) (held : Tables) (s : Mmu) : Prop where
  fits : s.pc.Fits L held s.tables
  done : Done L s s.pc.rank

theorem Pc.Fits.built {pc : Pc} {tables : Tables} (h : pc.Fits L held tables) (hrank : 1 ≤ pc.rank) :
    tables = kernelPages L held 512 := by
  cases pc with
  | map_region => simp [Pc.rank] at hrank
  | write_sctlr_el1 => exact h.1
  | _ => exact h

theorem Inv.init (hs : (bringUp L held).init s) : Inv L held s := by
  obtain ⟨hpc, htables, hoff, hacting⟩ := hs
  refine ⟨?_, ?_⟩
  · rw [hpc]
    exact ⟨0, htables, (pageAt_zero _).symm, (pageAt_zero _).symm, by decide⟩
  · rw [hpc]
    exact ⟨by simp [Pc.rank], by simp [Pc.rank], by simp [Pc.rank], by simp [Pc.rank], by simp [Pc.rank],
      fun _ => ⟨hoff, hacting ▸ hoff⟩, by simp [Pc.rank], by simp [Pc.rank]⟩

theorem or_enabled (sctlr : Word) : mmuEnabled (sctlr ||| 1 <<< 0) = true := by simp [mmuEnabled]

/-- One iteration of the loop of `map_region`. -/
theorem Pc.Fits.page {va_start pa_start size : Word} {tables : Tables}
    (h : (Pc.map_region va_start pa_start size).Fits L held tables) (hsize : size > 0) :
    (Pc.map_region (va_start + PAGE_SIZE) (pa_start + PAGE_SIZE) (size - PAGE_SIZE)).Fits L held
      (map_page L tables va_start pa_start NORMAL_MEMORY) := by
  obtain ⟨k, rfl, rfl, rfl, hleft⟩ := h
  have hnext : ∀ a : Word, pageAt a k + PAGE_SIZE = pageAt a (k + 1) := by
    intro a
    rw [← pageAt_succ, pageAt, pageAt, BitVec.add_assoc, BitVec.add_comm _ PAGE_SIZE, ← BitVec.add_assoc]
  refine ⟨k + 1, rfl, hnext _, hnext _, ?_⟩
  rw [size_gt_zero] at hsize
  have hlt := size.isLt
  rw [size_sub_page]
  omega

theorem Pc.Fits.ends {va_start pa_start size : Word} {tables : Tables}
    (h : (Pc.map_region va_start pa_start size).Fits L held tables) (hsize : ¬ size > 0) : tables = kernelPages L held 512 := by
  obtain ⟨k, rfl, -, -, hleft⟩ := h
  rw [size_gt_zero, not_not] at hsize
  have hk : k = 512 := by omega
  rw [hk]

theorem Mmu.msr_self (s : Mmu) (r : Reg) (val : Word) : (s.msr r val).regs r = val := Function.update_self ..

theorem Mmu.msr_of_ne (s : Mmu) {r r' : Reg} (h : r' ≠ r) (val : Word) : (s.msr r val).regs r' = s.regs r' :=
  Function.update_of_ne h ..

theorem Done.settle {n : Nat} (hd : Done L s n) (r : Reg) :
    Done L { s with acting := Function.update s.acting r (s.regs r) } n := by
  have heither : ∀ r', Function.update s.acting r (s.regs r) r' = s.acting r' ∨
      Function.update s.acting r (s.regs r) r' = s.regs r' := by
    intro r'
    by_cases hr : r' = r
    · rw [hr, Function.update_self]
      exact .inr rfl
    · exact .inl (Function.update_of_ne hr ..)
  refine ⟨hd.mair, hd.tcr, hd.ttbr0, hd.seen, fun hn r' hr' => ?_, fun hn => ?_, hd.enabled, fun hn => ?_⟩
  · exact (heither r').elim (fun h => h.trans (hd.acting hn r' hr')) id
  · obtain ⟨hregs, hacting⟩ := hd.off hn
    refine ⟨hregs, ?_⟩
    rcases heither .sctlr_el1 with h | h
    · exact (congrArg mmuEnabled h).trans hacting
    · exact (congrArg mmuEnabled h).trans hregs
  · rcases heither .sctlr_el1 with h | h
    · exact (congrArg mmuEnabled h).trans (hd.on hn)
    · exact (congrArg mmuEnabled h).trans (hd.enabled (Nat.le_of_succ_le hn))

theorem Done.walker {n : Nat} (hd : Done L s n) (hpending : s.pending = true) (seen : Tables) :
    Done L { s with seen := seen } n := by
  refine ⟨hd.mair, hd.tcr, hd.ttbr0, fun hn => ?_, hd.acting, hd.off, hd.enabled, hd.on⟩
  rw [(hd.seen hn).2] at hpending
  cases hpending

theorem Inv.cpu (hi : Inv L held s) (h : mainStep L s = some t) : Inv L held t := by
  obtain ⟨hfits, hd⟩ := hi
  cases hpc : s.pc with
  | map_region va_start pa_start size =>
    rw [hpc] at hfits hd
    have hoff := hd.off (Nat.zero_le _)
    simp only [mainStep, hpc] at h
    split_ifs at h with hsize
    · cases h
      exact ⟨hfits.page hsize, by simp [Pc.rank], by simp [Pc.rank], by simp [Pc.rank], by simp [Pc.rank],
        by simp [Pc.rank], fun _ => hoff, by simp [Pc.rank], by simp [Pc.rank]⟩
    · cases h
      exact ⟨hfits.ends hsize, by simp [Pc.rank], by simp [Pc.rank], by simp [Pc.rank], by simp [Pc.rank],
        by simp [Pc.rank], fun _ => hoff, by simp [Pc.rank], by simp [Pc.rank]⟩
  | write_mair_el1 =>
    rw [hpc] at hfits hd
    simp only [mainStep, hpc] at h
    cases h
    exact ⟨hfits, fun _ => s.msr_self .mair_el1 MAIR_VALUE, by simp [Pc.rank], by simp [Pc.rank], by simp [Pc.rank],
      by simp [Pc.rank], fun _ => hd.off (by decide), by simp [Pc.rank], by simp [Pc.rank]⟩
  | write_tcr_el1 =>
    rw [hpc] at hfits hd
    simp only [mainStep, hpc] at h
    cases h
    exact ⟨hfits, fun _ => hd.mair (by decide), fun _ => s.msr_self .tcr_el1 TCR_VALUE, by simp [Pc.rank], by simp [Pc.rank],
      by simp [Pc.rank], fun _ => hd.off (by decide), by simp [Pc.rank], by simp [Pc.rank]⟩
  | write_ttbr0_el1 =>
    rw [hpc] at hfits hd
    simp only [mainStep, hpc] at h
    cases h
    exact ⟨hfits, fun _ => hd.mair (by decide), fun _ => hd.tcr (by decide),
      fun _ => s.msr_self .ttbr0_el1 L.l0_table, by simp [Pc.rank], by simp [Pc.rank], fun _ => hd.off (by decide),
      by simp [Pc.rank], by simp [Pc.rank]⟩
  | dsb_sy =>
    rw [hpc] at hfits hd
    simp only [mainStep, hpc] at h
    cases h
    exact ⟨hfits, fun _ => hd.mair (by decide), fun _ => hd.tcr (by decide), fun _ => hd.ttbr0 (by decide),
      fun _ => ⟨rfl, rfl⟩, by simp [Pc.rank], fun _ => hd.off (by decide), by simp [Pc.rank], by simp [Pc.rank]⟩
  | isb =>
    rw [hpc] at hfits hd
    simp only [mainStep, hpc] at h
    cases h
    have hoff := (hd.off (by decide)).1
    exact ⟨hfits, fun _ => hd.mair (by decide), fun _ => hd.tcr (by decide), fun _ => hd.ttbr0 (by decide),
      fun _ => hd.seen (by decide), fun _ _ _ => rfl, fun _ => ⟨hoff, hoff⟩, by simp [Pc.rank], by simp [Pc.rank]⟩
  | read_sctlr_el1 =>
    rw [hpc] at hfits hd
    simp only [mainStep, hpc] at h
    cases h
    exact ⟨⟨hfits, or_enabled _⟩, fun _ => hd.mair (by decide), fun _ => hd.tcr (by decide), fun _ => hd.ttbr0 (by decide),
      fun _ => hd.seen (by decide), fun _ => hd.acting (by decide), fun _ => hd.off (by decide), by simp [Pc.rank],
      by simp [Pc.rank]⟩
  | write_sctlr_el1 sctlr =>
    rw [hpc] at hfits hd
    have hd : Done L s 7 := hd
    simp only [mainStep, hpc] at h
    cases h
    refine ⟨hfits.1, fun _ => hd.mair (by decide), fun _ => hd.tcr (by decide), fun _ => hd.ttbr0 (by decide),
      fun _ => hd.seen (by decide), fun _ r hr => ?_, by simp [Pc.rank], fun _ => hfits.2, by simp [Pc.rank]⟩
    exact (hd.acting (by decide) r hr).trans (s.msr_of_ne hr sctlr).symm
  | isbEnabled =>
    rw [hpc] at hfits hd
    simp only [mainStep, hpc] at h
    cases h
    exact ⟨hfits, fun _ => hd.mair (by decide), fun _ => hd.tcr (by decide), fun _ => hd.ttbr0 (by decide),
      fun _ => hd.seen (by decide), fun _ _ _ => rfl, by simp [Pc.rank], fun _ => hd.enabled (by decide),
      fun _ => hd.enabled (by decide)⟩
  | loop => simp [mainStep, hpc] at h

theorem Inv.step {a : Step} (hi : Inv L held s) (h : s.step L a = some t) : Inv L held t := by
  cases a with
  | cpu => exact hi.cpu h
  | walker seen =>
    obtain ⟨hpending, hs⟩ := Option.ite_none_right_eq_some.mp h
    cases hs
    exact ⟨hi.fits, hi.done.walker hpending seen⟩
  | settle r =>
    cases h
    exact ⟨hi.fits, hi.done.settle r⟩

/-! ### Where the accesses go -/

/-- Whatever has been seen of the tables, an MMU that is on has all of them, and all of the registers. -/
theorem Inv.access_on (hi : Inv L held s) (hon : mmuEnabled (s.acting .sctlr_el1) = true) :
    s.access L ram v =
      (L.walk (kernelPages L held 512) ram v).toOption.map fun o => ⟨o.address, memAttr MAIR_VALUE o.attributes⟩ := by
  have hrank : 8 ≤ s.pc.rank := by
    by_contra hlow
    rw [(hi.done.off (by omega)).2] at hon
    cases hon
  have hd := hi.done
  have hacting := hd.acting (by omega)
  have hmair := (hacting .mair_el1 nofun).trans (hd.mair (by omega))
  have htcr := (hacting .tcr_el1 nofun).trans (hd.tcr (by omega))
  have httbr0 := (hacting .ttbr0_el1 nofun).trans (hd.ttbr0 (by omega))
  have hseen := (hd.seen (by omega)).1.trans (hi.fits.built (by omega))
  rw [Mmu.access, if_pos hon, hmair, htcr, httbr0, hseen]
  rfl

/-- The intended translation, as far as an access sees it. -/
theorem intended_toOption (hv : v.toNat < 2 ^ 48) : (intended v).toOption =
    if 0x40000000 ≤ v.toNat ∧ v.toNat < 0x40200000 then some ⟨v.toNat, normalMemory⟩ else none := by
  by_cases hin : 0x40000000 ≤ v.toNat ∧ v.toNat < 0x40200000
  · have hblock : v.toNat / 2 ^ 21 = 512 := by omega
    obtain ⟨h0, h1, h2⟩ := block_indices hblock
    have hon : OnTheWay 0 v := ⟨fun _ => Fin.ext h0, fun _ => Fin.ext h1, fun _ => Fin.ext h2⟩
    rw [if_pos hin, intended_on hon]
    rfl
  · rw [if_neg hin, intended]
    split_ifs with h0 h1 h2
    · rfl
    · rfl
    · rfl
    · have hblock := kernel_address hv (not_not.mp h0) (not_not.mp h1) (not_not.mp h2)
      omega

/-- The walk through the tables of the kernel. -/
theorem walk_kernelPages (hheld : Harmless L held) (ram : Nat → Word) (hv : v.toNat < 2 ^ 48) :
    (L.walk (kernelPages L held 512) ram v).toOption =
      if 0x40000000 ≤ v.toNat ∧ v.toNat < 0x40200000 then some ⟨v.toNat, normalMemory⟩ else none := by
  have hbuilt : kernelPages L held 512 = built L held := rfl
  rw [hbuilt, built_intended_iff.mpr hheld ram v hv, intended_toOption hv]

theorem memAttr_normalMemory : memAttr MAIR_VALUE normalMemory = 0xff := by decide

/-! ### `main` gets to its loop -/

def Pc.remaining : Pc → Nat
  | .map_region _ _ size => size.toNat + 9
  | pc => 9 - pc.rank

def OnlyMain : Mmu → Step → Prop
  | _, .cpu => True
  | _, _ => False

theorem Inv.remaining_lt (hi : Inv L held s) (h : mainStep L s = some t) : t.pc.remaining < s.pc.remaining := by
  have hfits := hi.fits
  cases hpc : s.pc with
  | map_region va_start pa_start size =>
    rw [hpc] at hfits
    obtain ⟨k, -, -, -, hleft⟩ := hfits
    simp only [mainStep, hpc] at h
    split_ifs at h with hsize
    · cases h
      rw [size_gt_zero] at hsize
      have hlt := size.isLt
      simp only [Pc.remaining, size_sub_page]
      omega
    · cases h
      simp [Pc.remaining, Pc.rank]
  | loop => simp [mainStep, hpc] at h
  | _ =>
    simp only [mainStep, hpc] at h
    cases h
    simp [Pc.remaining, Pc.rank]

theorem Inv.returns (hi : Inv L held s) : ∃ t, (bringUp L held).Steps OnlyMain s t ∧ t.pc = .loop := by
  have hprog : ∀ s a t, Inv L held s → OnlyMain s a → (bringUp L held).step s a = some t →
      Inv L held t ∧ t.pc.remaining < s.pc.remaining := by
    intro s a t hi ha h
    cases a with
    | cpu => exact ⟨Inv.step (a := .cpu) hi h, hi.remaining_lt h⟩
    | walker => cases ha
    | settle => cases ha
  obtain ⟨t, hsteps, -, hstuck⟩ := System.exists_stuck (fun s : Mmu => s.pc.remaining) hprog hi
  refine ⟨t, hsteps, ?_⟩
  have hend : mainStep L t = none := hstuck .cpu trivial
  cases hpc : t.pc with
  | loop => rfl
  | map_region va_start pa_start size =>
    simp only [mainStep, hpc] at hend
    split_ifs at hend
  | _ => simp [mainStep, hpc] at hend

/-- Where RAM held nothing harmful in place of the tables: from the call of `build_translation_tables` to the loop of
`main`, which it gets to, every data access to the kernel's 2 MiB goes to the address that it names. In the loop such an
access is one to normal, write-back memory, and the walk of any other address below `2 ^ 48` faults. -/
theorem mmu_init_identity (L : Layout) (held : Tables) (hheld : Harmless L held) (s : Mmu)
    (hs : (bringUp L held).Reachable s) :
    (∀ ram (v : Word), 0x40000000 ≤ v.toNat → v.toNat < 0x40200000 → (s.access L ram v).map Access.address = some v.toNat) ∧
      (∃ t, (bringUp L held).Steps OnlyMain s t ∧ t.pc = .loop) ∧
        (s.pc = .loop → ∀ ram (v : Word), v.toNat < 2 ^ 48 → s.access L ram v =
          if 0x40000000 ≤ v.toNat ∧ v.toNat < 0x40200000 then some ⟨v.toNat, 0xff⟩ else none) := by
  have hi : Inv L held s := hs.invariant (fun _ => Inv.init) fun _ _ _ hi h => hi.step h
  have hon : mmuEnabled (s.acting .sctlr_el1) = true → ∀ ram (v : Word), v.toNat < 2 ^ 48 → s.access L ram v =
      if 0x40000000 ≤ v.toNat ∧ v.toNat < 0x40200000 then some ⟨v.toNat, 0xff⟩ else none := by
    intro hon ram v hv
    rw [hi.access_on hon, walk_kernelPages hheld ram hv]
    split_ifs
    · rw [Option.map_some, memAttr_normalMemory]
    · rfl
  refine ⟨fun ram v hlo hhi => ?_, hi.returns, fun hloop ram v hv => hon (hi.done.on ?_) ram v hv⟩
  · by_cases hmmu : mmuEnabled (s.acting .sctlr_el1) = true
    · rw [hon hmmu ram v (by omega), if_pos ⟨hlo, hhi⟩]
      rfl
    · rw [Mmu.access, if_neg hmmu]
      rfl
  · rw [hloop]
    exact Nat.le_refl 9

/-- `main` as it starts, over even words and with nothing else in the registers, and a walker that has seen other
tables. -/
def off : Mmu where
  pc := .map_region VIRTUAL_ADDRESS PHYSICAL_ADDRESS KERNEL_SIZE
  tables := evenWords
  seen := ⟨fun _ => 3, fun _ => 3, fun _ => 3, fun _ => 3⟩
  pending := true
  regs := fun _ => 0
  acting := fun _ => 0

theorem off_comes_up : ∃ s, (bringUp someLayout evenWords).Steps OnlyMain off s ∧ s.pc = .loop ∧
    ∀ ram (v : Word), v.toNat < 2 ^ 48 → s.access someLayout ram v =
      if 0x40000000 ≤ v.toNat ∧ v.toNat < 0x40200000 then some ⟨v.toNat, 0xff⟩ else none := by
  have hinit : (bringUp someLayout evenWords).init off := ⟨rfl, rfl, rfl, rfl⟩
  obtain ⟨s, hsteps, hloop⟩ := (mmu_init_identity someLayout evenWords evenWords_harmless off (.init hinit)).2.1
  have hs : (bringUp someLayout evenWords).Reachable s := (System.Reachable.init hinit).steps hsteps.any
  exact ⟨s, hsteps, hloop, (mmu_init_identity someLayout evenWords evenWords_harmless s hs).2.2 hloop⟩

end Armv8Driver.KernelMmu
