import Armv8Driver.Arm.Memory

/-!
# The stage 1 translation table walk

The walk of the Armv8-A architecture for the 4 KiB granule, from level 0. Memory is a function that
reads the descriptor at a physical address. `remaining` counts the levels below the present one, so a
descriptor at level 3 has none remaining and covers `2 ^ 12` bytes.
-/

namespace Arm.Translation

inductive Fault where
  | translation (level : Nat)
  | addressSize (level : Nat)
  | accessFlag (level : Nat)
  deriving DecidableEq

/-- The attribute fields of a block or page descriptor, and those of the table descriptors above it. -/
structure Attributes where
  lower : BitVec 10
  upper : BitVec 3
  table : BitVec 5
  deriving DecidableEq

structure Output where
  address : Nat
  attributes : Attributes
  deriving DecidableEq

/-- The root table and the sizes of input and output addresses. -/
structure Regime where
  base : Nat
  inputBits : Nat
  outputBits : Nat

/-- The output address size that `TCR_EL1.IPS` selects. -/
def ipsBits (ips : BitVec 3) : Nat :=
  match ips.toNat with
  | 0 => 32
  | 1 => 36
  | 2 => 40
  | 3 => 42
  | 4 => 44
  | _ => 48

/-- The regime that `TTBR0_EL1` and `TCR_EL1` select. -/
def Regime.ofRegisters (ttbr0 tcr : Word) : Regime where
  base := (ttbr0.extractLsb' 0 48).toNat
  inputBits := 64 - (tcr.extractLsb' 0 6).toNat
  outputBits := ipsBits (tcr.extractLsb' 32 3)

def shift (remaining : Nat) : Nat := 12 + 9 * remaining

def index (remaining : Nat) (v : Word) : Nat := v.toNat / 2 ^ shift remaining % 512

def isValid (d : Word) : Bool := d.getLsbD 0

/-- A table descriptor, or a page descriptor at level 3. -/
def isTable (d : Word) : Bool := d.getLsbD 1

def accessFlag (d : Word) : Bool := d.getLsbD 10

def nextTable (d : Word) : Nat := (d.extractLsb' 12 36).toNat * 4096

/-- The address that a block or page descriptor gives to the memory it covers. -/
def frame (remaining : Nat) (d : Word) : Nat :=
  (d.extractLsb' (shift remaining) (48 - shift remaining)).toNat * 2 ^ shift remaining

/-- The output of a block or page descriptor. -/
def leaf (R : Regime) (remaining : Nat) (d v : Word) (table : BitVec 5) : Except Fault Output :=
  if frame remaining d ≥ 2 ^ R.outputBits then .error (.addressSize (3 - remaining))
  else if accessFlag d = false then .error (.accessFlag (3 - remaining))
  else .ok ⟨frame remaining d + v.toNat % 2 ^ shift remaining, ⟨d.extractLsb' 2 10, d.extractLsb' 52 3, table⟩⟩

def walkTable (R : Regime) (read : Nat → Word) (v : Word) : Nat → Nat → BitVec 5 → Except Fault Output
  | 0, base, table =>
    let d := read (base + 8 * index 0 v)
    if isValid d = true ∧ isTable d = true then leaf R 0 d v table else .error (.translation 3)
  | n + 1, base, table =>
    let d := read (base + 8 * index (n + 1) v)
    if isValid d = false then .error (.translation (2 - n))
    else if isTable d = true then
      if nextTable d ≥ 2 ^ R.outputBits then .error (.addressSize (2 - n))
      else walkTable R read v n (nextTable d) (table ||| d.extractLsb' 59 5)
    -- a block, which level 0 does not have
    else if n = 2 then .error (.translation 0)
    else leaf R (n + 1) d v table

def walk (R : Regime) (read : Nat → Word) (v : Word) : Except Fault Output :=
  if v.toNat < 2 ^ R.inputBits then walkTable R read v 3 R.base 0 else .error (.translation 0)

variable {R : Regime} {read : Nat → Word} {v d : Word} {base n : Nat} {table : BitVec 5}

theorem walkTable_invalid (hread : read (base + 8 * index (n + 1) v) = d) (hd : isValid d = false) :
    walkTable R read v (n + 1) base table = .error (.translation (2 - n)) := by
  rw [walkTable, hread]
  exact if_pos hd

theorem walkTable_next (hread : read (base + 8 * index (n + 1) v) = d) (hvalid : isValid d = true) (htable : isTable d = true)
    (hsize : nextTable d < 2 ^ R.outputBits) :
    walkTable R read v (n + 1) base table =
      walkTable R read v n (nextTable d) (table ||| d.extractLsb' 59 5) := by
  rw [walkTable, hread]
  simp only [hvalid, htable, Bool.true_eq_false, if_false, if_true, if_neg (Nat.not_le.mpr hsize)]

/-- What a level 3 descriptor translates to, apart from the offset in the page. -/
def page (R : Regime) (d : Word) : Option (Nat × BitVec 10 × BitVec 3) :=
  if isValid d = true ∧ isTable d = true ∧ frame 0 d < 2 ^ R.outputBits ∧ accessFlag d = true then
    some (frame 0 d, d.extractLsb' 2 10, d.extractLsb' 52 3)
  else none

theorem walkTable_page (hread : read (base + 8 * index 0 v) = d) :
    (walkTable R read v 0 base table).toOption =
      (page R d).map fun p => ⟨p.1 + v.toNat % 4096, ⟨p.2.1, p.2.2, table⟩⟩ := by
  simp only [walkTable, hread, page]
  by_cases hvalid : isValid d = true ∧ isTable d = true
  · rw [if_pos hvalid, leaf]
    by_cases hsize : frame 0 d ≥ 2 ^ R.outputBits
    · rw [if_pos hsize, if_neg (fun h => absurd h.2.2.1 (Nat.not_lt.mpr hsize))]
      rfl
    · rw [if_neg hsize]
      by_cases hflag : accessFlag d = true
      · rw [if_neg (by simp [hflag]), if_pos ⟨hvalid.1, hvalid.2, Nat.not_le.mp hsize, hflag⟩]
        rfl
      · rw [if_pos (by simpa using hflag), if_neg (fun h => hflag h.2.2.2)]
        rfl
  · rw [if_neg hvalid, if_neg (fun h => hvalid ⟨h.1, h.2.1⟩)]
    rfl

theorem ok_of_toOption {x : Except Fault Output} {o : Output} (h : x.toOption = some o) : x = .ok o := by
  cases x with
  | error f => cases h
  | ok o' => rw [Option.some.inj h]

/-- Two page descriptors translate an address alike exactly when they translate their page alike. -/
theorem page_offset_inj {p q : Option (Nat × BitVec 10 × BitVec 3)} {offset : Nat} :
    (p.map fun p => (⟨p.1 + offset, ⟨p.2.1, p.2.2, table⟩⟩ : Output)) =
      (q.map fun p => ⟨p.1 + offset, ⟨p.2.1, p.2.2, table⟩⟩) ↔ p = q := by
  constructor
  · intro h
    apply Option.map_injective ?_ h
    intro x y hxy
    simp only [Output.mk.injEq, Attributes.mk.injEq] at hxy
    obtain ⟨haddress, hlower, hupper, -⟩ := hxy
    exact Prod.ext (by omega) (Prod.ext hlower hupper)
  · intro h
    rw [h]

/-! ### What a result says about the descriptors -/

theorem leaf_eq_ok {remaining : Nat} {o : Output} :
    leaf R remaining d v table = .ok o ↔ frame remaining d < 2 ^ R.outputBits ∧ accessFlag d = true ∧
      o = ⟨frame remaining d + v.toNat % 2 ^ shift remaining, ⟨d.extractLsb' 2 10, d.extractLsb' 52 3, table⟩⟩ := by
  unfold leaf
  split_ifs with hsize hflag
  · simp [Nat.not_lt.mpr hsize]
  · simp [hflag]
  · rw [Bool.not_eq_false] at hflag
    simp only [Except.ok.injEq, Nat.not_le.mp hsize, hflag, true_and]
    exact eq_comm

theorem leaf_ne_translation {remaining level : Nat} : leaf R remaining d v table ≠ .error (.translation level) := by
  unfold leaf
  split_ifs <;> simp

/-- The level of a translation fault is that of the table where the walk stops, or of one below. -/
theorem walkTable_translation_le {level : Nat} (h : walkTable R read v n base table = .error (.translation level)) :
    3 ≤ level + n := by
  induction n generalizing base table with
  | zero =>
    rw [walkTable] at h
    split_ifs at h
    · exact absurd h leaf_ne_translation
    · cases h
      exact Nat.le_refl 3
  | succ n ih =>
    rw [walkTable] at h
    split_ifs at h with hvalid htable hsize hblock
    · cases h
      omega
    · cases h
    · have hbelow := ih h
      omega
    · cases h
      omega
    · exact absurd h leaf_ne_translation

/-- A walk faults at the level of its first table exactly if the entry there is invalid, or a block at level 0. -/
theorem walkTable_translation_iff (hn : n ≤ 2) (hread : read (base + 8 * index (n + 1) v) = d) :
    walkTable R read v (n + 1) base table = .error (.translation (2 - n)) ↔
      isValid d = false ∨ (n = 2 ∧ isTable d = false) := by
  subst hread
  constructor
  · intro h
    rw [walkTable] at h
    split_ifs at h with hvalid htable hsize hblock
    · exact .inl hvalid
    · cases h
    · have hbelow := walkTable_translation_le h
      omega
    · exact .inr ⟨hblock, (Bool.not_eq_true _).mp htable⟩
    · exact absurd h leaf_ne_translation
  · rintro (hvalid | ⟨hblock, htable⟩)
    · exact walkTable_invalid rfl hvalid
    · subst hblock
      rw [walkTable]
      simp [htable]

theorem walkTable_block (hread : read (base + 8 * index (n + 1) v) = d) (hvalid : isValid d = true) (htable : isTable d = false)
    (hn : n ≠ 2) : walkTable R read v (n + 1) base table = leaf R (n + 1) d v table := by
  rw [walkTable, hread]
  simp [hvalid, htable, hn]

/-- A walk that succeeds goes on from a table descriptor, or ends at a block. -/
theorem walkTable_ok {o : Output} (h : walkTable R read v (n + 1) base table = .ok o)
    (hread : read (base + 8 * index (n + 1) v) = d) :
    isValid d = true ∧
      ((isTable d = true ∧ nextTable d < 2 ^ R.outputBits ∧
          walkTable R read v n (nextTable d) (table ||| d.extractLsb' 59 5) = .ok o) ∨
        (isTable d = false ∧ n ≠ 2 ∧ leaf R (n + 1) d v table = .ok o)) := by
  subst hread
  rw [walkTable] at h
  split_ifs at h with hvalid htable hsize hblock
  · exact ⟨(Bool.not_eq_false _).mp hvalid, .inl ⟨htable, Nat.not_le.mp hsize, h⟩⟩
  · exact ⟨(Bool.not_eq_false _).mp hvalid, .inr ⟨(Bool.not_eq_true _).mp htable, hblock, h⟩⟩

theorem walkTable_ok_page {o : Output} (h : walkTable R read v 0 base table = .ok o) (hread : read (base + 8 * index 0 v) = d) :
    isValid d = true ∧ isTable d = true := by
  subst hread
  rw [walkTable] at h
  split_ifs at h with hpage
  exact hpage

/-- The attributes of the tables above only add up. -/
theorem walkTable_ok_table {o : Output} (h : walkTable R read v n base table = .ok o) (ho : o.attributes.table = 0) :
    table = 0 := by
  induction n generalizing base table with
  | zero =>
    rw [walkTable] at h
    split_ifs at h
    obtain ⟨-, -, rfl⟩ := leaf_eq_ok.mp h
    exact ho
  | succ n ih =>
    obtain ⟨-, ⟨-, -, hnext⟩ | ⟨-, -, hleaf⟩⟩ := walkTable_ok h rfl
    · exact (BitVec.or_eq_zero_iff.mp (ih hnext)).1
    · obtain ⟨-, -, rfl⟩ := leaf_eq_ok.mp hleaf
      exact ho

end Arm.Translation
