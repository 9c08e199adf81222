import Mathlib.Algebra.Group.Nat.Defs
import Mathlib.Data.Nat.Init
import Mathlib.Tactic.SplitIfs

/-!
# Byte memory with 64-bit accesses

Addresses wrap around, so the place of a byte in a block is its distance from the base, and the block
of `n` bytes at `b` is the bytes at distances below `n`.
-/

namespace Arm

abbrev Word := BitVec 64

abbrev Memory := Word → BitVec 8

namespace Memory

/-- The number that `n` bytes make, the lowest byte first. -/
def bytes (m : Memory) (a : Word) : Nat → Nat
  | 0 => 0
  | n + 1 => bytes m a n + 2 ^ (8 * n) * (m (a + .ofNat 64 n)).toNat

def load64 (m : Memory) (a : Word) : Word := .ofNat 64 (m.bytes a 8)

def store64 (m : Memory) (a v : Word) : Memory := fun b =>
  if (b - a).toNat < 8 then v.extractLsb' (8 * (b - a).toNat) 8 else m b

/-- Several words stored at offsets from a base, in order. -/
def storeAll (m : Memory) (base : Word) (l : List (Nat × Word)) : Memory :=
  l.foldl (fun m p => m.store64 (base + .ofNat 64 p.1) p.2) m

/-- `n` words, each at its place in a block. -/
def words (w : Nat → Word) (n : Nat) : List (Nat × Word) := (List.range n).map fun i => (8 * i, w i)

variable {m m' : Memory} {a b v base : Word} {l : List (Nat × Word)} {n k i : Nat} {p : Nat × Word} {w : Nat → Word}

theorem bytes_congr (h : ∀ i < n, m (a + .ofNat 64 i) = m' (a + .ofNat 64 i)) : m.bytes a n = m'.bytes a n := by
  induction n with
  | zero => rfl
  | succ n ih => rw [bytes, bytes, ih fun i hi => h i (by omega), h n (by omega)]

theorem load64_congr (h : ∀ i < 8, m (a + .ofNat 64 i) = m' (a + .ofNat 64 i)) : m.load64 a = m'.load64 a := by
  rw [load64, load64, bytes_congr h]

theorem add_sub_self (a : Word) (n : Nat) : a + .ofNat 64 n - a = .ofNat 64 n := by
  rw [BitVec.add_comm, BitVec.add_sub_cancel]

theorem store64_outside (h : 8 ≤ (b - a).toNat) : m.store64 a v b = m b := by
  rw [store64, if_neg (by omega)]

theorem bytes_store64 (hn : n ≤ 8) : (m.store64 a v).bytes a n = v.toNat % 2 ^ (8 * n) := by
  induction n with
  | zero => simp [bytes, Nat.mod_one]
  | succ n ih =>
    have hdist : (a + .ofNat 64 n - a).toNat = n := by
      rw [add_sub_self, BitVec.toNat_ofNat]
      omega
    have hbyte : (m.store64 a v (a + .ofNat 64 n)).toNat = v.toNat / 2 ^ (8 * n) % 2 ^ 8 := by
      rw [store64, hdist, if_pos (by omega), BitVec.extractLsb'_toNat, Nat.shiftRight_eq_div_pow]
    rw [bytes, ih (by omega), hbyte, Nat.mul_succ, Nat.pow_add, Nat.mod_mul]

theorem load64_store64 : (m.store64 a v).load64 a = v := by
  apply BitVec.eq_of_toNat_eq
  rw [load64, bytes_store64 (Nat.le_refl 8), BitVec.toNat_ofNat, Nat.mod_mod]
  exact Nat.mod_eq_of_lt v.isLt

/-- The distance of a byte to a word in the block. -/
theorem sub_offset (hk : k + 8 ≤ 2 ^ 64) :
    8 ≤ (b - (base + .ofNat 64 k)).toNat ↔ ¬ (k ≤ (b - base).toNat ∧ (b - base).toNat < k + 8) := by
  have hlt := (b - base).isLt
  have hsub : b - (base + .ofNat 64 k) = (b - base) - .ofNat 64 k := by bv_omega
  rw [hsub, BitVec.toNat_sub, BitVec.toNat_ofNat, Nat.mod_eq_of_lt (by omega : k < 2 ^ 64)]
  omega

theorem offset_sub (hk : k + n < 2 ^ 64) : (base + .ofNat 64 k + .ofNat 64 n - base).toNat = k + n := by
  have hsub : base + .ofNat 64 k + .ofNat 64 n - base = .ofNat 64 (k + n) := by
    rw [BitVec.ofNat_add, BitVec.add_assoc, BitVec.add_comm, BitVec.add_sub_cancel]
  rw [hsub, BitVec.toNat_ofNat, Nat.mod_eq_of_lt hk]

theorem storeAll_cons : m.storeAll base (p :: l) = (m.store64 (base + .ofNat 64 p.1) p.2).storeAll base l := rfl

/-- A byte that none of the words covers is as before. -/
theorem storeAll_outside (hl : ∀ p ∈ l, p.1 + 8 ≤ 2 ^ 64)
    (hb : ∀ p ∈ l, ¬ (p.1 ≤ (b - base).toNat ∧ (b - base).toNat < p.1 + 8)) : m.storeAll base l b = m b := by
  induction l generalizing m with
  | nil => rfl
  | cons p l ih =>
    rw [storeAll_cons, ih (fun q hq => hl q (List.mem_cons_of_mem p hq)) fun q hq => hb q (List.mem_cons_of_mem p hq)]
    exact store64_outside ((sub_offset (hl p List.mem_cons_self)).mpr (hb p List.mem_cons_self))

/-- Words stored at ascending offsets are all there afterwards. -/
theorem load64_storeAll (hl : ∀ p ∈ l, p.1 + 8 ≤ 2 ^ 64) (hasc : l.Pairwise fun p q => p.1 + 8 ≤ q.1) (hp : p ∈ l) :
    (m.storeAll base l).load64 (base + .ofNat 64 p.1) = p.2 := by
  induction l generalizing m with
  | nil => cases hp
  | cons q l ih =>
    obtain ⟨hfirst, hrest⟩ := List.pairwise_cons.mp hasc
    have htail : ∀ r ∈ l, r.1 + 8 ≤ 2 ^ 64 := fun r hr => hl r (List.mem_cons_of_mem q hr)
    rw [storeAll_cons]
    rcases List.mem_cons.mp hp with rfl | hmem
    · -- the later words are stored above this one
      have hkeep : ∀ i < 8, (m.store64 (base + .ofNat 64 p.1) p.2).storeAll base l (base + .ofNat 64 p.1 + .ofNat 64 i) =
          m.store64 (base + .ofNat 64 p.1) p.2 (base + .ofNat 64 p.1 + .ofNat 64 i) := by
        intro i hi
        have hend := hl p hp
        apply storeAll_outside htail
        intro r hr
        rw [offset_sub (by omega)]
        have habove := hfirst r hr
        omega
      rw [load64_congr hkeep, load64_store64]
    · exact ih htail hrest hmem

theorem words_offset (hp : p ∈ words w n) : p.1 + 8 ≤ 8 * n := by
  obtain ⟨i, hi, rfl⟩ := List.mem_map.mp hp
  have hlt := List.mem_range.mp hi
  show 8 * i + 8 ≤ 8 * n
  omega

theorem load64_words (hn : 8 * n ≤ 2 ^ 64) (hi : i < n) :
    (m.storeAll base (words w n)).load64 (base + .ofNat 64 (8 * i)) = w i := by
  have hasc : (words w n).Pairwise fun p q => p.1 + 8 ≤ q.1 := by
    rw [words, List.pairwise_map]
    exact List.pairwise_lt_range.imp fun h => by omega
  have hmem : (8 * i, w i) ∈ words w n := by
    rw [words, List.mem_map]
    exact ⟨i, List.mem_range.mpr hi, rfl⟩
  exact @load64_storeAll m base (words w n) (8 * i, w i) (fun p hp => Nat.le_trans (words_offset hp) hn) hasc hmem

/-- The words stay inside their block. -/
theorem words_outside (hn : 8 * n ≤ 2 ^ 64) (hb : 8 * n ≤ (b - base).toNat) : m.storeAll base (words w n) b = m b := by
  apply storeAll_outside
  · exact fun p hp => Nat.le_trans (words_offset hp) hn
  · intro p hp
    have hend := words_offset hp
    omega

end Memory

end Arm
