import Mathlib.Algebra.BigOperators.Group.Finset.Basic
import Mathlib.Algebra.Order.BigOperators.Group.Finset
import Mathlib.Data.Fintype.Basic

/-!
# Counting over a family of threads

A family of threads is a function from thread names to program counters, and one thread taking a step
is a `Function.update`. Token counting needs one fact about it: a sum over the threads changes by what
the stepping thread contributed before and contributes after.
-/

namespace Transition.Threads

variable {ι κ : Type*} [Fintype ι]

/-- The sum of a weight of the program counters. -/
def total (w : κ → ℕ) (pc : ι → κ) : ℕ := ∑ i, w (pc i)

/-- The number of threads whose program counter satisfies `p`. -/
def count (p : κ → Bool) (pc : ι → κ) : ℕ := total (fun k => (p k).toNat) pc

section Update

variable [DecidableEq ι]

theorem total_update (w : κ → ℕ) (pc : ι → κ) (i : ι) (k : κ) :
    total w (Function.update pc i k) + w (pc i) = total w pc + w k := by
  have hrest : ∑ j ∈ Finset.univ.erase i, w (Function.update pc i k j) =
      ∑ j ∈ Finset.univ.erase i, w (pc j) :=
    Finset.sum_congr rfl fun j hj => by rw [Function.update_of_ne (Finset.ne_of_mem_erase hj)]
  have hnew := Finset.add_sum_erase Finset.univ (fun j => w (Function.update pc i k j)) (Finset.mem_univ i)
  have hold := Finset.add_sum_erase Finset.univ (fun j => w (pc j)) (Finset.mem_univ i)
  simp only [Function.update_self, hrest] at hnew
  simp only [total]
  omega

theorem count_update (p : κ → Bool) (pc : ι → κ) (i : ι) (k : κ) :
    count p (Function.update pc i k) + (p (pc i)).toNat = count p pc + (p k).toNat :=
  total_update _ pc i k

end Update

theorem le_total (w : κ → ℕ) (pc : ι → κ) (i : ι) : w (pc i) ≤ total w pc :=
  Finset.single_le_sum (f := fun j => w (pc j)) (fun _ _ => Nat.zero_le _) (Finset.mem_univ i)

theorem total_mono {w w' : κ → ℕ} (h : ∀ k, w k ≤ w' k) (pc : ι → κ) : total w pc ≤ total w' pc :=
  Finset.sum_le_sum fun i _ => h (pc i)

theorem total_eq_zero {w : κ → ℕ} {pc : ι → κ} : total w pc = 0 ↔ ∀ i, w (pc i) = 0 := by
  simp [total]

theorem count_pos {p : κ → Bool} {pc : ι → κ} : 0 < count p pc ↔ ∃ i, p (pc i) = true := by
  rw [Nat.pos_iff_ne_zero, ne_eq, count, total_eq_zero, not_forall]
  simp

theorem count_eq_zero {p : κ → Bool} {pc : ι → κ} : count p pc = 0 ↔ ∀ i, p (pc i) = false := by
  simp [count, total_eq_zero]

end Transition.Threads
