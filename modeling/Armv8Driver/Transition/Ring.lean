import Mathlib.Logic.Function.Basic
import Mathlib.Logic.Function.Iterate
import Mathlib.Data.Fin.Basic

/-!
# Ring buffers

An array of `n` slots that holds a window of an unbounded sequence: item `k` goes to slot `k % n`. The
window is the items from `first` to `last`, and it is intact as long as it has at most `n` items.
-/

namespace Transition.Ring

variable {α : Type*} {n : ℕ} {ring : Fin n → α} {item : ℕ → α} {first last k : ℕ}

/-- The slot of item `k`. -/
def slot (hn : 0 < n) (k : ℕ) : Fin n := ⟨k % n, Nat.mod_lt k hn⟩

/-- The slot after a slot. -/
def next (i : Fin n) : Fin n := ⟨(i + 1) % n, Nat.mod_lt _ (Nat.zero_lt_of_lt i.isLt)⟩

theorem next_slot (hn : 0 < n) (k : ℕ) : next (slot hn k) = slot hn (k + 1) := by
  apply Fin.ext
  simp only [next, slot, Nat.mod_add_mod]

theorem iterate_next_slot (hn : 0 < n) (j k : ℕ) : next^[j] (slot hn k) = slot hn (k + j) := by
  induction j generalizing k with
  | zero => rfl
  | succ j ih => rw [Function.iterate_succ_apply, next_slot, ih, Nat.succ_add_eq_add_succ]

/-- Two items less than `n` apart have different slots. -/
theorem slot_ne (hn : 0 < n) {j : ℕ} (hlt : k < j) (hwin : j < k + n) : slot hn j ≠ slot hn k := by
  intro h
  have hmod : j % n = k % n := congrArg Fin.val h
  have hdvd : n ∣ j - k := Nat.dvd_of_mod_eq_zero (Nat.sub_mod_eq_zero_of_mod_eq hmod)
  have hle := Nat.le_of_dvd (by omega) hdvd
  omega

/-- The ring holds the items from `first` to `last`. -/
def Holds (hn : 0 < n) (item : ℕ → α) (ring : Fin n → α) (first last : ℕ) : Prop :=
  ∀ k, first ≤ k → k < last → ring (slot hn k) = item k

theorem Holds.empty (hn : 0 < n) : Holds hn item ring first first := by
  intro k hle hlt
  omega

/-- Writing the next item overwrites none that is held, if there is room. -/
theorem Holds.put {hn : 0 < n} (h : Holds hn item ring first last) (hroom : last < first + n) :
    Holds hn item (Function.update ring (slot hn last) (item last)) first (last + 1) := by
  intro k hle hlt
  by_cases hk : k = last
  · rw [hk, Function.update_self]
  · rw [Function.update_of_ne (slot_ne hn (by omega) (by omega)).symm]
    exact h k hle (by omega)

theorem Holds.take {hn : 0 < n} (h : Holds hn item ring first last) : Holds hn item ring (first + 1) last :=
  fun k hle hlt => h k (by omega) hlt

/-- The oldest item is in its slot. -/
theorem Holds.head {hn : 0 < n} (h : Holds hn item ring first last) (hlt : first < last) :
    ring (slot hn first) = item first :=
  h first (Nat.le_refl first) hlt

end Transition.Ring
