import Mathlib.Order.Interval.Finset.Nat
import Mathlib.Order.Nat
import Mathlib.Data.Nat.Count

/-!
# The latest position of a kind

A scan that looks at the positions one after another and passes over those that are not of its kind
compares a position with the latest one before it, not with its neighbour. `Nat.count` numbers the
positions of the kind.
-/

namespace Transition

variable {P : ℕ → Prop} {n i j m : ℕ}

/-- Position `i` is the last one below `n` where `P` holds. -/
structure Latest (P : ℕ → Prop) (n i : ℕ) : Prop where
  lt : i < n
  holds : P i
  none_after : ∀ k, i < k → k < n → ¬ P k

/-- Whatever lies between two positions of the kind is of the kind. -/
def Gapless (P : ℕ → Prop) (n : ℕ) : Prop := ∀ i j k, i < j → j < k → k < n → P i → P k → P j

theorem Latest.unique (hi : Latest P n i) (hj : Latest P n j) : i = j := by
  rcases Nat.lt_trichotomy i j with hlt | heq | hlt
  · exact absurd hj.holds (hi.none_after j hlt hj.lt)
  · exact heq
  · exact absurd hi.holds (hj.none_after i hlt hi.lt)

theorem Latest.succ_of_not (h : Latest P n i) (hn : ¬ P n) : Latest P (n + 1) i := by
  refine ⟨Nat.lt_succ_of_lt h.lt, h.holds, fun k hik hk => ?_⟩
  rcases Nat.lt_succ_iff_lt_or_eq.mp hk with hlt | rfl
  · exact h.none_after k hik hlt
  · exact hn

theorem latest_succ (h : P n) : Latest P (n + 1) n := by
  refine ⟨Nat.lt_succ_self n, h, fun k hlt hk => ?_⟩
  omega

theorem gapless_congr {Q : ℕ → Prop} (h : ∀ i, i < n → (P i ↔ Q i)) : Gapless P n ↔ Gapless Q n := by
  constructor
  · intro hP i j k hij hjk hk hi hQ
    exact (h j (hjk.trans hk)).mp (hP i j k hij hjk hk ((h i ((hij.trans hjk).trans hk)).mpr hi) ((h k hk).mpr hQ))
  · intro hQ i j k hij hjk hk hi hP
    exact (h j (hjk.trans hk)).mpr (hQ i j k hij hjk hk ((h i ((hij.trans hjk).trans hk)).mp hi) ((h k hk).mp hP))

/-- The latest position of the kind is the neighbour where there are no gaps. -/
theorem Latest.eq_of_gapless (h : Latest P j i) (hgapless : Gapless P n) (hj : j < n) (hP : P j) : j = i + 1 := by
  have hlt := h.lt
  by_contra hfar
  have hnext : P (i + 1) := hgapless i (i + 1) j (Nat.lt_succ_self i) (by omega) hj h.holds hP
  exact h.none_after (i + 1) (Nat.lt_succ_self i) (by omega) hnext

variable [DecidablePred P]

theorem Latest.count (h : Latest P n i) : Nat.count P n = Nat.count P i + 1 := by
  induction n with
  | zero => exact absurd h.lt (Nat.not_lt_zero i)
  | succ n ih =>
    by_cases hlast : i = n
    · subst hlast
      rw [Nat.count_succ, if_pos h.holds]
    · have hlt := h.lt
      have hnot : ¬ P n := h.none_after n (by omega) (Nat.lt_succ_self n)
      have hbelow : Latest P n i := ⟨by omega, h.holds, fun k hik hk => h.none_after k hik (by omega)⟩
      rw [Nat.count_succ, if_neg hnot, Nat.add_zero, ih hbelow]

theorem exists_latest (h : 0 < Nat.count P n) : ∃ i, Latest P n i := by
  induction n with
  | zero => exact absurd h (by simp)
  | succ n ih =>
    by_cases hn : P n
    · exact ⟨n, latest_succ hn⟩
    · rw [Nat.count_succ, if_neg hn, Nat.add_zero] at h
      obtain ⟨i, hi⟩ := ih h
      exact ⟨i, hi.succ_of_not hn⟩

theorem exists_latest_of_lt (hij : i < j) (hi : P i) : ∃ k, Latest P j k ∧ i ≤ k := by
  have hpos : 0 < Nat.count P j := Nat.lt_of_le_of_lt (Nat.zero_le _) (Nat.count_strict_mono hi hij)
  obtain ⟨k, hk⟩ := exists_latest hpos
  refine ⟨k, hk, ?_⟩
  by_contra hlt
  exact hk.none_after i (by omega) hij hi

theorem count_congr {Q : ℕ → Prop} [DecidablePred Q] (h : ∀ i, i < n → (P i ↔ Q i)) :
    Nat.count P n = Nat.count Q n :=
  Nat.le_antisymm (Nat.count_mono_left fun i hi => (h i hi).mp) (Nat.count_mono_left fun i hi => (h i hi).mpr)

/-- Every number below the count is that of a position. -/
theorem exists_count_eq (h : m < Nat.count P n) : ∃ j, j < n ∧ P j ∧ Nat.count P j = m := by
  induction n with
  | zero => exact absurd h (by simp)
  | succ n ih =>
    by_cases hbelow : m < Nat.count P n
    · obtain ⟨j, hj, hP, hcount⟩ := ih hbelow
      exact ⟨j, Nat.lt_succ_of_lt hj, hP, hcount⟩
    · rw [Nat.count_succ] at h
      split_ifs at h with hn
      · exact ⟨n, Nat.lt_succ_self n, hn, by omega⟩
      · omega

/-- There are as many positions of the kind from one to another as there are positions exactly if all are. -/
theorem count_add_sub_iff (hij : i ≤ j) :
    Nat.count P j = Nat.count P i + (j - i) ↔ ∀ k, i ≤ k → k < j → P k := by
  induction j, hij using Nat.le_induction with
  | base => exact iff_of_true (by simp) fun k hik hk => absurd hk (by omega)
  | succ j hij ih =>
    have hle : Nat.count P j ≤ Nat.count P i + (j - i) := by
      have hbound := Nat.count_add P i (j - i)
      have hsub := Nat.count_le (p := fun k => P (i + k)) (n := j - i)
      rw [Nat.add_sub_cancel' hij] at hbound
      omega
    rw [Nat.count_succ]
    constructor
    · intro h k hik hk
      split_ifs at h with hj
      · rcases Nat.lt_succ_iff_lt_or_eq.mp hk with hlt | rfl
        · exact ih.mp (by omega) k hik hlt
        · exact hj
      · omega
    · intro h
      have hall := ih.mpr fun k hik hk => h k hik (by omega)
      rw [if_pos (h j hij (Nat.lt_succ_self j))]
      omega

end Transition
