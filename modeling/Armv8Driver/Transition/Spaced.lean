import Mathlib.Data.List.Chain

/-!
# Times that keep a distance

A first time and those that follow it, each at least `d` behind the one before.
-/

namespace Transition

def Spaced (d first : ℕ) (times : List ℕ) : Prop := (first :: times).IsChain fun a b => a + d ≤ b

variable {d first t : ℕ} {times : List ℕ}

theorem Spaced.nil : Spaced d first [] := List.isChain_singleton first

theorem Spaced.concat (h : Spaced d first times) (ht : times.getLastD first + d ≤ t) :
    Spaced d first (times ++ [t]) := by
  induction times generalizing first with
  | nil => exact List.isChain_cons_cons.mpr ⟨ht, List.isChain_singleton t⟩
  | cons u times ih =>
    obtain ⟨hu, hrest⟩ := List.isChain_cons_cons.mp h
    rw [List.getLastD_cons] at ht
    exact List.isChain_cons_cons.mpr ⟨hu, ih hrest ht⟩

theorem Spaced.length_mul_le (h : Spaced d first times) : first + times.length * d ≤ times.getLastD first := by
  induction times generalizing first with
  | nil => simp
  | cons u times ih =>
    obtain ⟨hu, hrest⟩ := List.isChain_cons_cons.mp h
    have hlast := ih hrest
    rw [List.getLastD_cons, List.length_cons, Nat.succ_mul]
    omega

theorem Spaced.le_getElem {k : ℕ} (h : Spaced d first times) (hk : times[k]? = some t) : first + (k + 1) * d ≤ t := by
  induction times generalizing first k with
  | nil => cases hk
  | cons u times ih =>
    obtain ⟨hu, hrest⟩ := List.isChain_cons_cons.mp h
    cases k with
    | zero =>
      cases hk
      omega
    | succ k =>
      have hlast := ih hrest hk
      rw [Nat.succ_mul]
      omega

end Transition
