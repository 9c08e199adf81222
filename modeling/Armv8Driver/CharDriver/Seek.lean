import Armv8Driver.CharDriver.Model

/-!
# `dev_lseek` and 64-bit sums

The range checks of `dev_lseek` come after additions that can wrap around. A sum that wraps is far
below zero, so it fails the check, and its exact value fails it too.
-/

namespace Armv8Driver.CharDriver

open Kernel

/-- Where a seek leads, over the unbounded integers. -/
def seekTarget (f_pos offset whence : Int) : Option Int :=
  if whence = SEEK_SET then some offset
  else if whence = SEEK_CUR then some (f_pos + offset)
  else if whence = SEEK_END then some (MAX_KERNEL_BUFFER + offset)
  else none

/-- The range check of `temp_pos`: a refused seek leaves `f_pos` alone. -/
def seekTo (f_pos temp_pos : Int) : Int × Int :=
  if temp_pos > MAX_KERNEL_BUFFER ∨ temp_pos < 0 then (-EINVAL, f_pos) else (temp_pos, temp_pos)

section Exact

variable {f_pos offset whence x : Int}

theorem seekTo_of_in (h : 0 ≤ x ∧ x ≤ 256) : seekTo f_pos x = (x, x) := by
  have hin : ¬ (x > MAX_KERNEL_BUFFER ∨ x < 0) := by
    unfold MAX_KERNEL_BUFFER
    omega
  rw [seekTo, if_neg hin]

theorem seekTo_of_out (h : ¬ (0 ≤ x ∧ x ≤ 256)) : seekTo f_pos x = (-EINVAL, f_pos) := by
  have hout : x > MAX_KERNEL_BUFFER ∨ x < 0 := by
    unfold MAX_KERNEL_BUFFER
    omega
  rw [seekTo, if_pos hout]

/-- The sum of a position and an offset overflows at the upper end only, to a negative value. -/
theorem s64_add_cases (hx : 0 ≤ x) (hx' : x < 2 ^ 63) (hlo : -2 ^ 63 ≤ offset) (hhi : offset < 2 ^ 63) :
    s64 (x + offset) = x + offset ∨ (256 < x + offset ∧ s64 (x + offset) < 0) := by
  unfold s64
  omega

theorem seekTo_s64_add (hx : 0 ≤ x) (hx' : x < 2 ^ 63) (hlo : -2 ^ 63 ≤ offset) (hhi : offset < 2 ^ 63) :
    seekTo f_pos (s64 (x + offset)) = seekTo f_pos (x + offset) := by
  rcases s64_add_cases hx hx' hlo hhi with hexact | ⟨hover, hneg⟩
  · rw [hexact]
  · rw [seekTo_of_out (by omega), seekTo_of_out (by omega)]

/-- A seek checks its exact target. -/
theorem dev_lseek_eq_seekTo (hpos : 0 ≤ f_pos) (hlt : f_pos < 2 ^ 63) (hlo : -2 ^ 63 ≤ offset) (hhi : offset < 2 ^ 63) :
    dev_lseek f_pos offset whence = (seekTarget f_pos offset whence).elim (-EINVAL, f_pos) (seekTo f_pos) := by
  have hcur := @seekTo_s64_add f_pos offset f_pos hpos hlt hlo hhi
  have hend := @seekTo_s64_add f_pos offset MAX_KERNEL_BUFFER (by decide) (by decide) hlo hhi
  unfold dev_lseek seekTarget
  by_cases hset : whence = SEEK_SET
  · rw [if_pos hset, if_pos hset]
    rfl
  · rw [if_neg hset, if_neg hset]
    by_cases hc : whence = SEEK_CUR
    · rw [if_pos hc, if_pos hc]
      exact hcur
    · rw [if_neg hc, if_neg hc]
      by_cases he : whence = SEEK_END
      · rw [if_pos he, if_pos he]
        exact hend
      · rw [if_neg he, if_neg he]
        rfl

end Exact

/-- The seek has a target in the buffer or at its end. -/
def Reaches (f_pos offset whence t : Int) : Prop :=
  seekTarget f_pos offset whence = some t ∧ 0 ≤ t ∧ t ≤ 256

/-- A seek succeeds exactly when its target over the unbounded integers is in range, and then goes
there. Any other seek fails in place. -/
theorem dev_lseek_exact (f_pos offset whence : Int) (hpos : 0 ≤ f_pos) (hlt : f_pos < 2 ^ 63) (hlo : -2 ^ 63 ≤ offset)
    (hhi : offset < 2 ^ 63) :
    (0 ≤ (dev_lseek f_pos offset whence).1 ↔ ∃ t, Reaches f_pos offset whence t) ∧
      (∀ t, Reaches f_pos offset whence t → dev_lseek f_pos offset whence = (t, t)) ∧
      ((¬ ∃ t, Reaches f_pos offset whence t) → dev_lseek f_pos offset whence = (-EINVAL, f_pos)) := by
  have hseek := @dev_lseek_eq_seekTo f_pos offset whence hpos hlt hlo hhi
  have hgo : ∀ t, Reaches f_pos offset whence t → dev_lseek f_pos offset whence = (t, t) := by
    rintro t ⟨htarget, hin⟩
    rw [htarget, Option.elim_some] at hseek
    rw [hseek, seekTo_of_in hin]
  have hstay : (¬ ∃ t, Reaches f_pos offset whence t) → dev_lseek f_pos offset whence = (-EINVAL, f_pos) := by
    intro hnone
    cases htarget : seekTarget f_pos offset whence with
    | none => rwa [htarget] at hseek
    | some t =>
      have hout : ¬ (0 ≤ t ∧ t ≤ 256) := fun hin => hnone ⟨t, htarget, hin⟩
      rw [htarget, Option.elim_some] at hseek
      rw [hseek, seekTo_of_out hout]
  refine ⟨⟨?_, ?_⟩, hgo, hstay⟩
  · intro hret
    by_contra hnone
    rw [hstay hnone] at hret
    have hneg : ¬ (0 : Int) ≤ -EINVAL := by decide
    exact hneg hret
  · rintro ⟨t, ht⟩
    rw [hgo t ht]
    exact ht.2.1

/-- From the last representable position, one byte further wraps around and is refused. -/
theorem dev_lseek_exact_wraps :
    (¬ ∃ t, Reaches (2 ^ 63 - 1) 1 SEEK_CUR t) ∧ dev_lseek (2 ^ 63 - 1) 1 SEEK_CUR = (-EINVAL, 2 ^ 63 - 1) := by
  have hnone : ¬ ∃ t, Reaches (2 ^ 63 - 1) 1 SEEK_CUR t := by
    rintro ⟨t, htarget, -, hle⟩
    have ht : (2 ^ 63 - 1 + 1 : Int) = t := Option.some_inj.mp htarget
    omega
  have hexact := dev_lseek_exact (2 ^ 63 - 1) 1 SEEK_CUR (by decide) (by decide) (by decide) (by decide)
  exact ⟨hnone, hexact.2.2 hnone⟩

end Armv8Driver.CharDriver
