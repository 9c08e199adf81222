import Armv8Driver.CharDriver.Bounds

/-!
# User copies that stop early

A user copy can leave the last bytes of a transfer uncopied. The driver takes what was not copied off
`read_bytes` or `write_bytes`, where a transfer that ends inside the buffer has its end offset and not
its length. So the result counts the position too, and a copy that moves nothing reports the position.
-/

namespace Armv8Driver.CharDriver

open Kernel

/-- What a transfer of `n` bytes at `p` reports when `r` of them are not copied. -/
structure PartialCopy (p n r : Nat) (out : Transfer) : Prop where
  some_copied : r < n → out.ret = n - r ∧ out.pos = p + (n - r)
  none_copied : r = n → out.ret < 0 ∧ out.pos = p

/-- A read at `p` that reports what was copied, and changes no kernel memory. -/
structure ReadsPartly (s : State) (p n r : Nat) : Prop where
  reported : PartialCopy p n r (dev_read s.mem p n r)
  unchanged : (syscall s (.pread p n r)).2.mem = s.mem

/-- A write at `p` that reports what was copied, and changes no other byte of the buffer. -/
structure WritesPartly (s : State) (p : Nat) (buff : Nat → Byte) (n r : Nat) : Prop where
  reported : PartialCopy p n r (dev_write s.mem p buff n r).1
  unchanged : ∀ i, 0 ≤ i → i < MAX_KERNEL_BUFFER → ¬ ((p : Int) ≤ i ∧ i < p + (n - r)) →
    (dev_write s.mem p buff n r).2 i = s.mem i

variable {s : State} {p n r : Nat} {buff : Nat → Byte} {mem : Memory}

/-- A transfer that ends in the buffer has its end offset for a length. -/
theorem transfer_bytes_inside (hend : p + n ≤ 256) : transfer_bytes p n = p + n := by
  have hcount : n ≤ MAX_RW_COUNT := by
    unfold MAX_RW_COUNT
    omega
  rcases @transfer_bytes_cases p n (by omega) (by omega) hcount with h | h | h
  · exact h.2
  · omega
  · omega

theorem dev_read_inside (hn : 1 ≤ n) (hend : p + n ≤ 256) (hr : r ≤ n) :
    (dev_read mem p n r).ret = p + n - r ∧ (dev_read mem p n r).pos = p + (p + n - r) := by
  have hnonneg : ¬ ((p : Int) + n < 0 ∨ (p : Int) + n = 0) := by omega
  have hmin : min r ((p : Int) + n).toNat = r := by omega
  simp only [dev_read, transfer_bytes_inside hend, if_neg hnonneg, hmin]
  refine ⟨trivial, ?_⟩
  unfold s64
  omega

theorem dev_write_inside (hn : 1 ≤ n) (hend : p + n ≤ 256) (hr : r ≤ n) :
    (dev_write mem p buff n r).1.ret = p + n - r ∧ (dev_write mem p buff n r).1.pos = p + (p + n - r) ∧
      (dev_write mem p buff n r).2 = copy_from_user mem p buff (p + n) r := by
  have hnonneg : ¬ ((p : Int) + n < 0 ∨ (p : Int) + n = 0) := by omega
  have hmin : min r ((p : Int) + n).toNat = r := by omega
  have hlen : ((p : Int) + n).toNat = p + n := by omega
  simp only [dev_write, transfer_bytes_inside hend, if_neg hnonneg, hmin]
  refine ⟨trivial, ?_, by rw [hlen]⟩
  unfold s64
  omega

/-- The position counts twice, so the report is right at position 0 only, and never when nothing was
copied. -/
theorem partialCopy_iff {out : Transfer} (hr : r ≤ n) (hret : out.ret = p + n - r) (hpos : out.pos = p + (p + n - r)) :
    PartialCopy p n r out ↔ p = 0 ∧ r < n := by
  constructor
  · intro h
    by_cases hlt : r < n
    · have hcopied := h.some_copied hlt
      omega
    · have hfail := h.none_copied (by omega)
      omega
  · rintro ⟨hp, hlt⟩
    refine ⟨fun _ => ?_, fun hall => ?_⟩
    · rw [hret, hpos, hp]
      omega
    · omega

theorem readsPartly_iff (hn : 1 ≤ n) (hend : p + n ≤ 256) (hr : r ≤ n) : ReadsPartly s p n r ↔ p = 0 ∧ r < n := by
  obtain ⟨hret, hpos⟩ := @dev_read_inside p n r s.mem hn hend hr
  have hreport := partialCopy_iff hr hret hpos
  constructor
  · intro h
    exact hreport.mp h.reported
  · intro h
    exact ⟨hreport.mpr h, rfl⟩

/-- Started at the first byte, the copy changes the copied bytes and zeroes the tail. -/
theorem copy_from_user_tail (hn : n ≤ 256) (hr : r ≤ n) :
    (∀ i, 0 ≤ i → i < MAX_KERNEL_BUFFER → ¬ (0 ≤ i ∧ i < (n : Int) - r) → copy_from_user mem 0 buff n r i = mem i) ↔
      ∀ i, (n : Int) - r ≤ i → i < n → mem i = 0 := by
  have htail : ∀ i, (n : Int) - r ≤ i → i < n → copy_from_user mem 0 buff n r i = 0 := by
    intro i hlo hhi
    have hin : 0 ≤ i ∧ i < 0 + (n : Int) := by omega
    have hnot : ¬ i < 0 + (n : Int) - r := by omega
    simp only [copy_from_user, if_pos hin, if_neg hnot]
  constructor
  · intro hsame i hlo hhi
    rw [← hsame i (by omega) (by unfold MAX_KERNEL_BUFFER; omega) (by omega)]
    exact htail i hlo hhi
  · intro hzero i hi _ hout
    by_cases hhi : i < n
    · rw [htail i (by omega) hhi, hzero i (by omega) hhi]
    · have hpast : ¬ (0 ≤ i ∧ i < 0 + (n : Int)) := by omega
      simp only [copy_from_user, if_neg hpast]

theorem writesPartly_iff (hn : 1 ≤ n) (hend : p + n ≤ 256) (hr : r ≤ n) :
    WritesPartly s p buff n r ↔ (p = 0 ∧ r < n) ∧ ∀ i, (n : Int) - r ≤ i → i < n → s.mem i = 0 := by
  obtain ⟨hret, hpos, hmem⟩ := @dev_write_inside p n r buff s.mem hn hend hr
  have hreport := partialCopy_iff hr hret hpos
  constructor
  · intro h
    obtain ⟨hp, hlt⟩ := hreport.mp h.reported
    refine ⟨⟨hp, hlt⟩, (@copy_from_user_tail n r buff s.mem (by omega) hr).mp ?_⟩
    intro i hi hi' hout
    have hsame := h.unchanged i hi hi' (by omega)
    rw [hmem, hp] at hsame
    simpa using hsame
  · rintro ⟨⟨hp, hlt⟩, hzero⟩
    refine ⟨hreport.mpr ⟨hp, hlt⟩, ?_⟩
    intro i hi hi' hout
    have hsame := (@copy_from_user_tail n r buff s.mem (by omega) hr).mpr hzero i hi hi' (by omega)
    rw [hmem, hp]
    simpa using hsame

/-- A partial copy is reported as it happened at position 0 and with a byte copied, and a write then
leaves the rest of the buffer alone exactly when the tail it zeroes held zeros. -/
theorem partial_copies_iff (s : State) (p n r : Nat) (buff : Nat → Byte) (hn : 1 ≤ n) (hend : p + n ≤ 256) (hr : r ≤ n) :
    (ReadsPartly s p n r ↔ p = 0 ∧ r < n) ∧
      (WritesPartly s p buff n r ↔ (p = 0 ∧ r < n) ∧ ∀ i, (n : Int) - r ≤ i → i < n → s.mem i = 0) :=
  ⟨readsPartly_iff hn hend hr, writesPartly_iff hn hend hr⟩

/-- Three of ten bytes at the start of the buffer are not copied. -/
theorem partial_copies_at_start :
    ReadsPartly fresh 0 10 3 ∧ WritesPartly fresh 0 (fun _ => 65) 10 3 := by
  have hiff := partial_copies_iff fresh 0 10 3 (fun _ => 65) (by decide) (by decide) (by decide)
  have hreport : 0 = 0 ∧ 3 < 10 := by decide
  exact ⟨hiff.1.mpr hreport, hiff.2.mpr ⟨hreport, fun _ _ _ => rfl⟩⟩

/-- A copy at position 4 that moves none of the ten bytes is reported as four bytes. -/
theorem faulting_copy_reported : ¬ ReadsPartly fresh 4 10 10 ∧ ¬ WritesPartly fresh 4 (fun _ => 65) 10 10 := by
  constructor
  · intro h
    exact absurd (h.reported.none_copied rfl).1 (by decide)
  · intro h
    exact absurd (h.reported.none_copied rfl).1 (by decide)

end Armv8Driver.CharDriver
