import Armv8Driver.CharDriver.Model

/-!
# Which calls stay inside `kernel_buffer`

The clamp of `dev_read` and `dev_write` leaves an end offset in `read_bytes` when the transfer does not
reach the end of the buffer, and the copy takes it as a length. So the copy covers the indices from
`pos` to `2 * pos + count`, and it stays in the buffer exactly when that sum does.
-/

namespace Armv8Driver.CharDriver

open Kernel Transition

variable {pos : Int} {count uncopied : Nat} {mem : Memory} {buff : Nat → Byte} {s : State} {f : Nat}

/-- The three outcomes of the clamp: the end offset, the length up to the end of the buffer, and a
value the driver refuses. -/
theorem transfer_bytes_cases (hpos : 0 ≤ pos) (hlt : pos < 2 ^ 63) (hcount : count ≤ MAX_RW_COUNT) :
    (pos + count ≤ 256 ∧ transfer_bytes pos count = pos + count) ∨
    (256 < pos + count ∧ pos < 256 ∧ transfer_bytes pos count = 256 - pos) ∨
    (256 < pos + count ∧ 256 ≤ pos ∧ transfer_bytes pos count ≤ 0) := by
  have hsmall : (count : Int) < 2 ^ 32 := by
    have : count < 2 ^ 32 := Nat.lt_of_le_of_lt hcount (by decide)
    omega
  have hsum : s64 (u64 (pos + count)) = if pos + count < 2 ^ 63 then pos + count else pos + count - 2 ^ 64 := by
    simp only [s64, u64]
    split_ifs <;> omega
  have hdiff : s64 (256 - pos) = 256 - pos := by
    simp only [s64]
    omega
  simp only [transfer_bytes, MAX_KERNEL_BUFFER, hsum, hdiff]
  split_ifs <;> omega

theorem dev_read_size : (dev_read mem pos count uncopied).size = (transfer_bytes pos count).toNat := by
  simp only [dev_read]
  split_ifs with h
  · exact (Int.toNat_of_nonpos (by omega)).symm
  · rfl

theorem dev_write_size :
    (dev_write mem pos buff count uncopied).1.size = (transfer_bytes pos count).toNat := by
  simp only [dev_write]
  split_ifs with h
  · exact (Int.toNat_of_nonpos (by omega)).symm
  · rfl

/-- `dev_write` and `dev_read` move the position in the same way. -/
theorem dev_write_advance :
    s.advance f (dev_write mem pos buff count uncopied).1 = s.advance f (dev_read mem pos count uncopied) := by
  simp only [dev_write, dev_read]
  split_ifs <;> rfl

theorem dev_read_ret_nonneg (h : 0 ≤ (dev_read mem pos count uncopied).ret) :
    0 < transfer_bytes pos count ∧
      ∃ copied, 0 ≤ copied ∧ copied ≤ transfer_bytes pos count ∧
        (dev_read mem pos count uncopied).pos = s64 (pos + copied) := by
  simp only [dev_read] at h ⊢
  split_ifs at h ⊢ with hneg
  · have hneg' : 0 ≤ -ENOMEM := h
    exact absurd hneg' (by decide)
  · refine ⟨by omega, _, h, ?_, rfl⟩
    simp only
    omega

/-- Byte `i`, counted from `kernel_buffer`, is in the range that the call hands to the user copy. That range is the
access of the driver, whatever the copy leaves uncopied of it. -/
def Call.Touches (s : State) (c : Call) (i : Int) : Prop :=
  ∃ pos count, c.request s = some (pos, count) ∧ pos ≤ i ∧ i < pos + (syscall s c).1.size

/-- The call accesses the buffer only, and leaves every position in it. -/
def Call.InBounds (s : State) (c : Call) : Prop :=
  (∀ i, c.Touches s i → 0 ≤ i ∧ i < MAX_KERNEL_BUFFER) ∧ (syscall s c).2.PositionsIn

/-- A transfer that ends in the buffer also ends in it with the position added a second time. -/
def Call.Fits (s : State) (c : Call) : Prop :=
  ∀ pos count, c.request s = some (pos, count) →
    pos + count ≤ MAX_KERNEL_BUFFER → 2 * pos + count ≤ MAX_KERNEL_BUFFER

theorem syscall_size {c : Call} (hreq : c.request s = some (pos, count)) :
    (syscall s c).1.size = (transfer_bytes pos count).toNat := by
  cases c <;> cases hreq
  · exact dev_read_size
  · exact dev_write_size
  · exact dev_read_size
  · exact dev_write_size

theorem request_bounds {c : Call} (hs : s.PositionsIn) (hc : c.Valid) (hreq : c.request s = some (pos, count)) :
    0 ≤ pos ∧ pos < 2 ^ 63 ∧ count ≤ MAX_RW_COUNT := by
  cases c <;> cases hreq
  · rename_i f _
    have := hs f
    exact ⟨this.1, by unfold MAX_KERNEL_BUFFER at this; omega, hc⟩
  · rename_i f _ _
    have := hs f
    exact ⟨this.1, by unfold MAX_KERNEL_BUFFER at this; omega, hc⟩
  · exact hc
  · exact hc

theorem touches_iff_fits {c : Call} (hs : s.PositionsIn) (hc : c.Valid) :
    (∀ i, c.Touches s i → 0 ≤ i ∧ i < MAX_KERNEL_BUFFER) ↔ c.Fits s := by
  constructor
  · intro htouch pos count hreq hend
    obtain ⟨hpos, hlt, hcount⟩ := request_bounds hs hc hreq
    by_contra hover
    have hbytes : transfer_bytes pos count = pos + count := by
      rcases transfer_bytes_cases hpos hlt hcount with h | h | h
      · exact h.2
      · exact absurd hend (by unfold MAX_KERNEL_BUFFER; omega)
      · exact absurd hend (by unfold MAX_KERNEL_BUFFER; omega)
    have hlast := htouch (2 * pos + count - 1)
      ⟨pos, count, hreq, by unfold MAX_KERNEL_BUFFER at *; omega, by rw [syscall_size hreq, hbytes]; omega⟩
    omega
  · rintro hfits i ⟨pos, count, hreq, hfirst, hlast⟩
    obtain ⟨hpos, hlt, hcount⟩ := request_bounds hs hc hreq
    have hend := hfits pos count hreq
    rw [syscall_size hreq] at hlast
    unfold MAX_KERNEL_BUFFER at *
    rcases transfer_bytes_cases hpos hlt hcount with h | h | h <;> omega

/-- A read or a write that fits leaves the file's position in the buffer. -/
theorem advance_positionsIn (hs : s.PositionsIn) (hcount : count ≤ MAX_RW_COUNT)
    (hfits : s.f_pos f + count ≤ MAX_KERNEL_BUFFER → 2 * s.f_pos f + count ≤ MAX_KERNEL_BUFFER) (g : Nat) :
    0 ≤ s.advance f (dev_read mem (s.f_pos f) count uncopied) g ∧
      s.advance f (dev_read mem (s.f_pos f) count uncopied) g ≤ MAX_KERNEL_BUFFER := by
  unfold State.advance
  split_ifs with hret
  · obtain ⟨hbytes, copied, hnonneg, hle, hnew⟩ := dev_read_ret_nonneg hret
    by_cases hg : g = f
    · subst hg
      rw [Function.update_self, hnew]
      have hf := hs g
      unfold MAX_KERNEL_BUFFER s64 at *
      rcases transfer_bytes_cases hf.1 (by omega) hcount with h | h | h <;> omega
    · rw [Function.update_of_ne hg]
      exact hs g
  · exact hs g

theorem dev_lseek_bounds {f_pos offset whence : Int} (h : 0 ≤ f_pos ∧ f_pos ≤ MAX_KERNEL_BUFFER) :
    0 ≤ (dev_lseek f_pos offset whence).2 ∧ (dev_lseek f_pos offset whence).2 ≤ MAX_KERNEL_BUFFER := by
  simp only [dev_lseek]
  split_ifs <;> first | exact h | (constructor <;> dsimp only <;> omega)

theorem syscall_positionsIn {c : Call} (hs : s.PositionsIn) (hc : c.Valid) (hfits : c.Fits s) :
    (syscall s c).2.PositionsIn := by
  intro g
  cases c with
  | lseek f offset whence =>
    by_cases hg : g = f
    · subst hg
      simpa [syscall] using dev_lseek_bounds (hs g)
    · simpa [syscall, hg] using hs g
  | read f count uncopied => exact advance_positionsIn hs hc (hfits _ _ rfl) g
  | write f buff count uncopied =>
    have hread := @advance_positionsIn count uncopied s.mem s f hs hc (hfits _ _ rfl) g
    rw [← @dev_write_advance (s.f_pos f) count uncopied s.mem buff s f] at hread
    exact hread
  | pread => exact hs g
  | pwrite => exact hs g

theorem call_inBounds_iff {c : Call} (hs : s.PositionsIn) (hc : c.Valid) : c.InBounds s ↔ c.Fits s := by
  constructor
  · intro h
    exact (touches_iff_fits hs hc).mp h.1
  · intro h
    exact ⟨(touches_iff_fits hs hc).mpr h, syscall_positionsIn hs hc h⟩

/-- A run touches only `kernel_buffer` and keeps every position in it, exactly when every call fits. -/
theorem run_inBounds_iff (s : State) (calls : List Call) (hs : s.Initial) (hcalls : ∀ c ∈ calls, c.Valid) :
    driver.Along (fun s c => c.InBounds s) s calls ↔ driver.Along (fun s c => c.Fits s) s calls := by
  apply System.Along.congr (I := State.PositionsIn)
  · intro s hs c hc
    exact call_inBounds_iff hs (hcalls c hc)
  · intro s hs c hc hfits t ht
    cases ht
    exact syscall_positionsIn hs (hcalls c hc) hfits
  · exact hs.1

/-- The driver just loaded, with every file at position 0. -/
def fresh : State := ⟨fun _ => 0, fun _ => 0⟩

theorem fresh_initial : fresh.Initial :=
  ⟨fun _ => ⟨by simp [fresh], by simp [fresh, MAX_KERNEL_BUFFER]⟩, fun _ _ _ => rfl⟩

/-- Ten bytes written at position 200. -/
def overrun : List Call := [.lseek 0 200 SEEK_SET, .write 0 (fun _ => 65) 10 0]

theorem overrun_valid : ∀ c ∈ overrun, c.Valid := by
  intro c hc
  simp only [overrun, List.mem_cons, List.not_mem_nil, or_false] at hc
  rcases hc with rfl | rfl <;> simp [Call.Valid, MAX_RW_COUNT]

theorem overrun_leaves_buffer :
    fresh.Initial ∧ (∀ c ∈ overrun, c.Valid) ∧ ¬ driver.Along (fun s c => c.InBounds s) fresh overrun := by
  refine ⟨fresh_initial, overrun_valid, ?_⟩
  rintro ⟨hseek, hrest⟩
  obtain ⟨hwrite, -⟩ := hrest _ rfl
  have hfits := (touches_iff_fits hseek.2 (overrun_valid _ (by simp [overrun]))).mp hwrite.1
  exact absurd (hfits 200 10 rfl (by decide)) (by decide)

theorem overrun_inBounds_iff :
    driver.Along (fun s c => c.InBounds s) fresh overrun ↔ driver.Along (fun s c => c.Fits s) fresh overrun :=
  run_inBounds_iff fresh overrun fresh_initial overrun_valid

end Armv8Driver.CharDriver
