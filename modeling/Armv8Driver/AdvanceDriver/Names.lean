import Armv8Driver.AdvanceDriver.Unwind

/-!
# The names of the devices

`device_create` takes a format and its arguments. The driver passes the prefix of the names as the
format, and `"%d"` and the number as arguments, which the prefix does not ask for. So each device gets
the same name, and the class refuses the second one.
-/

namespace Armv8Driver.AdvanceDriver

open Kernel

variable {N : Nat} {k : Environment N} {i : Nat}

/-- The error for a name that the class has. -/
def eexist : ErrorCode := ⟨-EEXIST, by decide⟩

/-- Every call succeeds, but for `device_create` with a name that the class has. -/
structure Environment.NoFailure (k : Environment N) : Prop where
  region : k.alloc_chrdev_region = none
  dvcClass : k.class_create = none
  cdev : ∀ i, k.cdev_add i = none
  device : ∀ devices d, k.device_create devices d = if d.name ∈ devices.map Device.name then some eexist else none

/-- The load succeeds, with `N` devices of different names and different numbers of the region. -/
structure Registers (k : Environment N) : Prop where
  ret : (dev_driver_init k initial).1 = 0
  count : (dev_driver_init k initial).2.devices.length = N
  names : ((dev_driver_init k initial).2.devices.map Device.name).Nodup
  devts : ((dev_driver_init k initial).2.devices.map Device.devt).Nodup
  inRegion : ∀ d ∈ (dev_driver_init k initial).2.devices,
    k.region.first.toNat ≤ d.devt.toNat ∧ d.devt.toNat < k.region.first.toNat + N

/-- The number of a device does not get into its name. -/
theorem dvcDevice_name (dvc_number : Dev) (itr : Nat) : (dvcDevice dvc_number itr).name = drv_dvc_name_prf :=
  format_of_no_conversion (by decide)

/-- Iteration 0 succeeds. -/
theorem Environment.NoFailure.passes_zero (h : k.NoFailure) : k.Passes 0 := by
  refine ⟨h.cdev 0, ?_⟩
  rw [h.device, created_devices, if_neg]
  exact List.not_mem_nil

/-- Iteration 1 finds its name taken. -/
theorem Environment.NoFailure.second_fails (h : k.NoFailure) (hN : 1 < N) : k.DeviceFails 1 eexist := by
  refine ⟨⟨h.region, h.dvcClass, hN, ?_⟩, h.cdev 1, ?_⟩
  · intro j hj
    have hzero : j = 0 := by omega
    rw [hzero]
    exact h.passes_zero
  · have hname : (dvcDevice k.region.first 1).name ∈ (created k 1).devices.map Device.name := by
      rw [dvcDevice_name, ← dvcDevice_name k.region.first 0]
      exact List.mem_cons_self
    rw [h.device, if_pos hname]

/-- A load that returns 0 has been through the loop. -/
theorem Outcome.done_of_ret {out : Int × State} (h : Outcome k out) (hret : out.1 = 0) :
    (∀ j < N, k.Passes j) ∧ out.2 = created k N := by
  cases h with
  | noRegion e h => exact absurd hret (ret_ne_zero e)
  | noClass e hregion h => exact absurd hret (ret_ne_zero e)
  | noCdev i e h => exact absurd hret (ret_ne_zero e)
  | noDevice i e h => exact absurd hret (ret_ne_zero e)
  | done hregion hclass h => exact ⟨h, rfl⟩

/-- Where every iteration succeeds the load returns 0. -/
theorem Outcome.ret_of_passes {out : Int × State} (h : Outcome k out) (hregion : k.alloc_chrdev_region = none)
    (hclass : k.class_create = none) (hpass : ∀ j < N, k.Passes j) : out = (0, created k N) := by
  cases h with
  | noRegion e h =>
    rw [hregion] at h
    cases h
  | noClass e _ h =>
    rw [hclass] at h
    cases h
  | noCdev i e h => exact absurd (hpass i h.lt) h.not_passes
  | noDevice i e h => exact absurd (hpass i h.lt) h.not_passes
  | done => rfl

/-- Without a failed allocation the driver registers its devices exactly if there is one. -/
theorem registers_iff (k : Environment N) (hN : 1 ≤ N) (h : k.NoFailure) : Registers k ↔ N = 1 := by
  have hout := dev_driver_init_outcome k
  constructor
  · intro hreg
    by_contra hone
    have hsecond := h.second_fails (by omega)
    exact hsecond.not_passes ((hout.done_of_ret hreg.ret).1 1 hsecond.lt)
  · rintro rfl
    have hinit := hout.ret_of_passes h.region h.dvcClass fun j hj => by
      have hzero : j = 0 := by omega
      rw [hzero]
      exact h.passes_zero
    have hdevices : (dev_driver_init k initial).2.devices = [dvcDevice k.region.first 0] := by
      rw [hinit]
      rfl
    refine ⟨by rw [hinit], by rw [hdevices]; rfl, by rw [hdevices]; simp, by rw [hdevices]; simp, ?_⟩
    intro d hd
    rw [hdevices, List.mem_singleton] at hd
    have hdevt : d.devt = k.region.first := by
      rw [hd]
      exact BitVec.add_zero _
    rw [hdevt]
    omega

/-- A kernel in which nothing fails but a second device of one name. -/
def answering (N : Nat) (h : N ≤ 2 ^ 20) : Environment N where
  region := majorRegion N h
  alloc_chrdev_region := none
  class_create := none
  cdev_add _ := none
  device_create devices d := if d.name ∈ devices.map Device.name then some eexist else none

theorem answering_noFailure {h : N ≤ 2 ^ 20} : (answering N h).NoFailure := ⟨rfl, rfl, fun _ => rfl, fun _ _ => rfl⟩

theorem oneDevice_registers : Registers (answering 1 (by decide)) :=
  (registers_iff _ (by decide) answering_noFailure).mpr rfl

/-- The load fails with the three devices of the driver. -/
theorem threeDevices_not_registered : (answering 3 (by decide)).NoFailure ∧ ¬ Registers (answering 3 (by decide)) := by
  refine ⟨answering_noFailure, fun hreg => ?_⟩
  exact absurd hreg.ret (by decide)

end Armv8Driver.AdvanceDriver
