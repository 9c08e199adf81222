import Armv8Driver.AdvanceDriver.Model
import Mathlib.Data.List.Perm.Basic

/-!
# What a failed load leaves behind

The unwinding under `cdev_deinit` releases what the loop has acquired, in the opposite order. A failure
of `cdev_add` goes past it to `class_deinit`, so the devices of the iterations before stay.
-/

namespace Armv8Driver.AdvanceDriver

open Kernel

variable {N : Nat} {k : Environment N} {s : State} {i n : Nat}

/-! ### The log of the loop -/

/-- The resources of the iterations below `n`. -/
def deviceResources (first : Dev) (n : Nat) : List Resource :=
  (List.range n).flatMap fun j => [.cdev j, .device (first + BitVec.ofNat 32 j)]

/-- All the resources of a load that has been through `n` iterations. -/
def resources (first : Dev) (n : Nat) : List Resource := [.region, .dvcClass] ++ deviceResources first n

theorem deviceResources_succ (first : Dev) (n : Nat) :
    deviceResources first (n + 1) = deviceResources first n ++ [.cdev n, .device (first + BitVec.ofNat 32 n)] := by
  rw [deviceResources, List.range_succ, List.flatMap_append, List.flatMap_singleton]
  rfl

theorem acquired_created :
    acquired (created k i).log = resources k.region.first i := by
  induction i with
  | zero => rfl
  | succ i ih =>
    show acquired ((created k i).log ++ _) = _
    rw [acquired_append, ih, resources, resources, deviceResources_succ, List.append_assoc]
    rfl

theorem released_created : released (created k i).log = [] := by
  induction i with
  | zero => rfl
  | succ i ih =>
    show released ((created k i).log ++ _) = _
    rw [released_append, ih]
    rfl

@[simp] theorem created_missing : (created k i).missing = [] := by
  induction i with
  | zero => rfl
  | succ i ih => exact ih

/-! ### Device numbers -/

/-- The numbers of the region do not wrap around, so each is that of one iteration. -/
theorem devt_inj {j : Nat} (hi : i < N) (hj : j < N)
    (h : k.region.first + BitVec.ofNat 32 i = k.region.first + BitVec.ofNat 32 j) : i = j := by
  have hfits := k.region.fits
  have hofNat := congrArg BitVec.toNat ((BitVec.add_right_inj _).mp h)
  rw [BitVec.toNat_ofNat, BitVec.toNat_ofNat, Nat.mod_eq_of_lt (by omega), Nat.mod_eq_of_lt (by omega)] at hofNat
  exact hofNat

theorem mem_deviceResources {first : Dev} {r : Resource} :
    r ∈ deviceResources first n ↔ ∃ j < n, r = .cdev j ∨ r = .device (first + BitVec.ofNat 32 j) := by
  simp only [deviceResources, List.mem_flatMap, List.mem_range, List.mem_cons, List.not_mem_nil, or_false]

/-- No resource is acquired twice. -/
theorem deviceResources_nodup (hn : n ≤ N) : (deviceResources k.region.first n).Nodup := by
  induction n with
  | zero => exact List.nodup_nil
  | succ n ih =>
    rw [deviceResources_succ, List.nodup_append]
    refine ⟨ih (by omega), by simp, ?_⟩
    rintro r hr r' hr' rfl
    obtain ⟨j, hj, hr⟩ := mem_deviceResources.mp hr
    simp only [List.mem_cons, List.not_mem_nil, or_false] at hr'
    rcases hr with rfl | rfl
    · rcases hr' with heq | heq
      · cases heq
        omega
      · cases heq
    · rcases hr' with heq | heq
      · cases heq
      · have hjn := @devt_inj N k j n (by omega) (by omega) (Resource.device.inj heq)
        omega

theorem resources_nodup (hn : n ≤ N) : (resources k.region.first n).Nodup := by
  rw [resources, List.nodup_append]
  refine ⟨by simp, deviceResources_nodup hn, ?_⟩
  rintro r hr r' hr' rfl
  obtain ⟨j, -, hr'⟩ := mem_deviceResources.mp hr'
  rcases hr' with rfl | rfl <;> simp at hr

/-! ### The unwinding -/

/-- The device of iteration `i` is not among those of the iterations before. -/
theorem not_mem_before (hi : i < N) (d : Device) (hd : d ∈ (List.range i).map (dvcDevice k.region.first)) :
    d.devt ≠ k.region.first + BitVec.ofNat 32 i := by
  obtain ⟨j, hj, rfl⟩ := List.mem_map.mp hd
  rw [List.mem_range] at hj
  intro heq
  have hji := @devt_inj N k j i (by omega) hi heq
  omega

theorem device_destroy_missing (hi : i < N) (hdev : s.devices = (List.range i).map (dvcDevice k.region.first)) :
    device_destroy s (k.region.first + BitVec.ofNat 32 i) =
      { s with missing := s.missing ++ [k.region.first + BitVec.ofNat 32 i] } := by
  have hnone : ¬ (s.devices.any fun d => d.devt = k.region.first + BitVec.ofNat 32 i) = true := by
    rw [hdev, List.any_eq_true]
    rintro ⟨d, hd, heq⟩
    exact not_mem_before hi d hd (of_decide_eq_true heq)
  rw [device_destroy, if_neg hnone]

theorem device_destroy_last (hi : i < N) (hdev : s.devices = (List.range (i + 1)).map (dvcDevice k.region.first)) :
    device_destroy s (k.region.first + BitVec.ofNat 32 i) =
      { s with
        devices := (List.range i).map (dvcDevice k.region.first)
        log := s.log ++ [.released (.device (k.region.first + BitVec.ofNat 32 i))] } := by
  have hsplit : s.devices = (List.range i).map (dvcDevice k.region.first) ++ [dvcDevice k.region.first i] := by
    rw [hdev, List.range_succ, List.map_append, List.map_singleton]
  have hfound : (s.devices.any fun d => d.devt = k.region.first + BitVec.ofNat 32 i) = true := by
    rw [hsplit, List.any_append]
    simp [dvcDevice]
  have herase : (s.devices.eraseP fun d => d.devt = k.region.first + BitVec.ofNat 32 i) =
      (List.range i).map (dvcDevice k.region.first) := by
    rw [hsplit, List.eraseP_append_right]
    · simp [dvcDevice]
    · intro d hd
      simpa using not_mem_before hi d hd
  rw [device_destroy, if_pos hfound, herase]

theorem removeDevice_missing (hi : i < N) (hnum : s.dvc_number = k.region.first)
    (hdev : s.devices = (List.range i).map (dvcDevice k.region.first)) :
    removeDevice s i =
      { s with
        log := s.log ++ [.released (.cdev i)]
        missing := s.missing ++ [k.region.first + BitVec.ofNat 32 i] } := by
  rw [removeDevice, hnum, device_destroy_missing hi hdev]
  simp [State.release, hnum]

theorem removeDevice_last (hi : i < N) (hnum : s.dvc_number = k.region.first)
    (hdev : s.devices = (List.range (i + 1)).map (dvcDevice k.region.first)) :
    removeDevice s i =
      { s with
        devices := (List.range i).map (dvcDevice k.region.first)
        log := s.log ++ [.released (.device (k.region.first + BitVec.ofNat 32 i)), .released (.cdev i)] } := by
  rw [removeDevice, hnum, device_destroy_last hi hdev]
  simp [State.release, hnum]

/-- The loop of `cdev_deinit` releases what the iterations have acquired, the last first. -/
theorem removeDown_log (hn : n ≤ N) (hnum : s.dvc_number = k.region.first)
    (hdev : s.devices = (List.range n).map (dvcDevice k.region.first)) :
    (removeDown n s).log = s.log ++ (deviceResources k.region.first n).reverse.map .released ∧
      (removeDown n s).missing = s.missing := by
  induction n generalizing s with
  | zero => simp [removeDown, deviceResources]
  | succ n ih =>
    have hbody := removeDevice_last (by omega) hnum hdev
    obtain ⟨hlog, hmissing⟩ := @ih (removeDevice s n) (by omega) (by rw [hbody]; exact hnum) (by rw [hbody])
    constructor
    · rw [removeDown, hlog, hbody, deviceResources_succ, List.reverse_append, List.map_append, List.append_assoc]
      rfl
    · rw [removeDown, hmissing, hbody]

/-! ### The unload -/

theorem removeDevice_first (hnum : s.dvc_number = k.region.first) {rest : List Device}
    (hdev : s.devices = dvcDevice k.region.first i :: rest) :
    removeDevice s i =
      { s with
        devices := rest
        log := s.log ++ [.released (.device (k.region.first + BitVec.ofNat 32 i)), .released (.cdev i)] } := by
  have hfound : (s.devices.any fun d => d.devt = k.region.first + BitVec.ofNat 32 i) = true := by
    rw [hdev]
    simp [dvcDevice]
  have herase : (s.devices.eraseP fun d => d.devt = k.region.first + BitVec.ofNat 32 i) = rest := by
    rw [hdev]
    simp [dvcDevice]
  rw [removeDevice, hnum, device_destroy, if_pos hfound, herase]
  simp [State.release, hnum]

/-- The loop of `dev_driver_clean` releases each device and its `cdev`, the first devices first. -/
theorem cleanDevices_spec (hnum : s.dvc_number = k.region.first) (hptr : n ≠ 0 → s.dvc_device ≠ .null)
    (hdev : s.devices = (List.range' i n).map (dvcDevice k.region.first)) :
    cleanDevices n i s =
      { s with
        devices := []
        log := s.log ++ (List.range' i n).flatMap fun j =>
          [.released (.device (k.region.first + BitVec.ofNat 32 j)), .released (.cdev j)] } := by
  induction n generalizing s i with
  | zero =>
    rw [cleanDevices]
    simp at hdev
    simp [← hdev]
  | succ n ih =>
    have hvalid := hptr (Nat.succ_ne_zero n)
    rw [List.range'_succ, List.map_cons] at hdev
    have hbody := removeDevice_first hnum hdev
    have hrest := @ih (removeDevice s i) (i + 1) (by rw [hbody]; exact hnum) (by rw [hbody]; exact fun _ => hvalid)
      (by rw [hbody])
    rw [cleanDevices, if_pos hvalid, hrest, hbody, List.range'_succ, List.flatMap_cons, List.append_assoc]

theorem created_dvc_device (hi : i ≠ 0) : (created k i).dvc_device ≠ .null := by
  cases i with
  | zero => exact absurd rfl hi
  | succ i =>
    show Pointer.addr () ≠ .null
    simp

/-! ### Each way for a load to end -/

theorem class_deinit_log (s : State) : (class_deinit s).log = s.log ++ [.released .dvcClass, .released .region] := by
  show (s.log ++ [.released .dvcClass]) ++ [.released .region] = _
  rw [List.append_assoc]
  rfl

/-- From iteration `i`, whose device is missing, `cdev_deinit` releases in the opposite order. -/
theorem cdev_deinit_log (hi : i < N) (hnum : s.dvc_number = k.region.first)
    (hdev : s.devices = (List.range i).map (dvcDevice k.region.first)) :
    (cdev_deinit i s).log = s.log ++
        ([Resource.cdev i] ++ (deviceResources k.region.first i).reverse ++ [Resource.dvcClass, Resource.region]).map .released ∧
      (cdev_deinit i s).missing = s.missing ++ [k.region.first + BitVec.ofNat 32 i] := by
  have hbody := removeDevice_missing hi hnum hdev
  obtain ⟨hlog, hmissing⟩ :=
    @removeDown_log N k (removeDevice s i) i (by omega) (by rw [hbody]; exact hnum) (by rw [hbody]; exact hdev)
  constructor
  · rw [cdev_deinit, class_deinit_log, removeDown, hlog, hbody]
    simp only [List.append_assoc, List.map_append, List.map_cons, List.map_nil, List.cons_append, List.nil_append]
  · show (removeDown i (removeDevice s i)).missing = _
    rw [hmissing, hbody]

theorem Environment.DeviceFails.deinit {e : ErrorCode} (h : k.DeviceFails i e) :
    (cdev_deinit i (refused k i e)).log = (created k i).log ++ [.acquired (.cdev i)] ++
        ([Resource.cdev i] ++ (deviceResources k.region.first i).reverse ++ [Resource.dvcClass, Resource.region]).map .released ∧
      (cdev_deinit i (refused k i e)).missing = [k.region.first + BitVec.ofNat 32 i] := by
  obtain ⟨hlog, hmissing⟩ := @cdev_deinit_log N k (refused k i e) i h.lt created_dvc_number created_devices
  refine ⟨hlog, ?_⟩
  rw [hmissing, refused, State.acquire, created_missing, List.nil_append]

/-- A failure of `device_create` leaves nothing behind. -/
theorem Environment.DeviceFails.unwound {e : ErrorCode} (h : k.DeviceFails i e) :
    Unwound (cdev_deinit i (refused k i e)).log := by
  have hacquired : acquired (cdev_deinit i (refused k i e)).log =
      resources k.region.first i ++ [Resource.cdev i] := by
    rw [h.deinit.1, acquired_append, acquired_append, acquired_created, acquired_released, List.append_nil]
    rfl
  have hreleased : released (cdev_deinit i (refused k i e)).log =
      [Resource.cdev i] ++ (deviceResources k.region.first i).reverse ++ [Resource.dvcClass, Resource.region] := by
    rw [h.deinit.1, released_append, released_append, released_created, released_released]
    rfl
  constructor
  · have hnodup := @resources_nodup N k (i + 1) h.lt
    rw [resources, deviceResources_succ] at hnodup
    rw [hacquired, resources]
    exact hnodup.sublist (by simp)
  · rw [hreleased, hacquired]
    have hreverse : (resources k.region.first i ++ [Resource.cdev i]).reverse =
        [Resource.cdev i] ++ (deviceResources k.region.first i).reverse ++ [Resource.dvcClass, Resource.region] := by
      simp [resources]
    rw [← hreverse]
    exact List.reverse_perm _

/-- A failure of `cdev_add` leaves what the iterations before have acquired. -/
theorem Environment.CdevFails.unwound_iff {e : ErrorCode} (h : k.CdevFails i e) :
    Unwound (class_deinit (created k i)).log ↔ i = 0 := by
  have hacquired : acquired (class_deinit (created k i)).log =
      resources k.region.first i := by
    rw [class_deinit_log, acquired_append, acquired_created]
    exact List.append_nil _
  have hreleased : released (class_deinit (created k i)).log = [.dvcClass, .region] := by
    rw [class_deinit_log, released_append, released_created]
    rfl
  constructor
  · intro hunwound
    by_contra hi
    have hleft : Resource.cdev 0 ∈ released (class_deinit (created k i)).log := by
      rw [hunwound.balanced.mem_iff, hacquired, resources, List.mem_append]
      exact .inr (mem_deviceResources.mpr ⟨0, Nat.pos_of_ne_zero hi, .inl rfl⟩)
    rw [hreleased] at hleft
    simp at hleft
  · rintro rfl
    constructor
    · rw [hacquired]
      exact resources_nodup (Nat.zero_le N)
    · rw [hreleased, hacquired]
      exact List.Perm.swap _ _ _

theorem dev_driver_clean_log (k : Environment N) :
    (dev_driver_clean N (created k N)).log =
      (created k N).log ++ (((List.range N).flatMap fun j =>
        [Resource.device (k.region.first + BitVec.ofNat 32 j), .cdev j]) ++ [Resource.dvcClass, Resource.region]).map .released := by
  have hptr : N ≠ 0 → (created k N).dvc_device ≠ .null := created_dvc_device
  have hloop := @cleanDevices_spec N k (created k N) 0 N created_dvc_number hptr (by rw [created_devices, List.range_eq_range'])
  have hclass : (created k N).dvc_class ≠ .null := by simp
  have hnumber : (created k N).dvc_number ≠ 0 := by
    rw [created_dvc_number]
    exact k.region.first_ne_zero
  simp only [dev_driver_clean, hloop, State.release, if_pos hclass, if_pos hnumber]
  simp only [List.range_eq_range', List.map_append, List.map_flatMap, List.map_cons, List.map_nil, List.append_assoc,
    List.singleton_append]

theorem dev_driver_clean_missing (k : Environment N) : (dev_driver_clean N (created k N)).missing = [] := by
  have hptr : N ≠ 0 → (created k N).dvc_device ≠ .null := created_dvc_device
  have hloop := @cleanDevices_spec N k (created k N) 0 N created_dvc_number hptr (by rw [created_devices, List.range_eq_range'])
  simp only [dev_driver_clean, hloop, State.release]
  split_ifs <;> exact created_missing

theorem unwound_clean (k : Environment N) : Unwound (dev_driver_clean N (created k N)).log := by
  have hacquired : acquired (dev_driver_clean N (created k N)).log =
      resources k.region.first N := by
    rw [dev_driver_clean_log, acquired_append, acquired_created, acquired_released]
    exact List.append_nil _
  have hreleased : released (dev_driver_clean N (created k N)).log =
      ((List.range N).flatMap fun j => [Resource.device (k.region.first + BitVec.ofNat 32 j), .cdev j]) ++
        [.dvcClass, .region] := by
    rw [dev_driver_clean_log, released_append, released_created, released_released]
    rfl
  constructor
  · rw [hacquired]
    exact resources_nodup (Nat.le_refl N)
  · rw [hreleased, hacquired]
    have hdevices : ((List.range N).flatMap fun j => [Resource.device (k.region.first + BitVec.ofNat 32 j), .cdev j]).Perm
        (deviceResources k.region.first N) := List.Perm.flatMap_left _ fun j _ => List.Perm.swap _ _ _
    exact (hdevices.append (List.Perm.swap _ _ _)).trans List.perm_append_comm

/-! ### The load as a whole -/

/-- The loop has no second way to end. -/
theorem Environment.Reaches.le {j : Nat} (hi : k.Reaches i) (hj : ¬ k.Passes j) : i ≤ j := by
  by_contra hlt
  exact hj (hi.passes j (by omega))

theorem Environment.CdevFails.not_passes {e : ErrorCode} (h : k.CdevFails i e) : ¬ k.Passes i := by
  intro hpass
  have hnone := hpass.cdev
  rw [h.fails] at hnone
  cases hnone

theorem Environment.DeviceFails.not_passes {e : ErrorCode} (h : k.DeviceFails i e) : ¬ k.Passes i := by
  intro hpass
  have hnone := hpass.device
  rw [h.fails] at hnone
  cases hnone

theorem ret_ne_zero (e : ErrorCode) : e.val ≠ 0 := by
  have hneg := e.2.2
  omega

/-- The load ends in `cdev_add`, in an iteration after the first. -/
def Environment.CdevFailsLate (k : Environment N) : Prop := ∃ i e, i ≠ 0 ∧ k.CdevFails i e

/-- The load ends in `device_create`. -/
def Environment.NoDevice (k : Environment N) : Prop := ∃ i e, k.DeviceFails i e

theorem Environment.CdevFails.eq {j : Nat} {e e' : ErrorCode} (hi : k.CdevFails i e) (hj : k.CdevFails j e') : i = j :=
  Nat.le_antisymm (hi.toReaches.le hj.not_passes) (hj.toReaches.le hi.not_passes)

theorem Environment.CdevFails.not_noDevice {e : ErrorCode} (h : k.CdevFails i e) : ¬ k.NoDevice := by
  rintro ⟨j, e', hj⟩
  have hij : i = j := Nat.le_antisymm (h.toReaches.le hj.not_passes) (hj.toReaches.le h.not_passes)
  have hadded := hj.added
  rw [← hij, h.fails] at hadded
  cases hadded

/-- The state after a load that ends in `out`, and after the unload if it has succeeded. -/
def unloaded (N : Nat) (out : Int × State) : State := if out.1 = 0 then dev_driver_clean N out.2 else out.2

theorem unloaded_fails (e : ErrorCode) (s : State) : unloaded N (e.val, s) = s := if_neg (ret_ne_zero e)

theorem unloaded_done (s : State) : unloaded N (0, s) = dev_driver_clean N s := if_pos rfl

theorem Outcome.unwound_iff {out : Int × State} (h : Outcome k out) : Unwound (unloaded N out).log ↔ ¬ k.CdevFailsLate := by
  cases h with
  | noRegion e h =>
    rw [unloaded_fails]
    refine iff_of_true ⟨List.nodup_nil, List.Perm.refl _⟩ ?_
    rintro ⟨i, e', -, hi⟩
    rw [hi.region] at h
    cases h
  | noClass e hregion h =>
    rw [unloaded_fails]
    refine iff_of_true ⟨List.pairwise_singleton _ _, List.Perm.refl _⟩ ?_
    rintro ⟨i, e', -, hi⟩
    rw [hi.dvcClass] at h
    cases h
  | noCdev i e h =>
    rw [unloaded_fails, h.unwound_iff]
    constructor
    · rintro rfl ⟨j, e', hj, hfails⟩
      exact hj (hfails.eq h)
    · intro hnot
      by_contra hi
      exact hnot ⟨i, e, hi, h⟩
  | noDevice i e h =>
    rw [unloaded_fails]
    refine iff_of_true h.unwound ?_
    rintro ⟨j, e', -, hj⟩
    exact hj.not_noDevice ⟨i, e, h⟩
  | done hregion hclass h =>
    rw [unloaded_done]
    refine iff_of_true (unwound_clean k) ?_
    rintro ⟨i, e, -, hi⟩
    exact hi.not_passes (h i hi.lt)

theorem Outcome.missing_iff {out : Int × State} (h : Outcome k out) : (unloaded N out).missing = [] ↔ ¬ k.NoDevice := by
  cases h with
  | noRegion e h =>
    rw [unloaded_fails]
    refine iff_of_true rfl ?_
    rintro ⟨i, e', hi⟩
    rw [hi.region] at h
    cases h
  | noClass e hregion h =>
    rw [unloaded_fails]
    refine iff_of_true rfl ?_
    rintro ⟨i, e', hi⟩
    rw [hi.dvcClass] at h
    cases h
  | noCdev i e h =>
    rw [unloaded_fails]
    exact iff_of_true created_missing h.not_noDevice
  | noDevice i e h =>
    rw [unloaded_fails, h.deinit.2]
    exact iff_of_false (List.cons_ne_nil _ _) (not_not_intro ⟨i, e, h⟩)
  | done hregion hclass h =>
    rw [unloaded_done]
    refine iff_of_true (dev_driver_clean_missing k) ?_
    rintro ⟨i, e, hi⟩
    exact hi.not_passes (h i hi.lt)

/-- A load that fails releases what it has acquired, and an unload what its load has acquired, exactly if
`cdev_add` does not fail after the first iteration. Each `device_destroy` on the way finds its device,
exactly if `device_create` does not fail. -/
theorem dev_driver_init_unwound_iff (k : Environment N) :
    (Unwound (unloaded N (dev_driver_init k initial)).log ↔ ¬ k.CdevFailsLate) ∧
      ((unloaded N (dev_driver_init k initial)).missing = [] ↔ ¬ k.NoDevice) :=
  ⟨(dev_driver_init_outcome k).unwound_iff, (dev_driver_init_outcome k).missing_iff⟩

/-- The first minor numbers of major number 240. -/
def majorRegion (N : Nat) (h : N ≤ 2 ^ 20) : Region N where
  first := 0x0F000000
  first_ne_zero := by decide
  fits := Nat.le_trans (Nat.add_le_add_left h _) (by decide)

/-- The second call of `cdev_add` finds no memory. -/
def outOfMemory : Environment 3 where
  region := majorRegion 3 (by decide)
  alloc_chrdev_region := none
  class_create := none
  cdev_add i := if i = 1 then some noMemory else none
  device_create _ _ := none

/-- The first device and its `cdev` stay registered. -/
theorem outOfMemory_not_unwound : ¬ Unwound (unloaded 3 (dev_driver_init outOfMemory initial)).log := by
  intro h
  have hleft : Resource.cdev 0 ∈ released (unloaded 3 (dev_driver_init outOfMemory initial)).log := by
    rw [h.balanced.mem_iff]
    decide
  revert hleft
  decide

end Armv8Driver.AdvanceDriver
