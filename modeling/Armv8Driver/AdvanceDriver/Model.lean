import Armv8Driver.Kernel.Format
import Armv8Driver.Kernel.Pointer
import Armv8Driver.Kernel.Primitives
import Armv8Driver.Kernel.Resource
import Mathlib.Algebra.Group.Nat.Defs

/-!
# Loading and unloading the character driver of `02_Advance_Param_Passing`

`dev_driver_init` and `dev_driver_clean`, for any number of devices. What the kernel answers to each
call is a parameter of a run, so that every call can fail. The log has the resources acquired and
released, in order; a `device_destroy` that finds no device releases nothing.
-/

namespace Armv8Driver.AdvanceDriver

open Kernel

/-- `dev_t`, an unsigned 32-bit number. -/
abbrev Dev := BitVec 32

structure Device where
  devt : Dev
  name : List Char
  deriving DecidableEq

inductive Resource where
  | region
  | dvcClass
  | cdev (itr : Nat)
  | device (devt : Dev)
  deriving DecidableEq

/-- `devices` are those of the class, in the order of their creation, and `missing` has the numbers for which
`device_destroy` has found no device. -/
structure State where
  dvc_number : Dev
  dvc_class : Pointer Unit
  dvc_device : Pointer Unit
  devices : List Device
  log : List (ResourceEvent Resource)
  missing : List Dev

/-- A region of `N` device numbers of one major number, none of which is 0. -/
structure Region (N : Nat) where
  first : Dev
  first_ne_zero : first ≠ 0
  fits : first.toNat + N ≤ 2 ^ 32

/-- What the kernel answers, where `none` is success. Creating a device may depend on those that the
class already has. -/
structure Environment (N : Nat) where
  region : Region N
  alloc_chrdev_region : Option ErrorCode
  class_create : Option ErrorCode
  cdev_add : Nat → Option ErrorCode
  device_create : List Device → Device → Option ErrorCode

def drv_dvc_name_prf : List Char := ['d', 'r', 'v', '_', 'd', 'v', 'c']

def State.acquire (s : State) (r : Resource) : State := { s with log := s.log ++ [.acquired r] }

def State.release (s : State) (r : Resource) : State := { s with log := s.log ++ [.released r] }

/-- The device of an iteration: `device_create` takes `drv_dvc_name_prf` as its format, and `"%d"` as the
first argument to it. -/
def dvcDevice (dvc_number : Dev) (itr : Nat) : Device where
  devt := dvc_number + BitVec.ofNat 32 itr
  name := format drv_dvc_name_prf [.str ['%', 'd'], .int (itr + 1)]

def device_destroy (s : State) (devt : Dev) : State :=
  if s.devices.any fun d => d.devt = devt then
    { s with devices := s.devices.eraseP fun d => d.devt = devt, log := s.log ++ [.released (.device devt)] }
  else { s with missing := s.missing ++ [devt] }

/-- The body of the loops of `cdev_deinit` and of `dev_driver_clean`. -/
def removeDevice (s : State) (itr : Nat) : State :=
  (device_destroy s (s.dvc_number + BitVec.ofNat 32 itr)).release (.cdev itr)

/-! ### The labels of `dev_driver_init`, each of which falls through to the next -/

def unregister_chrdev (s : State) : State := s.release .region

def class_deinit (s : State) : State := unregister_chrdev (s.release .dvcClass)

/-- The loop of `cdev_deinit`, for the iterations below `n` from the last one down. -/
def removeDown : Nat → State → State
  | 0, s => s
  | n + 1, s => removeDown n (removeDevice s n)

def cdev_deinit (itr : Nat) (s : State) : State := class_deinit (removeDown (itr + 1) s)

variable {N : Nat}

/-- The loop of `dev_driver_init`, with `n` iterations left: the return value and the state. -/
def createDevices (k : Environment N) : Nat → Nat → State → Int × State
  | 0, _, s => (0, s)
  | n + 1, itr, s =>
    match k.cdev_add itr with
    | some e => (e.val, class_deinit s)
    | none =>
      let s := s.acquire (.cdev itr)
      let d := dvcDevice s.dvc_number itr
      match k.device_create s.devices d with
      | some e => (e.val, cdev_deinit itr { s with dvc_device := .err e })
      | none =>
        createDevices k n (itr + 1)
          ({ s with dvc_device := .addr (), devices := s.devices ++ [d] }.acquire (.device d.devt))

def dev_driver_init (k : Environment N) (s : State) : Int × State :=
  match k.alloc_chrdev_region with
  | some e => (e.val, s)
  | none =>
    let s := { s with dvc_number := k.region.first }.acquire .region
    match k.class_create with
    | some e => (e.val, unregister_chrdev { s with dvc_class := .err e })
    | none => createDevices k N 0 ({ s with dvc_class := .addr () }.acquire .dvcClass)

/-- The loop of `dev_driver_clean`, with `n` iterations left. -/
def cleanDevices : Nat → Nat → State → State
  | 0, _, s => s
  | n + 1, itr, s => cleanDevices n (itr + 1) (if s.dvc_device ≠ .null then removeDevice s itr else s)

def dev_driver_clean (N : Nat) (s : State) : State :=
  let s := cleanDevices N 0 s
  let s := if s.dvc_class ≠ .null then s.release .dvcClass else s
  if s.dvc_number ≠ 0 then s.release .region else s

/-- `drv_pvt_data` as it is initialised. -/
def initial : State := ⟨0, .null, .null, [], [], []⟩

/-! ### What the loop has done -/

/-- The state after `i` iterations that succeed. -/
def created (k : Environment N) : Nat → State
  | 0 => { initial with
      dvc_number := k.region.first
      dvc_class := .addr ()
      log := [.acquired .region, .acquired .dvcClass] }
  | i + 1 =>
    let s := created k i
    let d := dvcDevice k.region.first i
    { s with
      dvc_device := .addr ()
      devices := s.devices ++ [d]
      log := s.log ++ [.acquired (.cdev i), .acquired (.device d.devt)] }

/-- Iteration `i` succeeds, after those before it. -/
structure Environment.Passes (k : Environment N) (i : Nat) : Prop where
  cdev : k.cdev_add i = none
  device : k.device_create (created k i).devices (dvcDevice k.region.first i) = none

/-- The loop gets to iteration `i`. -/
structure Environment.Reaches (k : Environment N) (i : Nat) : Prop where
  region : k.alloc_chrdev_region = none
  dvcClass : k.class_create = none
  lt : i < N
  passes : ∀ j < i, k.Passes j

/-- The loop ends in iteration `i` because `cdev_add` fails. -/
structure Environment.CdevFails (k : Environment N) (i : Nat) (e : ErrorCode) : Prop extends k.Reaches i where
  fails : k.cdev_add i = some e

/-- The loop ends in iteration `i` because `device_create` fails. -/
structure Environment.DeviceFails (k : Environment N) (i : Nat) (e : ErrorCode) : Prop extends k.Reaches i where
  added : k.cdev_add i = none
  fails : k.device_create (created k i).devices (dvcDevice k.region.first i) = some e

/-- The state in which `device_create` has failed. -/
def refused (k : Environment N) (i : Nat) (e : ErrorCode) : State :=
  { (created k i).acquire (.cdev i) with dvc_device := .err e }

/-- The ways in which `dev_driver_init` can end. -/
inductive Outcome (k : Environment N) : Int × State → Prop where
  | noRegion (e : ErrorCode) (h : k.alloc_chrdev_region = some e) : Outcome k (e.val, initial)
  | noClass (e : ErrorCode) (hregion : k.alloc_chrdev_region = none) (h : k.class_create = some e) :
    Outcome k (e.val, unregister_chrdev { created k 0 with dvc_class := .err e, log := [.acquired .region] })
  | noCdev (i : Nat) (e : ErrorCode) (h : k.CdevFails i e) : Outcome k (e.val, class_deinit (created k i))
  | noDevice (i : Nat) (e : ErrorCode) (h : k.DeviceFails i e) :
    Outcome k (e.val, cdev_deinit i (refused k i e))
  | done (hregion : k.alloc_chrdev_region = none) (hclass : k.class_create = none) (h : ∀ j < N, k.Passes j) :
    Outcome k (0, created k N)

variable {k : Environment N} {i n : Nat}

@[simp] theorem created_dvc_number : (created k i).dvc_number = k.region.first := by
  induction i with
  | zero => rfl
  | succ i ih => exact ih

@[simp] theorem created_dvc_class : (created k i).dvc_class = .addr () := by
  induction i with
  | zero => rfl
  | succ i ih => exact ih

theorem created_devices : (created k i).devices = (List.range i).map (dvcDevice k.region.first) := by
  induction i with
  | zero => rfl
  | succ i ih =>
    show (created k i).devices ++ [dvcDevice k.region.first i] = _
    rw [ih, List.range_succ, List.map_append, List.map_singleton]

theorem createDevices_pass (h : k.Passes i) :
    createDevices k (n + 1) i (created k i) = createDevices k n (i + 1) (created k (i + 1)) := by
  simp only [createDevices, h.cdev, State.acquire, created_dvc_number, h.device, created, List.append_assoc,
    List.singleton_append]

theorem createDevices_outcome (hregion : k.alloc_chrdev_region = none) (hclass : k.class_create = none)
    (hN : i + n = N) (h : ∀ j < i, k.Passes j) : Outcome k (createDevices k n i (created k i)) := by
  induction n generalizing i with
  | zero =>
    have hi : i = N := hN
    subst hi
    exact .done hregion hclass h
  | succ n ih =>
    have hreach : k.Reaches i := ⟨hregion, hclass, by omega, h⟩
    cases hcdev : k.cdev_add i with
    | some e =>
      have hend : createDevices k (n + 1) i (created k i) = (e.val, class_deinit (created k i)) := by
        rw [createDevices, hcdev]
      rw [hend]
      exact .noCdev i e ⟨hreach, hcdev⟩
    | none =>
      cases hdev : k.device_create (created k i).devices (dvcDevice k.region.first i) with
      | some e =>
        have hend : createDevices k (n + 1) i (created k i) = (e.val, cdev_deinit i (refused k i e)) := by
          simp only [createDevices, hcdev, State.acquire, created_dvc_number, hdev, refused]
        rw [hend]
        exact .noDevice i e ⟨hreach, hcdev, hdev⟩
      | none =>
        rw [createDevices_pass ⟨hcdev, hdev⟩]
        apply ih (by omega)
        intro j hj
        rcases Nat.lt_succ_iff_lt_or_eq.mp hj with hlt | rfl
        · exact h j hlt
        · exact ⟨hcdev, hdev⟩

theorem dev_driver_init_outcome (k : Environment N) : Outcome k (dev_driver_init k initial) := by
  cases hregion : k.alloc_chrdev_region with
  | some e =>
    have hend : dev_driver_init k initial = (e.val, initial) := by simp only [dev_driver_init, hregion]
    rw [hend]
    exact .noRegion e hregion
  | none =>
    cases hclass : k.class_create with
    | some e =>
      have hend : dev_driver_init k initial =
          (e.val, unregister_chrdev { created k 0 with dvc_class := .err e, log := [.acquired .region] }) := by
        simp only [dev_driver_init, hregion, hclass]
        rfl
      rw [hend]
      exact .noClass e hregion hclass
    | none =>
      have hloop : dev_driver_init k initial = createDevices k N 0 (created k 0) := by
        simp only [dev_driver_init, hregion, hclass]
        rfl
      rw [hloop]
      exact createDevices_outcome hregion hclass (Nat.zero_add N) fun j hj => absurd hj (Nat.not_lt_zero j)

end Armv8Driver.AdvanceDriver
