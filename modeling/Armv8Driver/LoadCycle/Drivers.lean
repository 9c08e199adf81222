import Armv8Driver.Kernel.LoadCycle
import Armv8Driver.Kernel.Pointer
import Armv8Driver.Kernel.Primitives

/-!
# Modules that can be loaded and unloaded for ever

The initialisation and the exit function of the character driver of `01_Basic`, of `02_Vmalloc_Basic` and of `sem_demo`,
each with every call that acquires something able to fail. All three release what they have acquired, and only that.
-/

namespace Armv8Driver.LoadCycle

open Kernel

/-! ### `main.c` of `01_Basic` -/

inductive CharResource where
  | region | dvcClass | cdev | device
  deriving DecidableEq

/-- The answers to one load; a major number that is allocated is not 0. -/
structure CharAnswers where
  dvc_number : BitVec 32
  dvc_number_ne_zero : dvc_number ≠ 0
  alloc_chrdev_region : Except ErrorCode Unit
  class_create : Except ErrorCode Unit
  cdev_add : Except ErrorCode Unit
  device_create : Except ErrorCode Unit

structure CharStatics where
  dvc_number : BitVec 32
  dvc_class : Pointer Unit
  dvc_device : Pointer Unit

/-- The labels of `dev_driver_init`, each of which falls through to the next. -/
def unregister_chrdev : List (ResourceEvent CharResource) := [.released .region]

def class_deinit : List (ResourceEvent CharResource) := .released .dvcClass :: unregister_chrdev

def cdev_deinit : List (ResourceEvent CharResource) := .released .cdev :: class_deinit

def dev_driver_init (k : CharAnswers) : Load CharStatics CharResource :=
  let ret := status k.alloc_chrdev_region
  if ret ≠ 0 then ⟨ret, ⟨0, .null, .null⟩, []⟩
  else
    let dvc_class := Pointer.ofAnswer k.class_create
    if dvc_class.IS_ERR then ⟨dvc_class.PTR_ERR, ⟨k.dvc_number, dvc_class, .null⟩, .acquired .region :: unregister_chrdev⟩
    else
      let ret := status k.cdev_add
      if ret ≠ 0 then
        ⟨ret, ⟨k.dvc_number, dvc_class, .null⟩, [.acquired .region, .acquired .dvcClass] ++ class_deinit⟩
      else
        let dvc_device := Pointer.ofAnswer k.device_create
        if dvc_device.IS_ERR then
          ⟨dvc_device.PTR_ERR, ⟨k.dvc_number, dvc_class, dvc_device⟩,
            [.acquired .region, .acquired .dvcClass, .acquired .cdev] ++ cdev_deinit⟩
        else
          ⟨0, ⟨k.dvc_number, dvc_class, dvc_device⟩,
            [.acquired .region, .acquired .dvcClass, .acquired .cdev, .acquired .device]⟩

def dev_driver_clean (s : CharStatics) : List (ResourceEvent CharResource) :=
  (if s.dvc_device ≠ .null then [.released .device] else []) ++ [.released .cdev] ++
    (if s.dvc_class ≠ .null then [.released .dvcClass] else []) ++
      (if s.dvc_number ≠ 0 then [.released .region] else [])

def charDriver : LoadableModule CharStatics CharAnswers CharResource := ⟨dev_driver_init, dev_driver_clean⟩

/-! ### `main.c` of `02_Vmalloc_Basic` -/

inductive Buffer where
  | kbuffer | vbuffer
  deriving DecidableEq

/-- Whether the two allocations succeed. -/
structure BufferAnswers where
  kmalloc : Bool
  vmalloc : Bool

structure BufferStatics where
  kbuffer : Pointer Unit
  vbuffer : Pointer Unit

/-- The pointer of a function that returns null when it fails. -/
def allocated (success : Bool) : Pointer Unit := if success then .addr () else .null

def module_driver_init (k : BufferAnswers) : Load BufferStatics Buffer :=
  let kbuffer := allocated k.kmalloc
  if kbuffer.isNull then ⟨-ENOMEM, ⟨kbuffer, .null⟩, []⟩
  else
    let vbuffer := allocated k.vmalloc
    -- `free_kbuffer`
    if vbuffer.isNull then ⟨-ENOMEM, ⟨.null, vbuffer⟩, [.acquired .kbuffer, .released .kbuffer]⟩
    else ⟨0, ⟨kbuffer, vbuffer⟩, [.acquired .kbuffer, .acquired .vbuffer]⟩

def module_driver_clean (s : BufferStatics) : List (ResourceEvent Buffer) :=
  (if s.kbuffer.isNull then [] else [.released .kbuffer]) ++ (if s.vbuffer.isNull then [] else [.released .vbuffer])

def vmallocBasic : LoadableModule BufferStatics BufferAnswers Buffer := ⟨module_driver_init, module_driver_clean⟩

/-! ### `sem_demo.c` -/

inductive SemResource where
  | proc_entry | producer_thread
  deriving DecidableEq

structure SemAnswers where
  proc_create : Bool
  kthread_run : Except ErrorCode Unit

structure SemStatics where
  proc_entry : Pointer Unit
  producer_thread : Pointer Unit

def sem_demo_init (k : SemAnswers) : Load SemStatics SemResource :=
  let proc_entry := allocated k.proc_create
  if proc_entry.isNull then ⟨-ENOMEM, ⟨proc_entry, .null⟩, []⟩
  else
    let producer_thread := Pointer.ofAnswer k.kthread_run
    if producer_thread.IS_ERR then
      ⟨producer_thread.PTR_ERR, ⟨proc_entry, producer_thread⟩, [.acquired .proc_entry, .released .proc_entry]⟩
    else ⟨0, ⟨proc_entry, producer_thread⟩, [.acquired .proc_entry, .acquired .producer_thread]⟩

/-- `kthread_stop` and `proc_remove`, which do not look at their arguments. -/
def sem_demo_exit (_ : SemStatics) : List (ResourceEvent SemResource) := [.released .producer_thread, .released .proc_entry]

def semDemo : LoadableModule SemStatics SemAnswers SemResource := ⟨sem_demo_init, sem_demo_exit⟩

/-! ### What their loads leave -/

/-- The five ways in which `dev_driver_init` ends. -/
theorem dev_driver_init_ends (k : CharAnswers) :
    (0 ≤ (dev_driver_init k).ret ∧ (dev_driver_init k).statics = ⟨k.dvc_number, .addr (), .addr ()⟩ ∧
      (dev_driver_init k).log = [.acquired .region, .acquired .dvcClass, .acquired .cdev, .acquired .device]) ∨
    ((dev_driver_init k).ret < 0 ∧ ∃ acquired, acquired <+: [CharResource.region, .dvcClass, .cdev] ∧
      (dev_driver_init k).log = acquired.map .acquired ++ acquired.reverse.map .released) := by
  obtain ⟨number, hnumber, region, dvcClass, cdev, device⟩ := k
  cases region with
  | error e =>
    simp only [dev_driver_init, if_pos (status_error_ne_zero e)]
    exact .inr ⟨e.2.2, [], by decide, rfl⟩
  | ok =>
    cases dvcClass with
    | error e => exact .inr ⟨e.2.2, [.region], by decide, rfl⟩
    | ok =>
      cases cdev with
      | error e =>
        have hend : dev_driver_init ⟨number, hnumber, .ok (), .ok (), .error e, device⟩ =
            ⟨status (.error e), ⟨number, .addr (), .null⟩, [.acquired .region, .acquired .dvcClass] ++ class_deinit⟩ :=
          if_pos (status_error_ne_zero e)
        rw [hend]
        exact .inr ⟨e.2.2, [.region, .dvcClass], by decide, rfl⟩
      | ok =>
        cases device with
        | error e => exact .inr ⟨e.2.2, [.region, .dvcClass, .cdev], by decide, rfl⟩
        | ok => exact .inl ⟨Int.le_refl 0, rfl, rfl⟩

theorem charDriver_balanced : charDriver.Balanced := by
  have hall : [CharResource.region, .dvcClass, .cdev, .device].Nodup := by decide
  constructor
  · intro k hret
    rcases dev_driver_init_ends k with ⟨hok, -⟩ | ⟨-, acquired, hprefix, hlog⟩
    · exact absurd hret (Int.not_lt.mpr hok)
    · have hsome : acquired.Nodup := hprefix.sublist.nodup (by decide)
      rw [show (charDriver.init k).log = _ from hlog]
      exact heldAfter_balanced hsome (List.reverse_perm acquired)
  · intro k hret
    rcases dev_driver_init_ends k with ⟨-, hstatics, hlog⟩ | ⟨hfailed, -⟩
    · rw [show (charDriver.init k).log = _ from hlog, show (charDriver.init k).statics = _ from hstatics]
      have hclean : charDriver.exit ⟨k.dvc_number, .addr (), .addr ()⟩ =
          [CharResource.region, .dvcClass, .cdev, .device].reverse.map .released := by
        have hnumber : k.dvc_number ≠ 0#32 := k.dvc_number_ne_zero
        simp [charDriver, dev_driver_clean, hnumber]
      rw [hclean]
      exact heldAfter_balanced hall (List.reverse_perm _)
    · exact absurd hfailed hret

theorem vmallocBasic_balanced : vmallocBasic.Balanced := by
  constructor
  · rintro ⟨kmalloc, vmalloc⟩ hret
    cases kmalloc with
    | false => rfl
    | true =>
      cases vmalloc with
      | false => exact heldAfter_balanced (show [Buffer.kbuffer].Nodup by decide) (.refl _)
      | true => exact absurd hret (Int.not_lt.mpr (Int.le_refl 0))
  · rintro ⟨kmalloc, vmalloc⟩ hret
    cases kmalloc with
    | false => exact absurd (show -ENOMEM < 0 by decide) hret
    | true =>
      cases vmalloc with
      | false => exact absurd (show -ENOMEM < 0 by decide) hret
      | true => exact heldAfter_balanced (show [Buffer.kbuffer, .vbuffer].Nodup by decide) (.refl _)

theorem semDemo_balanced : semDemo.Balanced := by
  constructor
  · rintro ⟨proc_create, kthread_run⟩ hret
    cases proc_create with
    | false => rfl
    | true =>
      cases kthread_run with
      | error e => exact heldAfter_balanced (show [SemResource.proc_entry].Nodup by decide) (.refl _)
      | ok => exact absurd hret (Int.not_lt.mpr (Int.le_refl 0))
  · rintro ⟨proc_create, kthread_run⟩ hret
    cases proc_create with
    | false => exact absurd (show -ENOMEM < 0 by decide) hret
    | true =>
      cases kthread_run with
      | error e => exact absurd e.2.2 hret
      | ok =>
        have hdistinct : [SemResource.proc_entry, .producer_thread].Nodup := by decide
        exact heldAfter_balanced hdistinct (List.reverse_perm _)

end Armv8Driver.LoadCycle
