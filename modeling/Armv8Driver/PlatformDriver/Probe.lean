import Armv8Driver.Kernel.Pointer
import Armv8Driver.Kernel.Primitives

/-!
# `test_probe` of `02_Platform_driver`

What the platform answers to each call is a parameter, for any types of resources and of mappings.
`devm_ioremap_resource` reports its errors in the pointer and `platform_get_irq_byname` in the number;
`test_probe` tests the pointer against null and does not look at the number.
-/

namespace Armv8Driver.PlatformDriver

open Kernel

def reg_control_name : String := "control"
def reg_data_name : String := "data"
def tx_interrupt_name : String := "tx_irq"
def rx_interrupt_name : String := "rx_irq"

variable {ρ μ : Type}

/-- What the platform answers. -/
structure Environment (ρ μ : Type) where
  devm_kzalloc : Bool
  platform_get_resource_byname : String → Option ρ
  devm_ioremap_resource : ρ → Except ErrorCode μ
  platform_get_irq_byname : String → Int
  of_property_read_string : String → Except ErrorCode String
  of_property_read_u32 : String → Except ErrorCode (BitVec 32)

/-- `struct test_dtb_data`. -/
structure TestDtbData (μ : Type) where
  base_control : Pointer μ
  base_data : Pointer μ
  irq_rx : Int
  irq_tx : Int
  buffer_size : BitVec 32
  dvc_name : Option String

/-- `devm_kzalloc` clears it. -/
def TestDtbData.zeroed : TestDtbData μ := ⟨.null, .null, 0, 0, 0, none⟩

/-- The return value, the line of `pr_err` if there is one, and the data that the driver has then. -/
structure Outcome (μ : Type) where
  ret : Int
  pr_err : Option String
  dtc_data : Option (TestDtbData μ)

def test_probe (k : Environment ρ μ) : Outcome μ :=
  let ret : Int := 0
  if k.devm_kzalloc = false then ⟨-ENOMEM, some "devm_kzalloc Failed \n", none⟩
  else
    let d : TestDtbData μ := .zeroed
    match k.platform_get_resource_byname reg_control_name with
    | none => ⟨-EINVAL, some "platform_get_resource_byname control \n", some d⟩
    | some res_control =>
      let d := { d with base_control := .ofAnswer (k.devm_ioremap_resource res_control) }
      if d.base_control.isNull then ⟨-ENODEV, some "devm_ioremap base_control \n", some d⟩
      else
        match k.platform_get_resource_byname reg_data_name with
        | none => ⟨-EINVAL, some "platform_get_resource_byname data \n", some d⟩
        | some res_data =>
          let d := { d with base_data := .ofAnswer (k.devm_ioremap_resource res_data) }
          if d.base_data.isNull then ⟨-ENODEV, some "devm_ioremap base_data \n", some d⟩
          else
            let d := { d with irq_rx := k.platform_get_irq_byname rx_interrupt_name }
            if ret ≠ 0 then ⟨ret, some "platform_get_irq_byname rx_irq \n", some d⟩
            else
              let d := { d with irq_tx := k.platform_get_irq_byname tx_interrupt_name }
              if ret ≠ 0 then ⟨ret, some "platform_get_irq_byname tx_irq \n", some d⟩
              else
                match k.of_property_read_string "device-name" with
                | .error e => ⟨e.val, some "of_property_read_string string \n", some d⟩
                | .ok name =>
                  let d := { d with dvc_name := some name }
                  match k.of_property_read_u32 "buffer-size" with
                  | .error e => ⟨e.val, some "of_property_read_string int \n", some d⟩
                  | .ok size => ⟨0, none, some { d with buffer_size := size }⟩

variable (k : Environment ρ μ)

/-- The window of that name has been mapped. -/
def Environment.Maps (name : String) : Prop :=
  ∃ r w, k.platform_get_resource_byname name = some r ∧ k.devm_ioremap_resource r = .ok w

/-- The device has all that the driver needs. -/
structure Complete : Prop where
  allocated : k.devm_kzalloc = true
  control : k.Maps reg_control_name
  data : k.Maps reg_data_name
  rx : 0 < k.platform_get_irq_byname rx_interrupt_name
  tx : 0 < k.platform_get_irq_byname tx_interrupt_name
  name : ∃ name, k.of_property_read_string "device-name" = .ok name
  size : ∃ size, k.of_property_read_u32 "buffer-size" = .ok size

/-- `test_probe` succeeds for complete devices only, and fails with an error for all others. -/
structure AcceptsComplete : Prop where
  accepts : (test_probe k).ret = 0 ↔ Complete k
  rejects : ¬ Complete k → (test_probe k).ret < 0
  data : (test_probe k).ret = 0 → ∀ d, (test_probe k).dtc_data = some d →
    d.base_control.IS_ERR = false ∧ d.base_data.IS_ERR = false ∧ 0 ≤ d.irq_rx ∧ 0 ≤ d.irq_tx

/-- What `test_probe` checks: the memory, that the resources are there, and the properties. -/
structure Present : Prop where
  allocated : k.devm_kzalloc = true
  control : ∃ r, k.platform_get_resource_byname reg_control_name = some r
  data : ∃ r, k.platform_get_resource_byname reg_data_name = some r
  name : ∃ name, k.of_property_read_string "device-name" = .ok name
  size : ∃ size, k.of_property_read_u32 "buffer-size" = .ok size

/-- What it does not check. -/
structure Working : Prop where
  control : k.Maps reg_control_name
  data : k.Maps reg_data_name
  rx : 0 < k.platform_get_irq_byname rx_interrupt_name
  tx : 0 < k.platform_get_irq_byname tx_interrupt_name

/-- The data of a probe that found these. -/
def probed (res_control res_data : ρ) (name : String) (size : BitVec 32) : TestDtbData μ where
  base_control := .ofAnswer (k.devm_ioremap_resource res_control)
  base_data := .ofAnswer (k.devm_ioremap_resource res_data)
  irq_rx := k.platform_get_irq_byname rx_interrupt_name
  irq_tx := k.platform_get_irq_byname tx_interrupt_name
  buffer_size := size
  dvc_name := some name

/-- The ways in which `test_probe` can end. -/
inductive Ends : Outcome μ → Prop where
  | fails (ret : Int) (msg : String) (d : Option (TestDtbData μ)) (hret : ret < 0) (h : ¬ Present k) :
    Ends ⟨ret, some msg, d⟩
  | succeeds (res_control res_data : ρ) (name : String) (size : BitVec 32) (hmem : k.devm_kzalloc = true)
    (hcontrol : k.platform_get_resource_byname reg_control_name = some res_control)
    (hdata : k.platform_get_resource_byname reg_data_name = some res_data)
    (hname : k.of_property_read_string "device-name" = .ok name)
    (hsize : k.of_property_read_u32 "buffer-size" = .ok size) :
    Ends ⟨0, none, some (probed k res_control res_data name size)⟩

variable {k}

theorem Complete.present (h : Complete k) : Present k := by
  obtain ⟨r, -, hr, -⟩ := h.control
  obtain ⟨r', -, hr', -⟩ := h.data
  exact ⟨h.allocated, ⟨r, hr⟩, ⟨r', hr'⟩, h.name, h.size⟩

theorem complete_iff : Complete k ↔ Present k ∧ Working k :=
  ⟨fun h => ⟨h.present, h.control, h.data, h.rx, h.tx⟩,
    fun h => ⟨h.1.allocated, h.2.control, h.2.data, h.2.rx, h.2.tx, h.1.name, h.1.size⟩⟩

theorem test_probe_ends (k : Environment ρ μ) : Ends k (test_probe k) := by
  unfold test_probe
  simp only [Pointer.isNull_ofAnswer, Bool.false_eq_true, if_false, ne_eq, not_true]
  split_ifs with hmem
  · refine .fails _ _ _ (by decide) fun h => ?_
    rw [h.allocated] at hmem
    cases hmem
  split
  case h_1 hnone =>
    refine .fails _ _ _ (by decide) fun h => ?_
    obtain ⟨r, hr⟩ := h.control
    rw [hnone] at hr
    cases hr
  case h_2 res_control hcontrol =>
    split
    case h_1 hnone =>
      refine .fails _ _ _ (by decide) fun h => ?_
      obtain ⟨r, hr⟩ := h.data
      rw [hnone] at hr
      cases hr
    case h_2 res_data hdata =>
      split
      case h_1 e hname =>
        refine .fails _ _ _ e.property.2 fun h => ?_
        obtain ⟨name, hok⟩ := h.name
        rw [hname] at hok
        cases hok
      case h_2 name hname =>
        split
        case h_1 e hsize =>
          refine .fails _ _ _ e.property.2 fun h => ?_
          obtain ⟨size, hok⟩ := h.size
          rw [hsize] at hok
          cases hok
        case h_2 size hsize =>
          exact .succeeds res_control res_data name size ((Bool.not_eq_false _).mp hmem) hcontrol hdata hname hsize

theorem test_probe_of_missing (h : ¬ Present k) : (test_probe k).ret < 0 := by
  have hend := test_probe_ends k
  generalize test_probe k = out at hend
  cases hend with
  | fails ret msg d hret _ => exact hret
  | succeeds res_control res_data name size hmem hcontrol hdata hname hsize =>
    exact absurd ⟨hmem, ⟨_, hcontrol⟩, ⟨_, hdata⟩, ⟨_, hname⟩, ⟨_, hsize⟩⟩ h

theorem test_probe_of_present (h : Present k) : ∃ res_control res_data name size,
    k.platform_get_resource_byname reg_control_name = some res_control ∧
      k.platform_get_resource_byname reg_data_name = some res_data ∧
      test_probe k = ⟨0, none, some (probed k res_control res_data name size)⟩ := by
  have hend := test_probe_ends k
  generalize test_probe k = out at hend ⊢
  cases hend with
  | fails ret msg d _ hmissing => exact absurd h hmissing
  | succeeds res_control res_data name size _ hcontrol hdata _ _ =>
    exact ⟨res_control, res_data, name, size, hcontrol, hdata, rfl⟩

theorem Environment.Maps.not_IS_ERR {name : String} {r : ρ} (h : k.Maps name)
    (hr : k.platform_get_resource_byname name = some r) :
    (Pointer.ofAnswer (k.devm_ioremap_resource r)).IS_ERR = false := by
  obtain ⟨r', w, hr', hw⟩ := h
  rw [hr] at hr'
  cases hr'
  rw [hw]
  rfl

/-- Devices that lack what is checked are refused; of the others, the working ones alone are treated rightly. -/
theorem test_probe_iff (k : Environment ρ μ) : AcceptsComplete k ↔ (Present k → Working k) := by
  by_cases hpresent : Present k
  · obtain ⟨res_control, res_data, name, size, hcontrol, hdata, hprobe⟩ := test_probe_of_present hpresent
    have hret : (test_probe k).ret = 0 := by rw [hprobe]
    constructor
    · intro h _
      exact (complete_iff.mp (h.accepts.mp hret)).2
    · intro h
      have hworking := h hpresent
      have hcomplete := complete_iff.mpr ⟨hpresent, hworking⟩
      refine ⟨iff_of_true hret hcomplete, fun hnot => absurd hcomplete hnot, fun _ d hd => ?_⟩
      rw [hprobe] at hd
      cases hd
      exact ⟨hworking.control.not_IS_ERR hcontrol, hworking.data.not_IS_ERR hdata, Int.le_of_lt hworking.rx,
        Int.le_of_lt hworking.tx⟩
  · have hret := test_probe_of_missing hpresent
    refine iff_of_true ⟨?_, fun _ => hret, fun hzero => absurd hzero (Int.ne_of_lt hret)⟩ fun h => absurd h hpresent
    exact iff_of_false (Int.ne_of_lt hret) fun hcomplete => hpresent hcomplete.present

/-- Another driver holds the windows. -/
def busy : Environment Unit Unit where
  devm_kzalloc := true
  platform_get_resource_byname _ := some ()
  devm_ioremap_resource _ := .error ⟨-EBUSY, by decide⟩
  platform_get_irq_byname name := if name = rx_interrupt_name then 40 else 41
  of_property_read_string _ := .ok "test"
  of_property_read_u32 _ := .ok 1024

/-- `test_probe` takes the error pointers for windows. -/
theorem busy_accepted : ¬ AcceptsComplete busy := by
  intro h
  obtain ⟨_, _, _, hw⟩ := (h.accepts.mp rfl).control
  cases hw

end Armv8Driver.PlatformDriver
