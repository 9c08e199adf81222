import Armv8Driver.CompletionDemo.Model
import Armv8Driver.IrqDemo.Model
import Armv8Driver.Kernel.Format
import Armv8Driver.SemDemo.Model

/-!
# The `/proc` read handlers and the reader's buffer

A reader calls a handler again and again, with a length each time, until it gets 0. The handlers end
the report when `*off` is past its start: the two that copy with `copy_to_user` give all of it to the
first call, whatever its length, and `demo_proc_read` gives no more than the first call asks for.
-/

namespace Armv8Driver.ProcRead

open Kernel

/-- What a call leaves: its return value, `*off`, and the characters it has stored at `buf`. -/
structure Outcome where
  ret : Nat
  off : Nat
  stored : List Char
  deriving DecidableEq

/-- `simple_read_from_buffer` of the kernel, for memory that can be written to. -/
def simple_read_from_buffer (count ppos : Nat) (kbuf : List Char) : Outcome :=
  if ppos ≥ kbuf.length ∨ count = 0 then ⟨0, ppos, []⟩
  else
    let count := min count (kbuf.length - ppos)
    ⟨count, ppos + count, (kbuf.drop ppos).take count⟩

/-- The tail of `irq_demo_read` and `status_read`: `len` is not looked at. -/
def copyWhole (msg : List Char) (_len off : Nat) : Outcome :=
  if off > 0 then ⟨0, off, []⟩ else ⟨msg.length, off + msg.length, msg⟩

/-- What `demo_proc_read` has in `kbuf`. -/
def kbuf (r : SemDemo.Report) : List Char :=
  scnprintf 128 (format "produced=%d consumed=%d free_slots=%d filled_slots=%d\n".toList
    [.int r.produced.toInt, .int r.consumed.toInt, .int (BitVec.ofNat 32 r.free_slots).toInt,
      .int (BitVec.ofNat 32 r.filled_slots).toInt])

def demo_proc_read (r : SemDemo.Report) (count ppos : Nat) : Outcome :=
  if ppos > 0 then ⟨0, ppos, []⟩ else simple_read_from_buffer count ppos (kbuf r)

/-- `irq_demo_read` with a completion available. -/
def irq_demo_read (event_count : Nat) (using_fallback : Bool) (len off : Nat) : Outcome :=
  copyWhole (IrqDemo.msg event_count using_fallback) len off

/-- `status_read` with a completion available. -/
def status_read (len off : Nat) : Outcome := copyWhole CompletionDemo.status_msg.toList len off

/-! ### The handlers step by step -/

/-- A call of `demo_proc_read` that runs by itself prints the counts of the state. -/
theorem demo_proc_read_returns {c : SemDemo.Config} (s : SemDemo.State c) (i : Fin c.reads) (ppos : Nat)
    (hcall : s.reads i = .notCalled) (hentry : s.exit.entry = true) (hfree : s.shared.buf_lock.owner = none) :
    ∃ acts, ((SemDemo.system c).run s acts).map (fun t => t.reads i) =
      some (.returned (if ppos > 0 then none
        else some ⟨s.shared.produced_count, s.shared.consumed_count, s.shared.free_slots.count, s.shared.filled_slots.count⟩)) := by
  have hlock : s.shared.buf_lock.mutex_lock (.reader i) = some ⟨some (.reader i)⟩ := by
    simp [Mutex.mutex_lock, hfree]
  by_cases hpos : ppos > 0
  · refine ⟨[.read i (.call ppos)], ?_⟩
    simp [Transition.System.run, SemDemo.system, SemDemo.step, SemDemo.State.stepRead, SemDemo.demo_proc_read, hcall,
      hentry, hpos]
  · refine ⟨[.read i (.call ppos), .read i .step, .read i .produced, .read i .consumed, .read i .free, .read i .filled,
      .read i .step, .read i .step, .read i .step], ?_⟩
    simp only [Transition.System.run, SemDemo.system, SemDemo.step, SemDemo.State.stepRead, SemDemo.demo_proc_read, hcall,
      hentry, hpos, hlock, if_true, if_false, Option.bind_eq_bind, Option.bind_some, Function.update_self, Option.map_some]

/-- A call of `status_read` that runs by itself, with a completion available. -/
theorem status_read_returns {c : CompletionDemo.Config} (s : CompletionDemo.State c) (i : Fin c.reads) (len off : Nat)
    (hcall : s.reads i = .notCalled) (hentry : s.exit.statusEntry = true) (hdone : s.init_done.done ≠ 0) :
    ∃ acts, ((CompletionDemo.system c).run s acts).map (fun t => t.reads i) =
      some (.returned (status_read len off).ret (status_read len off).off) := by
  obtain ⟨done, hwait⟩ : ∃ done, s.init_done.wait_for_completion = some done := by
    rw [← Option.ne_none_iff_exists', ne_eq, Completion.wait_for_completion_eq_none]
    exact hdone
  by_cases hoff : off > 0
  · refine ⟨[.read i (.call off)], ?_⟩
    simp [Transition.System.run, CompletionDemo.system, CompletionDemo.step, CompletionDemo.status_read, hcall, hentry, hoff,
      status_read, copyWhole]
  · refine ⟨[.read i (.call off), .read i .wait, .read i (.copy false)], ?_⟩
    simp [Transition.System.run, CompletionDemo.system, CompletionDemo.step, CompletionDemo.status_read, hcall, hentry, hoff,
      status_read, copyWhole, hwait, String.length_toList]

/-- A call of `irq_demo_read` that runs by itself, with a completion available. -/
theorem irq_demo_read_returns {c : IrqDemo.Config} (s : IrqDemo.State c) (i : Fin c.reads) (len off : Nat)
    (hcall : s.reads i = .notCalled) (hentry : s.entry = true) (hdone : s.shared.event_done.done ≠ 0)
    (hfree : s.shared.irq_lock.owner = none) :
    ∃ acts, ((IrqDemo.system c).run s acts).map (fun t => t.reads i) =
      some (.returned (irq_demo_read s.shared.event_count s.using_fallback len off).ret
        (irq_demo_read s.shared.event_count s.using_fallback len off).off) := by
  obtain ⟨done, hwait⟩ : ∃ done, s.shared.event_done.wait_for_completion = some done := by
    rw [← Option.ne_none_iff_exists', ne_eq, Completion.wait_for_completion_eq_none]
    exact hdone
  have hlock : s.shared.irq_lock.spin_lock_irqsave (.reader i) = some ⟨some (.reader i)⟩ := by
    simp [Spinlock.spin_lock_irqsave, Mutex.mutex_lock, hfree]
  by_cases hoff : off > 0
  · refine ⟨[.read i (.call off len)], ?_⟩
    simp [Transition.System.run, IrqDemo.system, IrqDemo.step, IrqDemo.State.stepRead, IrqDemo.irq_demo_read, hcall, hentry,
      hoff, irq_demo_read, copyWhole]
  · refine ⟨[.read i (.call off len), .read i .wait, .read i .step, .read i .step, .read i .step,
      .read i (.copy false)], ?_⟩
    simp only [Transition.System.run, IrqDemo.system, IrqDemo.step, IrqDemo.State.stepRead, IrqDemo.irq_demo_read, hcall,
      hentry, hoff, hwait, hlock, irq_demo_read, copyWhole, if_true, if_false, Bool.false_eq_true, Option.bind_eq_bind,
      Option.bind_some, Function.update_self, Option.map_some]

/-! ### Reading to the end -/

/-- `*off` before each call of a reader, which starts at 0. -/
def offAt (read : Nat → Nat → Outcome) (lens : Nat → Nat) : Nat → Nat
  | 0 => 0
  | j + 1 => (read (lens j) (offAt read lens j)).off

/-- The calls of a reader that asks for `lens j` bytes in call `j`. -/
def callAt (read : Nat → Nat → Outcome) (lens : Nat → Nat) (j : Nat) : Outcome := read (lens j) (offAt read lens j)

/-- Each call keeps to its length, and the calls up to the first that returns 0 give the report. -/
structure Honours (read : Nat → Nat → Outcome) (report : List Char) (lens : Nat → Nat) : Prop where
  fits : ∀ j, (callAt read lens j).stored.length ≤ lens j ∧ (callAt read lens j).ret ≤ lens j
  whole : ∃ n, (callAt read lens n).ret = 0 ∧ (∀ j < n, (callAt read lens j).ret ≠ 0) ∧
    (List.range n).flatMap (fun j => (callAt read lens j).stored) = report

/-- A handler that gives `size len` characters of the report to the first call, and nothing to the others. -/
structure OneShot (read : Nat → Nat → Outcome) (report : List Char) (size : Nat → Nat) : Prop where
  first : ∀ len, 1 ≤ len → read len 0 = ⟨size len, size len, report.take (size len)⟩
  later : ∀ len off, 0 < off → read len off = ⟨0, off, []⟩
  size_pos : ∀ len, 1 ≤ len → 0 < size len
  size_le : ∀ len, size len ≤ report.length

section Reader

variable {read : Nat → Nat → Outcome} {report : List Char} {size lens : Nat → Nat}

theorem OneShot.offAt_succ (h : OneShot read report size) (hlens : ∀ j, 1 ≤ lens j) (j : Nat) :
    offAt read lens (j + 1) = size (lens 0) := by
  induction j with
  | zero =>
    show (read (lens 0) 0).off = _
    rw [h.first _ (hlens 0)]
  | succ j ih =>
    show (read (lens (j + 1)) (offAt read lens (j + 1))).off = _
    rw [ih, h.later _ _ (h.size_pos _ (hlens 0))]

theorem OneShot.callAt_zero (h : OneShot read report size) (hlens : ∀ j, 1 ≤ lens j) :
    callAt read lens 0 = ⟨size (lens 0), size (lens 0), report.take (size (lens 0))⟩ :=
  h.first _ (hlens 0)

theorem OneShot.callAt_succ (h : OneShot read report size) (hlens : ∀ j, 1 ≤ lens j) (j : Nat) :
    callAt read lens (j + 1) = ⟨0, size (lens 0), []⟩ := by
  show read (lens (j + 1)) (offAt read lens (j + 1)) = _
  rw [h.offAt_succ hlens, h.later _ _ (h.size_pos _ (hlens 0))]

/-- The reader gets what the first call gives, so that has to fit and to be all. -/
theorem OneShot.honours_iff (h : OneShot read report size) (hlens : ∀ j, 1 ≤ lens j) :
    Honours read report lens ↔ size (lens 0) ≤ lens 0 ∧ size (lens 0) = report.length := by
  have hzero := h.callAt_zero hlens
  have hsucc := h.callAt_succ hlens
  have hpos := h.size_pos _ (hlens 0)
  constructor
  · rintro ⟨hfits, n, hret, hbefore, htext⟩
    refine ⟨?_, ?_⟩
    · have hfirst := (hfits 0).2
      rwa [hzero] at hfirst
    · -- The second call is the first that returns 0.
      have hn : n = 1 := by
        cases n with
        | zero =>
          rw [hzero] at hret
          exact absurd hret (Nat.ne_of_gt hpos)
        | succ n =>
          cases n with
          | zero => rfl
          | succ n =>
            have hnext := hbefore 1 (by omega)
            rw [hsucc 0] at hnext
            exact absurd rfl hnext
      have hlength := congrArg List.length htext
      rw [hn, List.range_one, List.flatMap_singleton, hzero, List.length_take] at hlength
      have hle := h.size_le (lens 0)
      omega
  · rintro ⟨hfit, hall⟩
    refine ⟨?_, 1, ?_, ?_, ?_⟩
    · intro j
      cases j with
      | zero =>
        rw [hzero, List.length_take]
        exact ⟨Nat.le_trans (Nat.min_le_left _ _) hfit, hfit⟩
      | succ j =>
        rw [hsucc j]
        exact ⟨Nat.zero_le _, Nat.zero_le _⟩
    · rw [hsucc 0]
    · intro j hj
      have hj' : j = 0 := by omega
      rw [hj', hzero]
      exact Nat.ne_of_gt hpos
    · rw [List.range_one, List.flatMap_singleton, hzero, hall, List.take_length]

end Reader

/-! ### The three handlers -/

theorem copyWhole_oneShot {msg : List Char} (hmsg : 0 < msg.length) : OneShot (copyWhole msg) msg fun _ => msg.length := by
  refine ⟨fun len _ => ?_, fun len off hoff => ?_, fun _ _ => hmsg, fun _ => Nat.le_refl _⟩
  · show (⟨msg.length, 0 + msg.length, msg⟩ : Outcome) = _
    rw [Nat.zero_add, List.take_length]
  · rw [copyWhole, if_pos hoff]

theorem kbuf_length_pos (r : SemDemo.Report) : 0 < (kbuf r).length := by
  have htext : "produced=%d consumed=%d free_slots=%d filled_slots=%d\n".toList =
      'p' :: "roduced=%d consumed=%d free_slots=%d filled_slots=%d\n".toList := by decide
  rw [kbuf, htext, format_text (by decide), scnprintf, List.take_succ_cons]
  exact Nat.succ_pos _

theorem demo_proc_read_oneShot (r : SemDemo.Report) :
    OneShot (demo_proc_read r) (kbuf r) fun len => min len (kbuf r).length := by
  have hpos := kbuf_length_pos r
  refine ⟨fun len hlen => ?_, fun len off hoff => ?_, fun len hlen => by omega, fun len => Nat.min_le_right _ _⟩
  · have hmore : ¬ (0 ≥ (kbuf r).length ∨ len = 0) := by omega
    show simple_read_from_buffer len 0 (kbuf r) = _
    rw [simple_read_from_buffer, if_neg hmore]
    simp
  · rw [demo_proc_read, if_pos hoff]

/-- The reader gets the report, in its own buffer, exactly if it asks for all of it in the first call. -/
theorem read_handlers_honour_iff (lens : Nat → Nat) (hlens : ∀ j, 1 ≤ lens j) :
    (∀ r, Honours (demo_proc_read r) (kbuf r) lens ↔ (kbuf r).length ≤ lens 0) ∧
      (∀ event_count using_fallback, Honours (irq_demo_read event_count using_fallback)
          (IrqDemo.msg event_count using_fallback) lens ↔ (IrqDemo.msg event_count using_fallback).length ≤ lens 0) ∧
      (Honours status_read CompletionDemo.status_msg.toList lens ↔ CompletionDemo.status_msg.toList.length ≤ lens 0) := by
  refine ⟨fun r => ?_, fun event_count using_fallback => ?_, ?_⟩
  · rw [(demo_proc_read_oneShot r).honours_iff hlens]
    omega
  · have hmsg : 0 < (IrqDemo.msg event_count using_fallback).length := by simp [IrqDemo.msg, scnprintf]
    exact ((copyWhole_oneShot hmsg).honours_iff hlens).trans (and_iff_left rfl)
  · exact ((copyWhole_oneShot (by decide)).honours_iff hlens).trans (and_iff_left rfl)

/-- A reader with a page for each call. -/
theorem read_handlers_honour_page :
    (∀ r, Honours (demo_proc_read r) (kbuf r) (fun _ => 4096) ↔ (kbuf r).length ≤ 4096) ∧
      (∀ event_count using_fallback, Honours (irq_demo_read event_count using_fallback)
          (IrqDemo.msg event_count using_fallback) (fun _ => 4096) ↔
        (IrqDemo.msg event_count using_fallback).length ≤ 4096) ∧
      (Honours status_read CompletionDemo.status_msg.toList (fun _ => 4096) ↔
        CompletionDemo.status_msg.toList.length ≤ 4096) :=
  read_handlers_honour_iff (fun _ => 4096) fun _ => by decide

/-- A reader with four bytes for each call gets four bytes of a report on two counts of 0, and more than
it has asked for from the other two handlers. -/
theorem read_handlers_four_bytes :
    ¬ Honours (demo_proc_read ⟨0, 0, 5, 0⟩) (kbuf ⟨0, 0, 5, 0⟩) (fun _ => 4) ∧
      ¬ Honours (irq_demo_read 0 true) (IrqDemo.msg 0 true) (fun _ => 4) ∧
      ¬ Honours status_read CompletionDemo.status_msg.toList (fun _ => 4) := by
  refine ⟨fun h => ?_, fun h => ?_, fun h => ?_⟩
  · have hall := ((demo_proc_read_oneShot _).honours_iff fun _ => by decide).mp h
    revert hall
    decide
  · have hfirst := (h.fits 0).2
    revert hfirst
    decide
  · have hfirst := (h.fits 0).2
    revert hfirst
    decide

end Armv8Driver.ProcRead
