import Armv8Driver.Kernel.Scan
import Armv8Driver.ProcRead.Buffer

/-!
# The texts of the `/proc` entries

The buffers of `demo_proc_read` and `irq_demo_read` are large enough for every report, and a report can be read back.
-/

namespace Armv8Driver.ProcRead

open Kernel

def reportFormat : List Char := "produced=%d consumed=%d free_slots=%d filled_slots=%d\n".toList

/-- What `demo_proc_read` prints. -/
def counts (r : SemDemo.Report) : List Int :=
  [r.produced.toInt, r.consumed.toInt, (BitVec.ofNat 32 r.free_slots).toInt, (BitVec.ofNat 32 r.filled_slots).toInt]

/-- The text of `irq_demo_read` behind the number. -/
def modeText (using_fallback : Bool) : List Char :=
  " mode=".toList ++ (if using_fallback then "hrtimer-fallback" else "real-irq").toList ++ "\n".toList

def eventsFormat (using_fallback : Bool) : List Char := "events=".toList ++ '%' :: 'd' :: modeText using_fallback

theorem reportFormat_separated : separated reportFormat = true := by decide

theorem length_decimal_toInt (x : BitVec 32) : (decimal x.toInt).length ≤ 11 := by
  apply length_decimal_le (by decide)
  have hlow := x.le_toInt
  have hhigh := x.toInt_lt
  omega

theorem length_report_le (r : SemDemo.Report) : (format reportFormat ((counts r).map .int)).length ≤ 98 := by
  have hcounts : ∀ x ∈ counts r, (decimal x).length ≤ 11 := by
    intro x hx
    simp only [counts, List.mem_cons, List.not_mem_nil, or_false] at hx
    rcases hx with rfl | rfl | rfl | rfl <;> exact length_decimal_toInt _
  exact length_format_le reportFormat_separated rfl hcounts

theorem kbuf_eq (r : SemDemo.Report) : kbuf r = format reportFormat ((counts r).map .int) :=
  scnprintf_eq (Nat.lt_of_le_of_lt (length_report_le r) (by decide))

theorem decimal_natCast (n : Nat) : decimal n = (Nat.repr n).toList := by
  have hnot : ¬ (n : Int) < 0 := by omega
  rw [decimal, if_neg hnot, Int.natAbs_natCast, Nat.toList_repr]

theorem eventsText : '%' ∉ "events=".toList := by decide

theorem length_modeText_le (using_fallback : Bool) : (modeText using_fallback).length ≤ 23 := by
  revert using_fallback
  decide

theorem length_repr_le {count : Nat} (hcount : count < 2 ^ 64) : (Nat.repr count).toList.length ≤ 20 := by
  rw [Nat.toList_repr, Nat.length_toDigits_le_iff (by decide) (by decide)]
  omega

theorem msg_eq {count : Nat} (hcount : count < 2 ^ 64) (using_fallback : Bool) :
    IrqDemo.msg count using_fallback = "events=".toList ++ (decimal count ++ modeText using_fallback) := by
  have hdigits := length_repr_le hcount
  have hmode := length_modeText_le using_fallback
  have hevents : "events=".toList.length = 7 := by decide
  have htext : "events=".toList ++ (Nat.repr count).toList ++ " mode=".toList ++
      (if using_fallback then "hrtimer-fallback" else "real-irq").toList ++ "\n".toList =
      "events=".toList ++ ((Nat.repr count).toList ++ modeText using_fallback) := by
    unfold modeText
    simp only [List.append_assoc]
  rw [IrqDemo.msg, htext, decimal_natCast]
  apply scnprintf_eq
  rw [List.length_append, List.length_append]
  omega

theorem scan_modeText (mode using_fallback : Bool) :
    scan (modeText mode) (modeText using_fallback) = if mode = using_fallback then some [] else none := by
  revert mode using_fallback
  decide

theorem modeText_endsNumber (using_fallback : Bool) : EndsNumber (modeText using_fallback) := by
  intro c hc
  cases hc
  rfl

theorem demo_proc_read_stored (r : SemDemo.Report) {count : Nat} (hcount : 128 ≤ count) :
    (demo_proc_read r count 0).stored = kbuf r := by
  have hlength : (kbuf r).length ≤ count := by
    have hle := length_report_le r
    rw [kbuf_eq]
    omega
  rw [(demo_proc_read_oneShot r).first count (by omega), Nat.min_eq_right hlength]
  exact List.take_length

theorem scan_events {count : Nat} (hcount : count < 2 ^ 64) (mode using_fallback : Bool) :
    scan (eventsFormat mode) (IrqDemo.msg count using_fallback) =
      if mode = using_fallback then some [(count : Int)] else none := by
  have hsingle : scan (eventsFormat mode) ("events=".toList ++ (decimal count ++ modeText using_fallback)) =
      (scan (modeText mode) (modeText using_fallback)).map ((count : Int) :: ·) :=
    scan_single eventsText (modeText_endsNumber using_fallback) count
  rw [msg_eq hcount, hsingle, scan_modeText]
  split_ifs <;> rfl

/-- A reader with room for the buffer gets all the numbers that `demo_proc_read` prints. The text of `irq_demo_read` gives
the count, and says which mode it is. -/
theorem reports_read_back :
    (∀ r count, 128 ≤ count → scan reportFormat (demo_proc_read r count 0).stored = some (counts r)) ∧
      ∀ event_count using_fallback len mode, event_count < 2 ^ 64 →
        scan (eventsFormat mode) (irq_demo_read event_count using_fallback len 0).stored =
          if mode = using_fallback then some [(event_count : Int)] else none := by
  refine ⟨fun r count hcount => ?_, fun event_count using_fallback len mode hcount => ?_⟩
  · rw [demo_proc_read_stored r hcount, kbuf_eq]
    exact scan_format reportFormat_separated rfl
  · exact scan_events hcount mode using_fallback

/-- A page for twelve items, nine of them taken, and for seven events of the timer. -/
theorem reports_read_back_page :
    scan reportFormat (demo_proc_read ⟨12, 9, 2, 3⟩ 4096 0).stored = some [12, 9, 2, 3] ∧
      scan (eventsFormat true) (irq_demo_read 7 true 4096 0).stored = some [7] ∧
      scan (eventsFormat false) (irq_demo_read 7 true 4096 0).stored = none :=
  ⟨reports_read_back.1 ⟨12, 9, 2, 3⟩ 4096 (by decide), reports_read_back.2 7 true 4096 true (by decide),
    reports_read_back.2 7 true 4096 false (by decide)⟩

end Armv8Driver.ProcRead
