import Armv8Driver.IrqDemo.History

/-!
# Top halves and bottom halves of `irq_demo`

The workqueue holds the work item once. A `schedule_work` that finds it queued adds no bottom half, so
where nothing is in progress the calls of `complete` fall behind the increments by the number of such
calls. `event_count` itself falls behind them when it wraps.
-/

namespace Armv8Driver.IrqDemo

open Kernel Transition

variable {c : Config} {s t : State c}

/-- The callback is in its top half, up to `schedule_work`. -/
def TimerPc.inTopHalf : TimerPc → Bool
  | .top _ | .schedule => true
  | .idle | .restart => false

/-- No top half is in progress, and the work item is neither queued nor running. -/
structure AtRest (s : State c) : Prop where
  timer : s.timer.inTopHalf = false
  writes : ∀ i, (s.writes i).inFlight = false
  queued : s.shared.queued = false
  worker : s.worker = none

theorem AtRest.pending (hs : AtRest s) : s.pending = 0 := by
  have htimer : s.timer.counted = false := by
    have hout := hs.timer
    cases hpc : s.timer <;> rw [hpc] at hout <;> first | rfl | cases hout
  have hwrites : Threads.count WritePc.counted s.writes = 0 := by
    apply Threads.count_eq_zero.mpr
    intro i
    have hout := hs.writes i
    cases hpc : s.writes i <;> rw [hpc] at hout <;> first | rfl | cases hout
  rw [State.pending, htimer, hwrites]
  rfl

/-- At rest each increment has got to its own `complete`, or its `schedule_work` found the item queued. -/
theorem AtRest.balance (hmode : c.irq_num < 0) {x : State c × List (Event c)}
    (hx : (history c).ReachableUnder (fun x a => NoExit x.1 a) x) (hrest : AtRest x.1) :
    x.2.count .increment = x.2.count .complete + x.2.count (.schedule true) := by
  have hbalance := IrqDemo.balance hmode (fun _ _ hok => hok) hx
  rw [hrest.worker, hrest.queued, hrest.pending] at hbalance
  exact hbalance

/-- In the fallback mode there have been as many calls of `complete` as `event_count` says, where nothing is
in progress, exactly if as many calls of `schedule_work` found the item queued as the counter has lost in
wrapping: none, while it has not wrapped. -/
theorem paired_iff (hmode : c.irq_num < 0) {x : State c × List (Event c)}
    (hx : (history c).ReachableUnder (fun x a => NoExit x.1 a) x) (hrest : AtRest x.1) :
    x.2.count .complete = x.1.shared.event_count ↔
      x.2.count (.schedule true) = 2 ^ c.longBits * (x.2.count .increment / 2 ^ c.longBits) := by
  have hbalance := hrest.balance hmode hx
  have hsplit := Nat.div_add_mod (x.2.count .increment) (2 ^ c.longBits)
  rw [event_count_eq hx]
  omega

/-- The module with one trigger write. -/
def oneWriter : Config := ⟨-1, 64, 0, 1⟩

/-- The runs of `oneWriter` that begin with the timer's first event. -/
def afterFirst (rest : List (Action oneWriter)) : List (Action oneWriter) :=
  List.replicate 5 (.module 0) ++ .timerFires :: List.replicate 6 .timer ++ rest

/-- The work item runs once the event has been scheduled. -/
def isolated : State oneWriter × List (Event oneWriter) :=
  (((history oneWriter).checked fun x a => decide (NoExit x.1 a)).run (initial oneWriter, [])
    (afterFirst (List.replicate 3 .worker))).get rfl

theorem isolated_paired :
    AtRest isolated.1 ∧ isolated.2.count .complete = isolated.1.shared.event_count := by
  have hreach : (history oneWriter).ReachableUnder (fun x a => NoExit x.1 a) isolated :=
    ⟨(initial oneWriter, []), ⟨rfl, rfl⟩, .of_checked (fun _ _ h => of_decide_eq_true h) (Option.some_get _).symm⟩
  have hrest : AtRest isolated.1 := ⟨rfl, by decide, rfl, rfl⟩
  exact ⟨hrest, (paired_iff (by decide) hreach hrest).mpr (by decide)⟩

/-- A trigger write comes before the work item runs. -/
def burst : State oneWriter × List (Event oneWriter) :=
  (((history oneWriter).checked fun x a => decide (NoExit x.1 a)).run (initial oneWriter, [])
    (afterFirst (.write ⟨0, Nat.one_pos⟩ (.call 2) :: List.replicate 5 (.write ⟨0, Nat.one_pos⟩ .step) ++
      List.replicate 3 .worker))).get rfl

/-- Two events, one bottom half. -/
theorem burst_not_paired :
    ¬ ∀ x, (history oneWriter).ReachableUnder (fun x a => NoExit x.1 a) x → AtRest x.1 →
      x.2.count .complete = x.1.shared.event_count := by
  intro hpaired
  have hreach : (history oneWriter).ReachableUnder (fun x a => NoExit x.1 a) burst :=
    ⟨(initial oneWriter, []), ⟨rfl, rfl⟩, .of_checked (fun _ _ h => of_decide_eq_true h) (Option.some_get _).symm⟩
  have hrest : AtRest burst.1 := ⟨rfl, by decide, rfl, rfl⟩
  exact absurd (hpaired burst hreach hrest) (by decide)

end Armv8Driver.IrqDemo
