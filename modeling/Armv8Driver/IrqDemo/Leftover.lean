import Armv8Driver.IrqDemo.Lock
import Armv8Driver.IrqDemo.Teardown

/-!
# What an unguarded step leaves behind

After a step that `Guarded` excludes, the work item is queued or running with no `cancel_work_sync`
ahead of it. If the workqueue is slow from there on, the handlers finish, the entries are removed and
the module is gone with the work item still on the queue. So the condition on the runs of
`leavesNothing_of_guarded` cannot be weakened at any step.
-/

namespace Armv8Driver.IrqDemo

open Kernel Transition

variable {c : Config} {s t : State c} {m m' : Shared c}

/-- The error path of `irq_demo_init`, which waits for no work item. -/
def ModulePc.failing : ModulePc → Bool
  | .removing (some _) _ | .failed _ => true
  | _ => false

/-- The work item is there and nothing will take it away. -/
structure Doomed (s : State c) : Prop where
  cancelled : s.pc.cancelled
  left : s.shared.queued = true ∨ s.pc.failing = true ∧ s.worker ≠ none

/-- The steps that lead to the end without new calls and with a slow workqueue. -/
def Finishing (s : State c) : Action c → Prop
  | .module _ => True
  | .worker => s.pc = .flushWork ∧ s.worker ≠ none
  | .read _ (.call ..) | .write _ (.call _) => False
  | .read .. | .write .. => True
  | _ => False

/-! ### How far each thread is from its end -/

def TopHalf.rank : TopHalf → Nat
  | .unlock => 1
  | .store _ => 2
  | .load => 3
  | .lock => 4

def BottomHalf.rank : BottomHalf → Nat
  | .complete => 1
  | .sleep => 2

def ReadPc.rank : ReadPc → Nat
  | .notCalled | .returned .. => 0
  | .copy .. => 1
  | .unlock .. => 2
  | .load _ => 3
  | .lock _ => 4
  | .waiting _ => 5

def WritePc.rank : WritePc → Nat
  | .notCalled | .returned _ => 0
  | .schedule _ => 1
  | .top _ h => 1 + h.rank

def workRank (b : Option BottomHalf) : Nat := b.elim 0 BottomHalf.rank

def State.rank (s : State c) : Nat :=
  (11 - s.pc.stage) + workRank s.worker + Threads.total ReadPc.rank s.reads + Threads.total WritePc.rank s.writes

/-! ### What a step does -/

theorem do_hard_isr_work_rank {th : Thread c} {pc : TopHalf} {pc' : Option TopHalf}
    (h : do_hard_isr_work th m pc = some (m', pc')) : pc'.elim 0 TopHalf.rank < pc.rank := by
  cases pc with
  | lock =>
    obtain ⟨l, -, hs⟩ := Option.bind_eq_some_iff.mp h
    cases hs
    decide
  | _ =>
    cases h
    simp [TopHalf.rank]

theorem fallback_workqueue_fn_rank {b : BottomHalf} {b' : Option BottomHalf}
    (h : fallback_workqueue_fn m (some b) = some (m', b')) : workRank b' < workRank (some b) := by
  cases b with
  | sleep =>
    cases h
    decide
  | complete =>
    cases h
    decide

theorem irq_demo_read_rank {entry fallback : Bool} {i : Fin c.reads} {pc pc' : ReadPc} {a : ReadStep}
    (hfinish : Finishing s (.read i a)) (h : irq_demo_read entry fallback i m pc a = some (m', pc')) :
    pc'.rank < pc.rank := by
  cases irq_demo_read_move h with
  | atEnd => exact hfinish.elim
  | call => exact hfinish.elim
  | _ => simp [ReadPc.rank]

theorem irq_demo_trigger_write_rank {entry : Bool} {i : Fin c.writes} {pc pc' : WritePc} {a : WriteStep}
    (hfinish : Finishing s (.write i a)) (h : irq_demo_trigger_write entry i m pc a = some (m', pc')) :
    pc'.rank < pc.rank := by
  cases irq_demo_trigger_write_move h with
  | call => exact hfinish.elim
  | top hwork =>
    have hrank := do_hard_isr_work_rank hwork
    simp [WritePc.rank] at hrank ⊢
    omega
  | last hwork =>
    have hrank := do_hard_isr_work_rank hwork
    simp [WritePc.rank, TopHalf.rank] at hrank ⊢
    omega
  | schedule => simp [WritePc.rank]

theorem remove_proc_entries_stage {error : Option Int} {r : RemovePc} (hpc : s.pc = .removing error r)
    (h : remove_proc_entries s error r = some t) :
    t.pc.stage = s.pc.stage + 1 ∧ (s.pc.failing = true → t.pc.failing = true) := by
  rw [hpc]
  cases r <;> simp only [remove_proc_entries, Option.ite_none_right_eq_some] at h
  · cases h
    cases error <;> exact ⟨rfl, id⟩
  · cases h.2
    cases error <;> exact ⟨rfl, id⟩
  · cases h
    cases error <;> exact ⟨rfl, id⟩
  · cases h.2
    cases error with
    | none => exact ⟨rfl, nofun⟩
    | some ret => exact ⟨rfl, id⟩

/-- Past `cancel_work_sync` the module's thread goes on to the next stage and leaves the work item alone. -/
theorem module_step_cancelled {ret : Int} (hcancelled : s.pc.cancelled) (h : step s (.module ret) = some t) :
    t = { s with entry := t.entry, trigger := t.trigger, pc := t.pc } ∧ t.pc.stage = s.pc.stage + 1 ∧
      (s.pc.failing = true → t.pc.failing = true) := by
  cases module_move h with
  | removing hpc hremove => exact ⟨remove_proc_entries_frame hremove, remove_proc_entries_stage hpc hremove⟩
  | flushWork _ hpc =>
    rw [hpc]
    exact ⟨rfl, rfl, fun hfailing => absurd hfailing (by decide)⟩
  | _ =>
    rename_i hpc
    rw [hpc] at hcancelled
    simp [ModulePc.cancelled, ModulePc.stage] at hcancelled

theorem ModulePc.stage_le (pc : ModulePc) : pc.stage ≤ 11 := by
  cases pc with
  | removing error r => cases r <;> simp [ModulePc.stage]
  | _ => simp [ModulePc.stage]

theorem Doomed.step {a : Action c} (hd : Doomed s) (hfinish : Finishing s a) (h : step s a = some t) :
    Doomed t ∧ t.rank < s.rank := by
  obtain ⟨hcancelled, hleft⟩ := hd
  cases a with
  | module ret =>
    obtain ⟨hframe, hstage, hfailing⟩ := module_step_cancelled hcancelled h
    have hle := t.pc.stage_le
    simp only [ModulePc.cancelled] at hcancelled
    refine ⟨⟨?_, ?_⟩, ?_⟩
    · unfold ModulePc.cancelled
      omega
    · rw [hframe]
      exact hleft.imp id fun hrun => ⟨hfailing hrun.1, hrun.2⟩
    · rw [hframe]
      simp only [State.rank]
      omega
  | worker =>
    obtain ⟨hpc, hworker⟩ := hfinish
    obtain ⟨b, hb⟩ := Option.ne_none_iff_exists'.mp hworker
    have hqueued : s.shared.queued = true := hleft.resolve_right fun hrun => by rw [hpc] at hrun; cases hrun.1
    obtain ⟨⟨m', b'⟩, hstep, ht⟩ := Option.bind_eq_some_iff.mp h
    rw [hb] at hstep
    have hrank := fallback_workqueue_fn_rank hstep
    cases ht
    refine ⟨⟨hcancelled, .inl ?_⟩, ?_⟩
    · rw [fallback_workqueue_fn_queued hstep]
      exact hqueued
    · simp only [State.rank, hb]
      omega
  | read i a =>
    obtain ⟨⟨m', pc'⟩, hstep, ht⟩ := Option.bind_eq_some_iff.mp h
    have hrank := irq_demo_read_rank hfinish hstep
    have htotal := Threads.total_update ReadPc.rank s.reads i pc'
    cases ht
    refine ⟨⟨hcancelled, ?_⟩, ?_⟩
    · rw [irq_demo_read_queued hstep]
      exact hleft
    · simp only [State.rank]
      omega
  | write i a =>
    obtain ⟨⟨m', pc'⟩, hstep, ht⟩ := Option.bind_eq_some_iff.mp h
    have hrank := irq_demo_trigger_write_rank hfinish hstep
    have htotal := Threads.total_update WritePc.rank s.writes i pc'
    cases ht
    refine ⟨⟨hcancelled, ?_⟩, ?_⟩
    · rcases irq_demo_trigger_write_queued hstep with hqueued | ⟨-, -, hqueued⟩
      · rw [hqueued]
        exact hleft
      · exact .inl hqueued
    · simp only [State.rank]
      omega
  | _ => exact hfinish.elim

/-! ### Where a run ends -/

theorem do_hard_isr_work_blocked {th : Thread c} {pc : TopHalf} (h : do_hard_isr_work th m pc = none) :
    pc = .lock ∧ m.irq_lock.owner ≠ none := by
  cases pc with
  | lock =>
    exact ⟨rfl, Mutex.mutex_lock_eq_none.mp (System.eq_none_of_bind h fun _ => Option.some_ne_none _)⟩
  | _ => cases h

theorem irq_demo_read_blocked {entry fallback : Bool} {i : Fin c.reads} {pc : ReadPc}
    (h : ∀ a, Finishing s (.read i a) → irq_demo_read entry fallback i m pc a = none) :
    pc.inFlight = false ∨ pc.critical = false ∧ m.irq_lock.owner ≠ none := by
  cases pc with
  | notCalled => exact .inl rfl
  | returned => exact .inl rfl
  | waiting => cases h .waitFails trivial
  | copy => cases h (.copy false) trivial
  | lock off =>
    exact .inr ⟨rfl, Mutex.mutex_lock_eq_none.mp (System.eq_none_of_bind (h .step trivial) fun _ => Option.some_ne_none _)⟩
  | _ => cases h .step trivial

theorem irq_demo_trigger_write_blocked {entry : Bool} {i : Fin c.writes} {pc : WritePc}
    (h : irq_demo_trigger_write entry i m pc .step = none) :
    pc.inFlight = false ∨ pc.critical = false ∧ m.irq_lock.owner ≠ none := by
  cases pc with
  | notCalled => exact .inl rfl
  | returned => exact .inl rfl
  | schedule => cases h
  | top len b =>
    have hnone : do_hard_isr_work (.writer i) m b = none := System.eq_none_of_bind h fun _ => Option.some_ne_none _
    obtain ⟨rfl, hown⟩ := do_hard_isr_work_blocked hnone
    exact .inr ⟨rfl, hown⟩

theorem ReadPc.inFlight_of_critical {pc : ReadPc} (h : pc.critical = true) : pc.inFlight = true := by
  cases pc <;> first | rfl | cases h

theorem WritePc.inFlight_of_critical {pc : WritePc} (h : pc.critical = true) : pc.inFlight = true := by
  cases pc <;> first | rfl | cases h

section Stuck

variable (hi : Inv s) (hheld : s.shared.irq_lock.Held s.critical) (hcancelled : s.pc.cancelled)
  (hstuck : (system c).Stuck Finishing s)

include hstuck in
theorem stuck_read (i : Fin c.reads) :
    (s.reads i).inFlight = false ∨ (s.reads i).critical = false ∧ s.shared.irq_lock.owner ≠ none := by
  apply @irq_demo_read_blocked c s s.shared s.entry s.using_fallback i
  intro a hfinish
  have hnone : s.stepRead i a = none := hstuck (.read i a) hfinish
  exact System.eq_none_of_bind hnone fun _ => Option.some_ne_none _

include hstuck in
theorem stuck_write (i : Fin c.writes) :
    (s.writes i).inFlight = false ∨ (s.writes i).critical = false ∧ s.shared.irq_lock.owner ≠ none := by
  apply @irq_demo_trigger_write_blocked c s.shared s.trigger i
  have hnone : s.stepWrite i .step = none := hstuck (.write i .step) trivial
  exact System.eq_none_of_bind hnone fun _ => Option.some_ne_none _

include hi hheld hcancelled hstuck in
/-- Whoever holds the lock can go on. -/
theorem stuck_unlocked : s.shared.irq_lock.owner = none := by
  by_contra hown
  obtain ⟨th, hth⟩ := Option.ne_none_iff_exists'.mp hown
  have hin := (hheld th).mp hth
  unfold ModulePc.cancelled at hcancelled
  cases th with
  | timer =>
    have hidle : s.timer = .idle := by
      by_contra halive
      have hstage := (hi.timer (.inr halive)).2.2
      omega
    have hpc : s.timer.critical = true := hin
    rw [hidle] at hpc
    cases hpc
  | isr =>
    have hnone : s.isr = none := by
      by_contra halive
      have hstage := (hi.irq (.inl halive)).2.2
      omega
    have hpc : s.isr.any TopHalf.critical = true := hin
    rw [hnone] at hpc
    cases hpc
  | reader i =>
    have hpc : (s.reads i).critical = true := hin
    rcases stuck_read hstuck i with h | ⟨h, -⟩
    · rw [ReadPc.inFlight_of_critical hpc] at h
      cases h
    · rw [h] at hpc
      cases hpc
  | writer i =>
    have hpc : (s.writes i).critical = true := hin
    rcases stuck_write hstuck i with h | ⟨h, -⟩
    · rw [WritePc.inFlight_of_critical hpc] at h
      cases h
    · rw [h] at hpc
      cases hpc

include hi hheld hcancelled hstuck in
/-- When nothing can move but the workqueue, the module is gone. -/
theorem stuck_ended : s.pc.ended := by
  have hfree := stuck_unlocked hi hheld hcancelled hstuck
  have hreads : ∀ i, (s.reads i).inFlight = false := fun i =>
    (stuck_read hstuck i).resolve_right fun hblocked => hblocked.2 hfree
  have hwrites : ∀ i, (s.writes i).inFlight = false := fun i =>
    (stuck_write hstuck i).resolve_right fun hblocked => hblocked.2 hfree
  have hremove : ∀ error r, remove_proc_entries s error r ≠ none := by
    intro error r
    cases r <;> simp [remove_proc_entries, hreads, hwrites]
  have hmodule : step s (.module 0) = none := hstuck (.module 0) trivial
  have hworker : s.pc = .flushWork → s.worker ≠ none → s.stepWorker = none := fun hpc hrun =>
    hstuck .worker ⟨hpc, hrun⟩
  cases hpc : s.pc with
  | flushWork =>
    exfalso
    cases hrun : s.worker with
    | none => simp [step, irq_demo_init, irq_demo_exit, hpc, hrun] at hmodule
    | some b => simp [State.stepWorker, fallback_workqueue_fn, hrun] at hworker; exact hworker hpc
  | removing error r =>
    exfalso
    cases error with
    | none => exact hremove none r (by simpa [step, irq_demo_init, irq_demo_exit, hpc] using hmodule)
    | some ret => exact hremove (some ret) r (by simpa [step, irq_demo_init, irq_demo_exit, hpc] using hmodule)
  | failed ret => rfl
  | returned => rfl
  | _ =>
    rw [hpc] at hcancelled
    simp [ModulePc.cancelled, ModulePc.stage] at hcancelled

end Stuck

/-! ### Runs -/

theorem Doomed.not_leavesNothing (hd : Doomed s) (hended : s.pc.ended) : ¬ LeavesNothing s := by
  intro hleaves
  have hidle := hleaves hended
  rcases hd.left with hqueued | ⟨-, hworker⟩
  · rw [hidle.queued] at hqueued
    cases hqueued
  · exact hworker hidle.worker

/-- From a doomed state the module can be gone with the work item still there. -/
theorem Doomed.reaches (hs : (system c).Reachable s) (hd : Doomed s) :
    ∃ t, (system c).Steps System.Any s t ∧ ¬ LeavesNothing t := by
  have hprog : ∀ s a t, Doomed s → Finishing s a → (system c).step s a = some t → Doomed t ∧ t.rank < s.rank :=
    fun s a t hd hfinish h => hd.step hfinish h
  obtain ⟨t, hrun, ht, hstuck⟩ := System.exists_stuck State.rank hprog hd
  have hreach := hs.steps hrun
  have hended := stuck_ended (Inv.of_reachable hreach) (held_of_reachable hreach) ht.cancelled hstuck
  exact ⟨t, hrun.any, ht.not_leavesNothing hended⟩

/-- An unguarded step dooms the module. -/
theorem doomed_of_unguarded {a : Action c} (hguard : ¬ Guarded s a) (h : step s a = some t) : Doomed t := by
  cases a with
  | module ret =>
    simp only [Guarded, not_forall, not_and] at hguard
    obtain ⟨hpc, hret, hleft⟩ := hguard
    simp only [step, irq_demo_init, hpc, if_neg hret, Option.some_or, Option.some.injEq] at h
    subst h
    refine ⟨by simp [ModulePc.cancelled, ModulePc.stage], ?_⟩
    by_cases hqueued : s.shared.queued = true
    · exact .inl hqueued
    · exact .inr ⟨rfl, hleft (Bool.eq_false_iff.mpr hqueued)⟩
  | write i a =>
    cases a with
    | call => exact absurd trivial hguard
    | step =>
      simp only [Guarded, not_forall, not_not] at hguard
      obtain ⟨len, hpc, hcancelled⟩ := hguard
      simp only [step, State.stepWrite, hpc, irq_demo_trigger_write, Option.bind_eq_bind, Option.bind_some,
        Option.some.injEq] at h
      subst h
      exact ⟨hcancelled, .inl rfl⟩
  | _ => exact absurd trivial hguard

/-- No guarded run leaves anything behind, and after any step that is not guarded some run does. -/
theorem leavesNothing_iff_guarded :
    (∀ s, (system c).ReachableUnder Guarded s → LeavesNothing s) ∧
    (∀ s t a, (system c).Reachable s → step s a = some t → ¬ Guarded s a →
      ∃ u, (system c).Steps System.Any t u ∧ ¬ LeavesNothing u) := by
  constructor
  · exact fun s hs => leavesNothing_of_guarded hs
  · intro s t a hs hstep hguard
    exact (doomed_of_unguarded hguard hstep).reaches (hs.step (a := a) hstep)

/-- The fallback mode with one read and one trigger write. -/
def demo : Config := ⟨-1, 64, 1, 1⟩

/-- The timer fires once, the work item runs, and the module is unloaded. -/
def unloading : List (Action demo) :=
  List.replicate 5 (.module 0) ++ .timerFires :: List.replicate 6 .timer ++ List.replicate 3 .worker ++
    List.replicate 8 (.module 0)

def unloaded : State demo := ((system demo).run (initial demo) unloading).get rfl

theorem unloaded_leavesNothing : unloaded.pc.ended ∧ LeavesNothing unloaded := by
  refine ⟨rfl, leavesNothing_iff_guarded.1 unloaded (.of_run rfl ?_ (Option.some_get _).symm)⟩
  intro a ha s
  have hcases : a = .module 0 ∨ a = .timerFires ∨ a = .timer ∨ a = .worker := by
    simp only [unloading, List.mem_append, List.mem_cons, List.mem_replicate] at ha
    tauto
  rcases hcases with rfl | rfl | rfl | rfl
  · exact fun _ hret => absurd rfl hret
  · trivial
  · trivial
  · trivial

/-- A trigger write begins after `cancel_work_sync` and ends before the removal of its entry. -/
def rearming : List (Action demo) :=
  List.replicate 9 (.module 0) ++ .write ⟨0, Nat.one_pos⟩ (.call 2) :: List.replicate 5 (.write ⟨0, Nat.one_pos⟩ .step) ++
    List.replicate 4 (.module 0)

def rearmed : State demo := ((system demo).run (initial demo) rearming).get rfl

/-- The module is gone and its work item is still queued. -/
theorem rearmed_left : ¬ ∀ s, (system demo).Reachable s → LeavesNothing s := by
  intro hnever
  have hreach : (system demo).Reachable rearmed := .of_run rfl (fun _ _ _ => trivial) (Option.some_get _).symm
  have hidle : Idle rearmed := hnever rearmed hreach rfl
  have hqueued := hidle.queued
  cases hqueued

end Armv8Driver.IrqDemo
