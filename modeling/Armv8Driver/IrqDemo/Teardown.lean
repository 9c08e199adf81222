import Armv8Driver.IrqDemo.Model

/-!
# The teardown of `irq_demo`

Both ways out of the module are one line of stages, on which each source of events is shut down for
good at its own stage. Only the work item is not: a trigger write can queue it again after
`cancel_work_sync`, and the error path of `irq_demo_init` has no `cancel_work_sync` at all. In the runs
in which neither happens nothing is left behind.
-/

namespace Armv8Driver.IrqDemo

open Kernel Transition

variable {c : Config} {s t : State c}

/-- How far the module has come. A failing `irq_demo_init` skips to the removal of the entries. -/
def ModulePc.stage : ModulePc → Nat
  | .setup | .procCreate | .procCreateTrigger | .mode => 0
  | .requestIrq | .startTimer => 1
  | .loaded => 2
  | .freeIrq | .cancelTimer => 3
  | .syncIrq => 4
  | .cancelWork => 5
  | .flushWork => 6
  | .removing _ .entry => 7
  | .removing _ .drainEntry => 8
  | .removing _ .trigger => 9
  | .removing _ .drainTrigger => 10
  | .failed _ | .returned => 11

/-- No `cancel_work_sync` will take the work item off the queue any more. -/
def ModulePc.cancelled (pc : ModulePc) : Prop := 6 ≤ pc.stage

/-- `irq_demo_exit` has returned, or `irq_demo_init` has returned an error. -/
def ModulePc.ended (pc : ModulePc) : Prop := pc.stage = 11

/-- The value of `using_fallback` at the places that only one of the two modes gets to. -/
def ModulePc.fallback : ModulePc → Option Bool
  | .requestIrq | .freeIrq | .syncIrq => some false
  | .startTimer | .cancelTimer => some true
  | _ => none

/-- The work item is neither queued nor running, and no handler runs or can be started. -/
structure Idle (s : State c) : Prop where
  queued : s.shared.queued = false
  worker : s.worker = none
  armed : s.armed = false
  timer : s.timer = .idle
  registered : s.registered = false
  isr : s.isr = none
  woken : s.woken = false
  thread : s.thread = none
  entry : s.entry = false
  reads : ∀ i, (s.reads i).inFlight = false
  trigger : s.trigger = false
  writes : ∀ i, (s.writes i).inFlight = false

def LeavesNothing (s : State c) : Prop := s.pc.ended → Idle s

/-- A trigger write does not queue the work item when no `cancel_work_sync` will follow, and
`request_threaded_irq` does not fail while the work item is queued or running. -/
def Guarded (s : State c) : Action c → Prop
  | .write i .step => ∀ len, s.writes i = .schedule len → ¬ s.pc.cancelled
  | .module ret => s.pc = .requestIrq → ret ≠ 0 → s.shared.queued = false ∧ s.worker = none
  | _ => True

/-- Up to which stage each source of events can be alive. -/
structure Inv (s : State c) : Prop where
  fallback : ∀ b, s.pc.fallback = some b → s.using_fallback = b
  timer : s.armed = true ∨ s.timer ≠ .idle → s.using_fallback = true ∧ 2 ≤ s.pc.stage ∧ s.pc.stage ≤ 3
  registered : s.registered = true → s.using_fallback = false ∧ 2 ≤ s.pc.stage ∧ s.pc.stage ≤ 3
  irq : s.isr ≠ none ∨ s.woken = true ∨ s.thread ≠ none →
    s.using_fallback = false ∧ 2 ≤ s.pc.stage ∧ s.pc.stage ≤ 4
  entry : s.entry = true → s.pc.stage ≤ 7
  reads : ∀ i, (s.reads i).inFlight = true → s.pc.stage ≤ 8
  trigger : s.trigger = true → s.pc.stage ≤ 9
  writes : ∀ i, (s.writes i).inFlight = true → s.pc.stage ≤ 10

/-- No handler of the timer or of the interrupt runs or can be started. -/
structure NoHandler (s : State c) : Prop where
  timer : ¬ (s.armed = true ∨ s.timer ≠ .idle)
  registered : ¬ s.registered = true
  irq : ¬ (s.isr ≠ none ∨ s.woken = true ∨ s.thread ≠ none)

theorem Inv.noHandler (hi : Inv s) (hstage : s.pc.stage ≤ 1 ∨ 5 ≤ s.pc.stage) : NoHandler s := by
  refine ⟨fun h => ?_, fun h => ?_, fun h => ?_⟩
  · have halive := (hi.timer h).2
    omega
  · have halive := (hi.registered h).2
    omega
  · have halive := (hi.irq h).2
    omega

/-- Before the entries are removed the stages bound nothing but the handlers. -/
theorem Inv.of_early (n : Nat) (hstage : t.pc.stage = n) (hn : n ≤ 7)
    (hmode : ∀ b, t.pc.fallback = some b → t.using_fallback = b)
    (htimer : t.armed = true ∨ t.timer ≠ .idle → t.using_fallback = true ∧ 2 ≤ n ∧ n ≤ 3)
    (hreg : t.registered = true → t.using_fallback = false ∧ 2 ≤ n ∧ n ≤ 3)
    (hirq : t.isr ≠ none ∨ t.woken = true ∨ t.thread ≠ none → t.using_fallback = false ∧ 2 ≤ n ∧ n ≤ 4) : Inv t := by
  subst hstage
  exact ⟨hmode, htimer, hreg, hirq, fun _ => hn, fun _ _ => by omega, fun _ => by omega, fun _ _ => by omega⟩

theorem Inv.of_noHandler (n : Nat) (hno : NoHandler t) (hstage : t.pc.stage = n) (hn : n ≤ 7)
    (hmode : ∀ b, t.pc.fallback = some b → t.using_fallback = b) : Inv t :=
  .of_early n hstage hn hmode (fun h => absurd h hno.timer) (fun h => absurd h hno.registered) fun h => absurd h hno.irq

/-- While the entries are removed the stages bound the calls of the two handlers. -/
theorem Inv.of_removing (n : Nat) (hno : NoHandler t) (hstage : t.pc.stage = n)
    (hmode : ∀ b, t.pc.fallback = some b → t.using_fallback = b) (hentry : t.entry = true → n ≤ 7)
    (hreads : ∀ i, (t.reads i).inFlight = true → n ≤ 8) (htrigger : t.trigger = true → n ≤ 9)
    (hwrites : ∀ i, (t.writes i).inFlight = true → n ≤ 10) : Inv t := by
  subst hstage
  exact ⟨hmode, fun h => absurd h hno.timer, fun h => absurd h hno.registered, fun h => absurd h hno.irq, hentry, hreads,
    htrigger, hwrites⟩

theorem ModulePc.stage_removing {error : Option Int} {r : RemovePc} : 7 ≤ (ModulePc.removing error r).stage := by
  cases r <;> simp [ModulePc.stage]

theorem Inv.removing {error : Option Int} {r : RemovePc} (hi : Inv s) (hpc : s.pc = .removing error r)
    (h : remove_proc_entries s error r = some t) : Inv t := by
  have hlate : 7 ≤ s.pc.stage := hpc ▸ ModulePc.stage_removing
  obtain ⟨htimer, hreg, hirq⟩ := hi.noHandler (.inr (by omega))
  have hentry := hi.entry
  have hreads := hi.reads
  have htrigger := hi.trigger
  rw [hpc] at hentry hreads htrigger
  cases r with
  | entry =>
    cases h
    exact .of_removing 8 ⟨htimer, hreg, hirq⟩ rfl nofun nofun (fun _ _ => by decide) (fun _ => by decide)
      fun _ _ => by decide
  | drainEntry =>
    obtain ⟨hdrained, hs⟩ := Option.ite_none_right_eq_some.mp h
    cases hs
    have hentry : s.entry = true → 8 ≤ 7 := hentry
    exact .of_removing 9 ⟨htimer, hreg, hirq⟩ rfl nofun (fun h => absurd (hentry h) (by decide))
      (fun i h => nomatch (hdrained i).symm.trans h) (fun _ => by decide) fun _ _ => by decide
  | trigger =>
    cases h
    have hentry : s.entry = true → 9 ≤ 7 := hentry
    have hreads : ∀ i, (s.reads i).inFlight = true → 9 ≤ 8 := hreads
    exact .of_removing 10 ⟨htimer, hreg, hirq⟩ rfl nofun (fun h => absurd (hentry h) (by decide))
      (fun i h => absurd (hreads i h) (by decide)) nofun fun _ _ => by decide
  | drainTrigger =>
    obtain ⟨hdrained, hs⟩ := Option.ite_none_right_eq_some.mp h
    cases hs
    have hentry : s.entry = true → 10 ≤ 7 := hentry
    have hreads : ∀ i, (s.reads i).inFlight = true → 10 ≤ 8 := hreads
    have htrigger : s.trigger = true → 10 ≤ 9 := htrigger
    exact .of_removing 11 ⟨htimer, hreg, hirq⟩ (by cases error <;> rfl) (by cases error <;> exact nofun)
      (fun h => absurd (hentry h) (by decide)) (fun i h => absurd (hreads i h) (by decide))
      (fun h => absurd (htrigger h) (by decide)) fun i h => nomatch (hdrained i).symm.trans h

theorem Inv.module {ret : Int} (hi : Inv s) (h : ModuleMove s ret t) : Inv t := by
  have hmode := hi.fallback
  cases h with
  | removing hpc hremove => exact hi.removing hpc hremove
  | setup hpc | procCreate hpc | procCreateTrigger hpc =>
    obtain ⟨htimer, hreg, hirq⟩ := hi.noHandler (.inl (by rw [hpc]; decide))
    exact .of_noHandler 0 ⟨htimer, hreg, hirq⟩ rfl (by decide) nofun
  | realIrq _ hpc | fallback _ hpc =>
    obtain ⟨htimer, hreg, hirq⟩ := hi.noHandler (.inl (by rw [hpc]; decide))
    exact .of_noHandler 1 ⟨htimer, hreg, hirq⟩ rfl (by decide) fun b hb => Option.some.inj hb
  | requestFails _ hpc =>
    obtain ⟨htimer, hreg, hirq⟩ := hi.noHandler (.inl (by rw [hpc]; decide))
    exact .of_noHandler 7 ⟨htimer, hreg, hirq⟩ rfl (by decide) nofun
  | requestIrq _ hpc =>
    have hreal := hmode false (by rw [hpc]; rfl)
    obtain ⟨htimer, -, hirq⟩ := hi.noHandler (.inl (by rw [hpc]; decide))
    exact .of_early 2 rfl (by decide) nofun (fun h => absurd h htimer) (fun _ => ⟨hreal, by decide, by decide⟩)
      fun h => absurd h hirq
  | startTimer hpc =>
    have hfallback := hmode true (by rw [hpc]; rfl)
    obtain ⟨-, hreg, hirq⟩ := hi.noHandler (.inl (by rw [hpc]; decide))
    exact .of_early 2 rfl (by decide) nofun (fun _ => ⟨hfallback, by decide, by decide⟩) (fun h => absurd h hreg)
      fun h => absurd h hirq
  | exitFallback hfallback hpc =>
    exact .of_early 3 rfl (by decide) (fun b hb => hfallback.trans (Option.some.inj hb))
      (fun _ => ⟨hfallback, by decide, by decide⟩) (fun h => nomatch hfallback.symm.trans (hi.registered h).1)
      fun h => nomatch hfallback.symm.trans (hi.irq h).1
  | exitIrq hreal hpc =>
    exact .of_early 3 rfl (by decide) (fun b hb => hreal.trans (Option.some.inj hb))
      (fun h => nomatch hreal.symm.trans (hi.timer h).1) (fun _ => ⟨hreal, by decide, by decide⟩)
      fun _ => ⟨hreal, by decide, by decide⟩
  | freeIrq hpc =>
    have hreal := hmode false (by rw [hpc]; rfl)
    exact .of_early 4 rfl (by decide) (fun b hb => hreal.trans (Option.some.inj hb))
      (fun h => nomatch hreal.symm.trans (hi.timer h).1) nofun fun _ => ⟨hreal, by decide, by decide⟩
  | syncIrq hidle hpc =>
    have hreal := hmode false (by rw [hpc]; rfl)
    refine .of_early 5 rfl (by decide) nofun (fun h => nomatch hreal.symm.trans (hi.timer h).1) (fun h => ?_) fun h => ?_
    · have halive := (hi.registered h).2.2
      rw [hpc] at halive
      exact absurd halive (by decide)
    · rcases h with hisr | hwoken | hthread
      · exact absurd hidle.1 hisr
      · exact nomatch hidle.2.1.symm.trans hwoken
      · exact absurd hidle.2.2 hthread
  | cancelTimer hidle hpc =>
    have hfallback := hmode true (by rw [hpc]; rfl)
    exact .of_early 5 rfl (by decide) nofun (fun h => h.elim nofun fun halive => absurd hidle halive)
      (fun h => nomatch hfallback.symm.trans (hi.registered h).1) fun h => nomatch hfallback.symm.trans (hi.irq h).1
  | cancelWork hpc =>
    obtain ⟨htimer, hreg, hirq⟩ := hi.noHandler (.inr (by rw [hpc]; decide))
    exact .of_noHandler 6 ⟨htimer, hreg, hirq⟩ rfl (by decide) nofun
  | flushWork _ hpc =>
    obtain ⟨htimer, hreg, hirq⟩ := hi.noHandler (.inr (by rw [hpc]; decide))
    exact .of_noHandler 7 ⟨htimer, hreg, hirq⟩ rfl (by decide) nofun

/-! ### Steps of the handlers -/

theorem irq_demo_read_inFlight {entry fallback : Bool} {i : Fin c.reads} {m m' : Shared c} {pc pc' : ReadPc}
    {a : ReadStep} (h : irq_demo_read entry fallback i m pc a = some (m', pc')) :
    pc.inFlight = true ∨ entry = true := by
  cases irq_demo_read_move h with
  | atEnd hentry => exact .inr hentry
  | call hentry => exact .inr hentry
  | _ => exact .inl rfl

theorem irq_demo_trigger_write_inFlight {entry : Bool} {i : Fin c.writes} {m m' : Shared c} {pc pc' : WritePc}
    {a : WriteStep} (h : irq_demo_trigger_write entry i m pc a = some (m', pc')) :
    pc.inFlight = true ∨ entry = true := by
  cases pc with
  | notCalled =>
    cases a with
    | call len =>
      obtain ⟨hentry, -⟩ := Option.ite_none_right_eq_some.mp h
      exact .inr hentry
    | step => cases h
  | returned => cases a <;> cases h
  | _ => exact .inl rfl

theorem Inv.stepRead {i : Fin c.reads} {a : ReadStep} (hi : Inv s) (h : s.stepRead i a = some t) : Inv t := by
  obtain ⟨⟨m', pc'⟩, hstep, ht⟩ := Option.bind_eq_some_iff.mp h
  cases ht
  refine ⟨hi.fallback, hi.timer, hi.registered, hi.irq, hi.entry, fun j hin => ?_, hi.trigger, hi.writes⟩
  by_cases hj : j = i
  · rcases irq_demo_read_inFlight hstep with hbefore | hentry
    · exact hi.reads i hbefore
    · have hstage := hi.entry hentry
      simp only
      omega
  · simp only [Function.update_of_ne hj] at hin
    exact hi.reads j hin

theorem Inv.stepWrite {i : Fin c.writes} {a : WriteStep} (hi : Inv s) (h : s.stepWrite i a = some t) : Inv t := by
  obtain ⟨⟨m', pc'⟩, hstep, ht⟩ := Option.bind_eq_some_iff.mp h
  cases ht
  refine ⟨hi.fallback, hi.timer, hi.registered, hi.irq, hi.entry, hi.reads, hi.trigger, fun j hin => ?_⟩
  by_cases hj : j = i
  · rcases irq_demo_trigger_write_inFlight hstep with hbefore | hentry
    · exact hi.writes i hbefore
    · have hstage := hi.trigger hentry
      simp only
      omega
  · simp only [Function.update_of_ne hj] at hin
    exact hi.writes j hin

/-- A step of the callback or an expiry of the timer needs a timer that is alive. -/
theorem Inv.stepTimer (hi : Inv s) (halive : s.armed = true ∨ s.timer ≠ .idle) {m : Shared c} {armed : Bool}
    {pc : TimerPc} : Inv { s with shared := m, armed := armed, timer := pc } :=
  ⟨hi.fallback, fun _ => hi.timer halive, hi.registered, hi.irq, hi.entry, hi.reads, hi.trigger, hi.writes⟩

theorem Inv.step {a : Action c} (hi : Inv s) (h : step s a = some t) : Inv t := by
  cases a with
  | module ret => exact hi.module (module_move h)
  | timerFires =>
    obtain ⟨⟨harmed, -⟩, hs⟩ := Option.ite_none_right_eq_some.mp h
    cases hs
    exact hi.stepTimer (.inl harmed)
  | timer =>
    obtain ⟨x, hstep, ht⟩ := Option.bind_eq_some_iff.mp h
    cases ht
    exact hi.stepTimer (.inr (fallback_timer_fn_alive hstep))
  | irqFires =>
    obtain ⟨⟨hreg, -⟩, hs⟩ := Option.ite_none_right_eq_some.mp h
    cases hs
    obtain ⟨hmode, hlow, hhigh⟩ := hi.registered hreg
    exact ⟨hi.fallback, hi.timer, hi.registered, fun _ => ⟨hmode, hlow, Nat.le_succ_of_le hhigh⟩, hi.entry, hi.reads, hi.trigger,
      hi.writes⟩
  | isr =>
    obtain ⟨b, hisr, hrest⟩ := Option.bind_eq_some_iff.mp h
    obtain ⟨x, -, ht⟩ := Option.bind_eq_some_iff.mp hrest
    cases ht
    have halive := hi.irq (.inl (by rw [hisr]; exact nofun))
    exact ⟨hi.fallback, hi.timer, hi.registered, fun _ => halive, hi.entry, hi.reads, hi.trigger, hi.writes⟩
  | thread =>
    obtain ⟨halive, ht⟩ := threaded_isr_spec h
    rw [ht]
    exact ⟨hi.fallback, hi.timer, hi.registered, fun _ => hi.irq (.inr halive), hi.entry, hi.reads, hi.trigger,
      hi.writes⟩
  | worker =>
    obtain ⟨x, -, ht⟩ := Option.bind_eq_some_iff.mp h
    cases ht
    exact ⟨hi.fallback, hi.timer, hi.registered, hi.irq, hi.entry, hi.reads, hi.trigger, hi.writes⟩
  | read i a => exact hi.stepRead h
  | write i a => exact hi.stepWrite h

theorem Inv.initial : Inv (initial c) :=
  ⟨nofun, fun h => by simp [IrqDemo.initial] at h, nofun, fun h => by simp [IrqDemo.initial] at h, nofun, nofun,
    nofun, nofun⟩

theorem Inv.of_reachable (hs : (system c).Reachable s) : Inv s := by
  apply hs.invariant
  · rintro s rfl
    exact .initial
  · exact fun s a t hi h => hi.step h

/-! ### The work item -/

theorem do_hard_isr_work_queued {th : Thread c} {m m' : Shared c} {pc : TopHalf} {pc' : Option TopHalf}
    (h : do_hard_isr_work th m pc = some (m', pc')) : m'.queued = m.queued := by
  cases pc with
  | lock =>
    obtain ⟨l, -, hs⟩ := Option.bind_eq_some_iff.mp h
    cases hs
    rfl
  | _ =>
    cases h
    rfl

theorem do_bottom_half_work_queued {m : Shared c} {b : BottomHalf} :
    (do_bottom_half_work m b).1.queued = m.queued := by
  rw [do_bottom_half_work_frame]

/-- While it runs the work item does not queue itself. -/
theorem fallback_workqueue_fn_queued {m m' : Shared c} {b : BottomHalf} {b' : Option BottomHalf}
    (h : fallback_workqueue_fn m (some b) = some (m', b')) : m'.queued = m.queued := by
  obtain ⟨hm, -⟩ := Prod.mk.inj (Option.some.inj h)
  rw [← hm]
  exact do_bottom_half_work_queued

theorem irq_demo_read_queued {entry fallback : Bool} {i : Fin c.reads} {m m' : Shared c} {pc pc' : ReadPc}
    {a : ReadStep} (h : irq_demo_read entry fallback i m pc a = some (m', pc')) : m'.queued = m.queued := by
  cases irq_demo_read_move h with
  | _ => rfl

/-- A trigger write queues the work item in its last step and leaves it alone in the others. -/
theorem irq_demo_trigger_write_queued {entry : Bool} {i : Fin c.writes} {m m' : Shared c} {pc pc' : WritePc}
    {a : WriteStep} (h : irq_demo_trigger_write entry i m pc a = some (m', pc')) :
    m'.queued = m.queued ∨ (∃ len, pc = .schedule len) ∧ a = .step ∧ m'.queued = true := by
  cases irq_demo_trigger_write_move h with
  | call => exact .inl rfl
  | top hwork => exact .inl (do_hard_isr_work_queued hwork)
  | last hwork => exact .inl (do_hard_isr_work_queued hwork)
  | schedule => exact .inr ⟨⟨_, rfl⟩, rfl, rfl⟩

/-- What the shutdown of the work item has achieved. -/
structure Quiesced (s : State c) : Prop where
  queued : s.pc.cancelled → s.shared.queued = false
  worker : 7 ≤ s.pc.stage → s.worker = none

theorem Quiesced.of_early (hstage : s.pc.stage ≤ 5) : Quiesced s := by
  constructor
  · intro hcancelled
    unfold ModulePc.cancelled at hcancelled
    omega
  · intro hlate
    omega

theorem Quiesced.of_idle (hqueued : s.shared.queued = false) (hworker : s.worker = none) : Quiesced s :=
  ⟨fun _ => hqueued, fun _ => hworker⟩

/-- A step that leaves the module's own thread and the work item alone. -/
theorem Quiesced.frame (hq : Quiesced s) (hpc : t.pc = s.pc) (hqueued : t.shared.queued = s.shared.queued)
    (hworker : t.worker = s.worker) : Quiesced t := by
  constructor
  · rw [hpc, hqueued]
    exact hq.queued
  · rw [hpc, hworker]
    exact hq.worker

theorem Quiesced.removing {error : Option Int} {r : RemovePc} (hq : Quiesced s) (hpc : s.pc = .removing error r)
    (h : remove_proc_entries s error r = some t) : Quiesced t := by
  have hstage : 7 ≤ s.pc.stage := hpc ▸ ModulePc.stage_removing
  have hcancelled : s.pc.cancelled := Nat.le_of_succ_le hstage
  rw [remove_proc_entries_frame h]
  exact .of_idle (hq.queued hcancelled) (hq.worker hstage)

theorem Quiesced.module {ret : Int} (hq : Quiesced s) (hguard : Guarded s (.module ret)) (h : ModuleMove s ret t) :
    Quiesced t := by
  cases h with
  | requestFails hret hpc =>
    have hidle := hguard hpc hret
    exact .of_idle hidle.1 hidle.2
  | removing hpc hremove => exact hq.removing hpc hremove
  | cancelWork => exact ⟨fun _ => rfl, fun hlate => absurd hlate (by simp [ModulePc.stage])⟩
  | flushWork hidle hpc =>
    have hcancelled : s.pc.cancelled := by
      rw [hpc]
      exact Nat.le_refl 6
    exact .of_idle (hq.queued hcancelled) hidle
  | _ => exact .of_early (by simp [ModulePc.stage])

/-- Only a queued work item is started. -/
theorem Quiesced.stepWorker (hq : Quiesced s) (h : s.stepWorker = some t) : Quiesced t := by
  obtain ⟨⟨m', b'⟩, hstep, ht⟩ := Option.bind_eq_some_iff.mp h
  cases ht
  cases hworker : s.worker with
  | none =>
    rw [hworker] at hstep
    obtain ⟨hqueued, -⟩ := Option.ite_none_right_eq_some.mp hstep
    apply Quiesced.of_early
    by_contra hlate
    have hfalse := hq.queued (show 6 ≤ s.pc.stage by simp only at hlate; omega)
    rw [hqueued] at hfalse
    cases hfalse
  | some b =>
    rw [hworker] at hstep
    refine ⟨fun hcancelled => ?_, fun hlate => ?_⟩
    · exact (fallback_workqueue_fn_queued hstep).trans (hq.queued hcancelled)
    · have hnone := hq.worker hlate
      rw [hworker] at hnone
      cases hnone

theorem Quiesced.stepWrite {i : Fin c.writes} {a : WriteStep} (hq : Quiesced s) (hguard : Guarded s (.write i a))
    (h : s.stepWrite i a = some t) : Quiesced t := by
  obtain ⟨⟨m', pc'⟩, hstep, ht⟩ := Option.bind_eq_some_iff.mp h
  cases ht
  rcases irq_demo_trigger_write_queued hstep with hqueued | ⟨⟨len, hpc⟩, rfl, -⟩
  · exact hq.frame rfl hqueued rfl
  · have hearly := hguard len hpc
    apply Quiesced.of_early
    simp only [ModulePc.cancelled] at hearly ⊢
    omega

theorem Quiesced.step {a : Action c} (hi : Inv s) (hq : Quiesced s) (hguard : Guarded s a)
    (h : step s a = some t) : Quiesced t := by
  -- a timer or an interrupt that is alive has its shutdown, and that of the work item, ahead
  have htimer : s.armed = true ∨ s.timer ≠ .idle → s.pc.stage ≤ 5 := by
    intro halive
    have hstage := (hi.timer halive).2.2
    omega
  have hirq : s.isr ≠ none ∨ s.woken = true ∨ s.thread ≠ none → s.pc.stage ≤ 5 := by
    intro halive
    have hstage := (hi.irq halive).2.2
    omega
  cases a with
  | module ret => exact hq.module hguard (module_move h)
  | timerFires =>
    obtain ⟨-, hs⟩ := Option.ite_none_right_eq_some.mp h
    cases hs
    exact hq.frame rfl rfl rfl
  | timer =>
    obtain ⟨x, hstep, ht⟩ := Option.bind_eq_some_iff.mp h
    cases ht
    exact .of_early (htimer (.inr (fallback_timer_fn_alive hstep)))
  | irqFires =>
    obtain ⟨-, hs⟩ := Option.ite_none_right_eq_some.mp h
    cases hs
    exact hq.frame rfl rfl rfl
  | isr =>
    obtain ⟨b, hisr, hrest⟩ := Option.bind_eq_some_iff.mp h
    obtain ⟨x, -, ht⟩ := Option.bind_eq_some_iff.mp hrest
    cases ht
    exact .of_early (hirq (.inl (by rw [hisr]; exact nofun)))
  | thread =>
    obtain ⟨halive, ht⟩ := threaded_isr_spec h
    rw [ht]
    exact .of_early (hirq (.inr halive))
  | worker => exact hq.stepWorker h
  | read i a =>
    obtain ⟨⟨m', pc'⟩, hstep, ht⟩ := Option.bind_eq_some_iff.mp h
    cases ht
    exact hq.frame rfl (irq_demo_read_queued hstep) rfl
  | write i a => exact hq.stepWrite hguard h

/-! ### Runs -/

/-- At the end the handlers are gone, whatever happened; the work item is if it is quiesced. -/
theorem Inv.idle (hi : Inv s) (hended : s.pc.ended) (hqueued : s.shared.queued = false) (hworker : s.worker = none) :
    Idle s := by
  unfold ModulePc.ended at hended
  have htimer : ¬ (s.armed = true ∨ s.timer ≠ .idle) := by
    intro halive
    have hstage := (hi.timer halive).2.2
    omega
  have hirq : ¬ (s.isr ≠ none ∨ s.woken = true ∨ s.thread ≠ none) := by
    intro halive
    have hstage := (hi.irq halive).2.2
    omega
  have hoff : ∀ {b : Bool} {k : Nat}, k < 11 → (b = true → s.pc.stage ≤ k) → b = false := by
    intro b k hk himp
    rw [Bool.eq_false_iff]
    intro hb
    have hstage := himp hb
    omega
  simp only [not_or, not_not, Bool.not_eq_true] at htimer hirq
  exact
    { queued := hqueued
      worker := hworker
      armed := htimer.1
      timer := htimer.2
      registered := hoff (by decide) fun hreg => (hi.registered hreg).2.2
      isr := hirq.1
      woken := hirq.2.1
      thread := hirq.2.2
      entry := hoff (by decide) hi.entry
      reads := fun i => hoff (by decide) (hi.reads i)
      trigger := hoff (by decide) hi.trigger
      writes := fun i => hoff (by decide) (hi.writes i) }

theorem ModulePc.ended_iff {pc : ModulePc} : pc.ended ↔ pc = .returned ∨ ∃ ret, pc = .failed ret := by
  cases pc with
  | removing error r => cases r <;> simp [ModulePc.ended, ModulePc.stage]
  | _ => simp [ModulePc.ended, ModulePc.stage]

/-- Nothing of an idle module that is gone can run any more. -/
theorem Idle.stuck (hidle : Idle s) (hended : s.pc.ended) : (system c).Stuck System.Any s := by
  intro a _
  by_contra hen
  obtain ⟨t, h⟩ := Option.ne_none_iff_exists'.mp hen
  cases a with
  | module ret =>
    have hnone : step s (.module ret) = none := by
      rcases ModulePc.ended_iff.mp hended with hpc | ⟨error, hpc⟩
      · simp [step, irq_demo_init, irq_demo_exit, hpc]
      · simp [step, irq_demo_init, irq_demo_exit, hpc]
    exact hen hnone
  | timerFires =>
    obtain ⟨⟨harmed, -⟩, -⟩ := Option.ite_none_right_eq_some.mp h
    exact absurd (harmed.symm.trans hidle.armed) (by decide)
  | timer =>
    obtain ⟨x, hstep, -⟩ := Option.bind_eq_some_iff.mp h
    exact fallback_timer_fn_alive hstep hidle.timer
  | irqFires =>
    obtain ⟨⟨hreg, -⟩, -⟩ := Option.ite_none_right_eq_some.mp h
    exact absurd (hreg.symm.trans hidle.registered) (by decide)
  | isr =>
    obtain ⟨b, hisr, -⟩ := Option.bind_eq_some_iff.mp h
    exact absurd (hisr.symm.trans hidle.isr) (by simp)
  | thread =>
    rcases (threaded_isr_spec h).1 with hwoken | hthread
    · exact absurd (hwoken.symm.trans hidle.woken) (by decide)
    · exact hthread hidle.thread
  | worker =>
    obtain ⟨x, hstep, -⟩ := Option.bind_eq_some_iff.mp h
    rw [hidle.worker] at hstep
    obtain ⟨hqueued, -⟩ := Option.ite_none_right_eq_some.mp hstep
    exact absurd (hqueued.symm.trans hidle.queued) (by decide)
  | read i a =>
    obtain ⟨⟨m', pc'⟩, hstep, -⟩ := Option.bind_eq_some_iff.mp h
    rcases irq_demo_read_inFlight hstep with hin | hentry
    · exact absurd (hin.symm.trans (hidle.reads i)) (by decide)
    · exact absurd (hentry.symm.trans hidle.entry) (by decide)
  | write i a =>
    obtain ⟨⟨m', pc'⟩, hstep, -⟩ := Option.bind_eq_some_iff.mp h
    rcases irq_demo_trigger_write_inFlight hstep with hin | hentry
    · exact absurd (hin.symm.trans (hidle.writes i)) (by decide)
    · exact absurd (hentry.symm.trans hidle.trigger) (by decide)

/-- In every run whose steps are all guarded, nothing is left behind. -/
theorem leavesNothing_of_guarded (hs : (system c).ReachableUnder Guarded s) : LeavesNothing s := by
  have hinv : Inv s ∧ Quiesced s := by
    apply hs.invariant
    · rintro s rfl
      exact ⟨.initial, .of_early (Nat.zero_le _)⟩
    · exact fun s a t hi hok h => ⟨hi.1.step h, hi.2.step hi.1 hok h⟩
  intro hended
  have hstage : s.pc.stage = 11 := hended
  have hcancelled : s.pc.cancelled := by
    unfold ModulePc.cancelled
    omega
  exact hinv.1.idle hended (hinv.2.queued hcancelled) (hinv.2.worker (by omega))

end Armv8Driver.IrqDemo
