import Armv8Driver.IrqDemo.Wakeup

/-!
# `irq_demo` on a real interrupt

A rising edge runs `hard_isr`, which wakes the interrupt thread; an edge that comes before the thread has run, or while
it sleeps, asks for the same run of it or for one more. Together with the timer, the trigger writes and the work item,
and through `irq_demo_exit` and a failing `irq_demo_init` as well: no bottom half runs without an increment of its own,
and until `cancel_work_sync` the last increment has one to come.
-/

namespace Armv8Driver.IrqDemo

open Kernel Transition

variable {c : Config} {s t : State c} {m m' : Shared c} {log : List (Event c)}

/-- The bottom halves that have been asked for, or are about to be. -/
def State.upcoming (s : State c) : Nat :=
  s.pending + s.shared.queued.toNat + s.worker.isSome.toNat + (s.isr.any TopHalf.counted).toNat + s.woken.toNat +
    s.thread.isSome.toNat

/-- Neither the timer, the trigger writes and the work item nor the two interrupt handlers have a bottom half to come. -/
structure Quiet (s : State c) : Prop where
  settled : Settled s
  isr : s.isr.any TopHalf.counted = false
  woken : s.woken = false
  thread : s.thread = none

/-- `cancel_work_sync` has taken the work item off the queue. -/
def ModulePc.dropped : ModulePc → Bool
  | .flushWork | .removing none _ | .returned => true
  | _ => false

theorem Quiet.upcoming (hs : Quiet s) : s.upcoming = 0 := by
  rw [State.upcoming, hs.settled.pending, hs.settled.queued, hs.settled.worker, hs.isr, hs.woken, hs.thread]
  rfl

/-! ### The module's own thread -/

theorem step_pc {a : Action c} (h : step s a = some t) : (∃ ret, a = .module ret) ∨ t.pc = s.pc := by
  cases a with
  | module ret => exact .inl ⟨ret, rfl⟩
  | timerFires | irqFires =>
    obtain ⟨-, hs⟩ := Option.ite_none_right_eq_some.mp h
    cases hs
    exact .inr rfl
  | isr =>
    obtain ⟨b, -, hrest⟩ := Option.bind_eq_some_iff.mp h
    obtain ⟨_, -, ht⟩ := Option.bind_eq_some_iff.mp hrest
    cases ht
    exact .inr rfl
  | thread =>
    rw [(threaded_isr_spec h).2]
    exact .inr rfl
  | _ =>
    obtain ⟨_, -, ht⟩ := Option.bind_eq_some_iff.mp h
    cases ht
    exact .inr rfl

theorem removing_pc {error : Option Int} {r : RemovePc} (h : remove_proc_entries s error r = some t) :
    t.pc ≠ .setup ∧ (error = none → t.pc.dropped = true) := by
  cases r with
  | drainEntry =>
    obtain ⟨-, hs⟩ := Option.ite_none_right_eq_some.mp h
    cases hs
    exact ⟨nofun, fun herror => by rw [herror]; rfl⟩
  | drainTrigger =>
    obtain ⟨-, hs⟩ := Option.ite_none_right_eq_some.mp h
    cases hs
    cases error with
    | none => exact ⟨nofun, fun _ => rfl⟩
    | some ret => exact ⟨nofun, nofun⟩
  | _ =>
    cases h
    exact ⟨nofun, fun herror => by rw [herror]; rfl⟩

theorem ModuleMove.pc {ret : Int} (h : ModuleMove s ret t) :
    t.pc ≠ .setup ∧ (s.pc.dropped = true → t.pc.dropped = true) := by
  cases h with
  | @removing error r _ hpc hremove =>
    obtain ⟨hne, hdropped⟩ := removing_pc hremove
    refine ⟨hne, fun hs => hdropped ?_⟩
    rw [hpc] at hs
    cases error with
    | none => rfl
    | some ret => cases hs
  | cancelWork hpc => exact ⟨nofun, fun _ => rfl⟩
  | flushWork _ hpc => exact ⟨nofun, fun _ => rfl⟩
  | _ =>
    rename_i hpc
    exact ⟨nofun, fun hs => by rw [hpc] at hs; cases hs⟩

theorem step_dropped {a : Action c} (h : step s a = some t) (hs : s.pc.dropped = true) : t.pc.dropped = true := by
  rcases step_pc h with ⟨ret, rfl⟩ | hpc
  · exact (module_move h).pc.2 hs
  · rw [hpc]
    exact hs

/-- Nothing runs before `irq_demo_init`. -/
theorem initial_of_setup (hs : (system c).Reachable s) : s.pc = .setup → s = initial c := by
  refine hs.invariant (I := fun s => s.pc = .setup → s = initial c) (fun s hinit _ => hinit) ?_
  intro s a t hi h hpc
  rcases step_pc h with ⟨ret, rfl⟩ | hsame
  · exact absurd hpc (module_move h).pc.1
  · have hfirst : step (initial c) a = some t := hi (hsame ▸ hpc) ▸ h
    obtain ⟨ret, rfl⟩ := initial_step hfirst
    exact absurd hpc (module_move hfirst).pc.1

/-! ### The bottom halves to come -/

/-- What a step does to the bottom halves to come. -/
inductive UpcomingStep (s t : State c) : Option (Event c) → Prop where
  | other {e : Option (Event c)} (hi : e ≠ some .increment) (hc : e ≠ some .complete) (hle : t.upcoming ≤ s.upcoming)
      (hpos : 0 < s.upcoming → 0 < t.upcoming) : UpcomingStep s t e
  | increment (h : t.upcoming = s.upcoming + 1) : UpcomingStep s t (some .increment)
  | complete (h : t.upcoming + 1 = s.upcoming) : UpcomingStep s t (some .complete)
  | drop (hle : t.upcoming ≤ s.upcoming) (hpc : t.pc = .flushWork) : UpcomingStep s t none

theorem UpcomingStep.same {e : Option (Event c)} (hi : e ≠ some .increment) (hc : e ≠ some .complete)
    (h : t.upcoming = s.upcoming) : UpcomingStep s t e :=
  .other hi hc (Nat.le_of_eq h) fun hs => h ▸ hs

theorem UpcomingStep.silent (hle : t.upcoming ≤ s.upcoming) (hpos : 0 < s.upcoming → 0 < t.upcoming) :
    UpcomingStep s t none :=
  .other (Option.some_ne_none _).symm (Option.some_ne_none _).symm hle hpos

theorem UpcomingStep.silent_same (h : t.upcoming = s.upcoming) : UpcomingStep s t none :=
  .silent (Nat.le_of_eq h) fun hs => h ▸ hs

/-- A step of a top half that is followed by `schedule_work`. -/
theorem UpcomingStep.of_top {before after : Bool} {e : Option (Event c)}
    (hk : t.upcoming + before.toNat + s.shared.queued.toNat = s.upcoming + after.toNat + t.shared.queued.toNat)
    (h : TopMoves s.shared t.shared before after e) : UpcomingStep s t e := by
  rcases h with ⟨he, rfl, hq⟩ | ⟨rfl, rfl, rfl, hq⟩ | ⟨rfl, rfl, rfl, hq⟩
  · rw [hq] at hk
    exact .same (fun h => Bool.noConfusion (he _ h)) (fun h => Bool.noConfusion (he _ h)) (by omega)
  · rw [hq, Bool.toNat_false, Bool.toNat_true] at hk
    exact .increment (by omega)
  · rw [hq, Bool.toNat_false, Bool.toNat_true] at hk
    have hqueued : t.shared.queued.toNat ≤ t.upcoming := by
      unfold State.upcoming
      omega
    rw [hq, Bool.toNat_true] at hqueued
    exact .other nofun nofun (by omega) fun _ => hqueued

theorem module_upcoming {ret : Int} (hsetup : s.pc = .setup → s = initial c) (h : ModuleMove s ret t) :
    UpcomingStep s t none := by
  cases h with
  | setup hpc =>
    rw [hsetup hpc]
    exact .silent_same rfl
  | removing _ hremove =>
    rw [remove_proc_entries_frame hremove]
    exact .silent_same rfl
  | cancelWork hpc =>
    refine .drop ?_ rfl
    simp only [State.upcoming, State.pending, Bool.toNat_false]
    omega
  | _ => exact .silent_same rfl

theorem hard_isr_upcoming (h : s.hard_isr = some t) : UpcomingStep s t (s.isr.bind TopHalf.event) := by
  obtain ⟨b, hisr, hrest⟩ := Option.bind_eq_some_iff.mp h
  obtain ⟨⟨m', b'⟩, hwork, ht⟩ := Option.bind_eq_some_iff.mp hrest
  cases ht
  rw [hisr, Option.bind_some]
  cases b with
  | lock =>
    obtain ⟨l, -, hs⟩ := Option.bind_eq_some_iff.mp hwork
    cases hs
    exact .silent_same (by simp [State.upcoming, State.pending, hisr, TopHalf.counted])
  | load =>
    cases hwork
    exact .silent_same (by simp [State.upcoming, State.pending, hisr, TopHalf.counted])
  | store count =>
    cases hwork
    refine .increment ?_
    simp only [State.upcoming, State.pending, hisr, TopHalf.counted, Option.any_some, Option.isNone_some, Bool.or_false,
      Bool.toNat_true, Bool.toNat_false]
    omega
  | unlock =>
    cases hwork
    -- a thread that has been woken already runs once for both
    have hwoken := Bool.toNat_le s.woken
    refine .silent ?_ fun _ => ?_ <;>
    · simp only [State.upcoming, State.pending, hisr, TopHalf.counted, Option.any_some, Option.any_none,
        Option.isNone_none, Bool.or_true, Bool.toNat_true, Bool.toNat_false]
      omega

theorem threaded_isr_upcoming (h : s.threaded_isr = some t) : UpcomingStep s t (s.thread.bind BottomHalf.event) := by
  unfold State.threaded_isr at h
  split at h
  case h_1 hthread =>
    obtain ⟨hwoken, hs⟩ := Option.ite_none_right_eq_some.mp h
    cases hs
    rw [hthread]
    refine .silent_same ?_
    simp [State.upcoming, State.pending, hthread, hwoken]
  case h_2 b hthread =>
    cases h
    rw [hthread]
    cases b with
    | sleep => exact .silent_same (by simp [State.upcoming, State.pending, hthread])
    | complete => exact .complete (by simp [State.upcoming, State.pending, hthread])

theorem worker_upcoming (h : s.stepWorker = some t) : UpcomingStep s t (s.worker.bind BottomHalf.event) := by
  obtain ⟨⟨m', b'⟩, hstep, ht⟩ := Option.bind_eq_some_iff.mp h
  cases ht
  cases hworker : s.worker with
  | none =>
    rw [hworker] at hstep
    obtain ⟨hqueued, hs⟩ := Option.ite_none_right_eq_some.mp hstep
    cases hs
    exact .silent_same (by simp [State.upcoming, State.pending, hworker, hqueued])
  | some b =>
    rw [hworker] at hstep
    cases b with
    | sleep =>
      cases hstep
      exact .silent_same (by simp [State.upcoming, State.pending, hworker])
    | complete =>
      cases hstep
      refine .complete ?_
      simp only [State.upcoming, State.pending, hworker, Option.isSome_none, Option.isSome_some, Bool.toNat_true,
        Bool.toNat_false]
      omega

theorem step_upcoming {a : Action c} (hsetup : s.pc = .setup → s = initial c) (h : step s a = some t) :
    UpcomingStep s t (event s a) := by
  cases a with
  | module ret => exact module_upcoming hsetup (module_move h)
  | timerFires =>
    obtain ⟨⟨-, hidle⟩, hs⟩ := Option.ite_none_right_eq_some.mp h
    cases hs
    refine .silent_same ?_
    simp [State.upcoming, State.pending, hidle, TimerPc.counted, TopHalf.counted]
  | timer =>
    obtain ⟨⟨m', armed', pc'⟩, hstep, ht⟩ := Option.bind_eq_some_iff.mp h
    have hmoves := fallback_timer_fn_moves hstep
    cases ht
    refine .of_top ?_ hmoves
    simp only [State.upcoming, State.pending]
    omega
  | irqFires =>
    obtain ⟨⟨-, hidle⟩, hs⟩ := Option.ite_none_right_eq_some.mp h
    cases hs
    refine .silent_same ?_
    simp [State.upcoming, State.pending, hidle, TopHalf.counted]
  | isr => exact hard_isr_upcoming h
  | thread => exact threaded_isr_upcoming h
  | worker => exact worker_upcoming h
  | read i a =>
    obtain ⟨⟨m', pc'⟩, hstep, ht⟩ := Option.bind_eq_some_iff.mp h
    have hqueued := irq_demo_read_queued hstep
    cases ht
    have hnone : ∀ e : Event c, e.isWork = true → event s (.read i a) ≠ some e := by
      intro e he hevent
      exact Bool.noConfusion ((ReadPc.event_isWork hevent).symm.trans he)
    refine .same (hnone _ rfl) (hnone _ rfl) ?_
    simp only [State.upcoming, State.pending, hqueued]
  | write i a =>
    obtain ⟨⟨m', pc'⟩, hstep, ht⟩ := Option.bind_eq_some_iff.mp h
    have hmoves := irq_demo_trigger_write_moves hstep
    have hcount := Threads.count_update WritePc.counted s.writes i pc'
    cases ht
    refine .of_top ?_ hmoves
    simp only [State.upcoming, State.pending]
    omega

/-! ### The tokens -/

theorem threaded_isr_token (h : s.threaded_isr = some t) :
    TokenStep s.shared t.shared (s.thread.bind BottomHalf.event) := by
  unfold State.threaded_isr at h
  split at h
  case h_1 hthread =>
    obtain ⟨-, hs⟩ := Option.ite_none_right_eq_some.mp h
    cases hs
    rw [hthread]
    exact .other nofun nofun rfl
  case h_2 b hthread =>
    cases h
    rw [hthread]
    cases b with
    | sleep => exact .other nofun nofun rfl
    | complete => exact .complete rfl

theorem step_tokens {a : Action c} (hsetup : s.pc = .setup → s = initial c) (h : step s a = some t) :
    TokenStep s.shared t.shared (event s a) := by
  cases a with
  | module ret =>
    cases module_move h with
    | setup hpc =>
      rw [hsetup hpc]
      exact .other nofun nofun rfl
    | removing _ hremove =>
      rw [remove_proc_entries_frame hremove]
      exact .other nofun nofun rfl
    | _ => exact .other nofun nofun rfl
  | timerFires | irqFires =>
    obtain ⟨-, hs⟩ := Option.ite_none_right_eq_some.mp h
    cases hs
    exact .other nofun nofun rfl
  | timer =>
    obtain ⟨_, hstep, ht⟩ := Option.bind_eq_some_iff.mp h
    have htoken := fallback_timer_fn_token hstep
    cases ht
    exact htoken
  | isr =>
    obtain ⟨b, hisr, hrest⟩ := Option.bind_eq_some_iff.mp h
    obtain ⟨⟨m', b'⟩, hwork, ht⟩ := Option.bind_eq_some_iff.mp hrest
    have htoken := do_hard_isr_work_token hwork
    cases ht
    simpa only [event, hisr, Option.bind_some] using htoken
  | thread => exact threaded_isr_token h
  | worker =>
    obtain ⟨_, hstep, ht⟩ := Option.bind_eq_some_iff.mp h
    have htoken := fallback_workqueue_fn_token hstep
    cases ht
    exact htoken
  | read i a =>
    obtain ⟨_, hstep, ht⟩ := Option.bind_eq_some_iff.mp h
    have htoken := irq_demo_read_token hstep
    cases ht
    exact htoken
  | write i a =>
    obtain ⟨_, hstep, ht⟩ := Option.bind_eq_some_iff.mp h
    have htoken := irq_demo_trigger_write_token hstep
    cases ht
    exact htoken

/-! ### Every run -/

/-- The last increment has a bottom half to come or behind it, unless `cancel_work_sync` has been called. -/
def LastCovered (s : State c) (log : List (Event c)) : Prop :=
  Event.increment ∈ log → s.pc.dropped = true ∨ 0 < s.upcoming ∨ Answered log

theorem LastCovered.step {a : Action c} (hs : LastCovered s log) (hsetup : s.pc = .setup → s = initial c)
    (h : step s a = some t) : LastCovered t (log ++ (event s a).toList) := by
  intro hmem
  have hstep := step_upcoming hsetup h
  have hdropped := step_dropped h
  generalize event s a = e at hstep hmem ⊢
  cases hstep with
  | other hi hc hle hpos =>
    have hold : Event.increment ∈ log := (mem_append_toList.mp hmem).resolve_right hi
    rcases hs hold with h | h | h
    · exact .inl (hdropped h)
    · exact .inr (.inl (hpos h))
    · exact .inr (.inr (h.append hi))
  | increment h => exact .inr (.inl (by omega))
  | complete h => exact .inr (.inr ⟨log, [], rfl, List.not_mem_nil⟩)
  | drop hle hpc => exact .inl (by rw [hpc]; rfl)

theorem lastCovered {x : State c × List (Event c)} (hx : (history c).Reachable x) : LastCovered x.1 x.2 := by
  refine System.Reachable.log_invariant hx ?_ ?_
  · intro s _ hmem
    cases hmem
  · intro s log a t hs hi h
    exact hi.step (initial_of_setup hs.forget) h

/-- Each bottom half that has called `complete`, or is to come, has an increment of its own. -/
theorem completes_le_increments {x : State c × List (Event c)} (hx : (history c).Reachable x) :
    x.2.count .complete + x.1.upcoming ≤ x.2.count .increment := by
  refine System.Reachable.log_invariant
    (I := fun s log => log.count .complete + s.upcoming ≤ log.count .increment) hx ?_ ?_
  · rintro s rfl
    have hquiet : Quiet (initial c) := ⟨⟨rfl, fun _ => rfl, rfl, rfl⟩, rfl, rfl, rfl⟩
    rw [hquiet.upcoming]
    exact Nat.le_refl 0
  · intro s log a t hs hi h
    have hreach : (system c).Reachable s := hs.forget
    have hstep := step_upcoming (initial_of_setup hreach) h
    simp only [List.count_append]
    generalize event s a = e at hstep ⊢
    cases hstep with
    | other hi' hc hle hpos =>
      have hnone : e.toList.count Event.complete = 0 := by
        rw [List.count_eq_zero, Option.mem_toList]
        exact hc
      omega
    | increment h =>
      show log.count .complete + 0 + _ ≤ log.count .increment + 1
      omega
    | complete h =>
      show log.count .complete + 1 + _ ≤ log.count .increment + 0
      omega
    | drop hle hpc =>
      show log.count .complete + 0 + _ ≤ log.count .increment + 0
      omega

theorem tokensKept_of_few {x : State c × List (Event c)} (hx : (history c).Reachable x)
    (hfew : x.2.count .increment < UINT_MAX) : TokensKept x.1 x.2 := by
  refine System.Reachable.log_invariant
    (I := fun s log => log.count .increment < UINT_MAX → TokensKept s log) hx ?_ ?_ hfew
  · rintro s rfl -
    rfl
  · intro s log a t hs hi h hfew
    rw [List.count_append] at hfew
    have hkept : TokensKept s log := hi (by omega)
    have hbound : log.count .complete + s.upcoming ≤ log.count .increment := completes_le_increments hs
    have hexact : s.shared.event_done.done < UINT_MAX := by
      have htokens : (passes log).length + s.shared.event_done.done = log.count .complete := hkept
      omega
    exact (step_tokens (initial_of_setup hs.forget) h).tokensKept hexact hkept

/-- While neither counter has wrapped, a reader that comes through its wait has an increment of its own. -/
theorem passes_le_count {x : State c × List (Event c)} (hx : (history c).Reachable x)
    (hfew : x.2.count .increment < UINT_MAX) (hwrap : x.2.count .increment < 2 ^ c.longBits) :
    (passes x.2).length ≤ x.1.shared.event_count := by
  have htokens : (passes x.2).length + x.1.shared.event_done.done = x.2.count .complete := tokensKept_of_few hx hfew
  have hbound := completes_le_increments hx
  have hany : (history c).ReachableUnder (fun x a => System.Any x.1 a) x := hx
  rw [event_count_eq hany, Nat.mod_eq_of_lt hwrap]
  omega

theorem reported_of_few {x : State c × List (Event c)} (hx : (history c).Reachable x)
    (hfew : x.2.count .increment < UINT_MAX) (hwrap : x.2.count .increment < 2 ^ c.longBits) : Reported x.1 x.2 := by
  refine System.Reachable.log_invariant (I := fun s log =>
    log.count .increment < UINT_MAX → log.count .increment < 2 ^ c.longBits → Reported s log) hx ?_ ?_ hfew hwrap
  · rintro s rfl - -
    exact ⟨fun i _ => ⟨List.not_mem_nil, fun n => List.not_mem_nil⟩, nofun, nofun⟩
  · intro s log a t hs hi h hfew hwrap
    rw [List.count_append] at hfew hwrap
    have hfew' : log.count .increment < UINT_MAX := by omega
    have hwrap' : log.count .increment < 2 ^ c.longBits := by omega
    exact (hi hfew' hwrap').step (passes_le_count hs hfew' hwrap') h

/-- On a real interrupt as on the timer, whatever edges, ticks, trigger writes, bottom halves and readers interleave, and
whether the module is being loaded, fails to load or is being unloaded: there are no more calls of `complete` than
events, and the `k`-th reader to come through its wait reads a counter of at least `k`. Where no bottom half is to come
and `cancel_work_sync` has not been called, one has called `complete` after the last event. -/
theorem events_answered {x : State c × List (Event c)} (hx : (history c).Reachable x)
    (hfew : x.2.count .increment < UINT_MAX) (hwrap : x.2.count .increment < 2 ^ c.longBits) :
    x.2.count .complete ≤ x.2.count .increment ∧
      (∀ k i n, (passes x.2)[k]? = some i → .load i n ∈ x.2 → k + 1 ≤ n) ∧
      (.increment ∈ x.2 → Quiet x.1 → x.1.pc.dropped = false → Answered x.2) := by
  refine ⟨?_, (reported_of_few hx hfew hwrap).load, fun hmem hquiet hpc => ?_⟩
  · have hbound := completes_le_increments hx
    omega
  · rcases lastCovered hx hmem with h | h | h
    · rw [hpc] at h
      cases h
    · rw [hquiet.upcoming] at h
      exact absurd h (Nat.lt_irrefl 0)
    · exact h

/-- A GPIO line, one reader and one trigger write. -/
def gpioLine : Config := ⟨7, 64, 1, 1⟩

/-- Two edges come before the interrupt thread runs once, and a trigger write queues the work item; the reader takes the
token of the first bottom half. -/
def twoEdges : State gpioLine × List (Event gpioLine) :=
  ((history gpioLine).run (initial gpioLine, [])
    (List.replicate 5 (.module 0) ++ (.irqFires :: List.replicate 4 .isr) ++ (.irqFires :: List.replicate 4 .isr) ++
      List.replicate 3 .thread ++ .write ⟨0, Nat.one_pos⟩ (.call 2) :: List.replicate 5 (.write ⟨0, Nat.one_pos⟩ .step) ++
      List.replicate 3 .worker ++ [.read ⟨0, Nat.one_pos⟩ (.call 0 96), .read ⟨0, Nat.one_pos⟩ .wait,
        .read ⟨0, Nat.one_pos⟩ .step, .read ⟨0, Nat.one_pos⟩ .step])).get rfl

theorem twoEdges_answered : twoEdges.2.count .increment = 3 ∧ twoEdges.2.count .complete = 2 ∧
    (passes twoEdges.2)[0]? = some ⟨0, Nat.one_pos⟩ ∧ .load ⟨0, Nat.one_pos⟩ 3 ∈ twoEdges.2 ∧ 0 + 1 ≤ 3 ∧
      Answered twoEdges.2 := by
  have hreach : (history gpioLine).Reachable twoEdges :=
    System.ReachableUnder.of_run (s := (initial gpioLine, [])) ⟨rfl, rfl⟩ (fun _ _ _ => trivial) (Option.some_get _).symm
  have hpass : (passes twoEdges.2)[0]? = some ⟨0, Nat.one_pos⟩ := rfl
  have hload : .load ⟨0, Nat.one_pos⟩ 3 ∈ twoEdges.2 := by decide
  have hquiet : Quiet twoEdges.1 := ⟨⟨rfl, by decide, rfl, rfl⟩, rfl, rfl, rfl⟩
  obtain ⟨-, hcount, hanswered⟩ := events_answered hreach (by decide) (by decide)
  exact ⟨by decide, by decide, hpass, hload, hcount 0 _ 3 hpass hload, hanswered (by decide) hquiet rfl⟩

end Armv8Driver.IrqDemo
