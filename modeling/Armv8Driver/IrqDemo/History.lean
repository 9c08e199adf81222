import Armv8Driver.IrqDemo.Lock
import Armv8Driver.IrqDemo.Teardown
import Armv8Driver.Transition.Log

/-!
# The events of a run of `irq_demo`

Which increments of `event_count`, calls of `schedule_work` and calls of `complete` a run has made, and
which calls of `irq_demo_read` have come through their wait. The counter is the number of increments, up
to its width. In the fallback mode, until `irq_demo_exit`, an increment is on its way through a top half,
the queue and the work item until `complete`, unless its `schedule_work` finds the item queued: `WorkStep`
says what a step does to that, and `balance` is the count.
-/

namespace Armv8Driver.IrqDemo

open Kernel Transition

/-- `schedule queued` is a call of `schedule_work` and whether it finds the work item queued; `pass` is a
reader that comes through its wait, and `load` one that reads `event_count`. -/
inductive Event (c : Config) where
  | increment
  | schedule (queued : Bool)
  | complete
  | pass (i : Fin c.reads)
  | load (i : Fin c.reads) (count : Nat)
  deriving DecidableEq

variable {c : Config} {s t : State c} {m m' : Shared c}

def TopHalf.event : TopHalf → Option (Event c)
  | .store _ => some .increment
  | _ => none

def BottomHalf.event : BottomHalf → Option (Event c)
  | .complete => some .complete
  | .sleep => none

def TimerPc.event (m : Shared c) : TimerPc → Option (Event c)
  | .top h => h.event
  | .schedule => some (.schedule m.queued)
  | _ => none

def ReadPc.event (i : Fin c.reads) (m : Shared c) : ReadPc → ReadStep → Option (Event c)
  | .waiting _, .wait => some (.pass i)
  | .load _, .step => some (.load i m.event_count)
  | _, _ => none

def WritePc.event (m : Shared c) : WritePc → WriteStep → Option (Event c)
  | .top _ h, .step => h.event
  | .schedule _, .step => some (.schedule m.queued)
  | _, _ => none

/-- The event of a step from the state before it. -/
def event (s : State c) : Action c → Option (Event c)
  | .timer => s.timer.event s.shared
  | .isr => s.isr.bind TopHalf.event
  | .thread => s.thread.bind BottomHalf.event
  | .worker => s.worker.bind BottomHalf.event
  | .read i a => (s.reads i).event i s.shared a
  | .write i a => (s.writes i).event s.shared a
  | _ => none

def history (c : Config) : System (State c × List (Event c)) (Action c) := (system c).logged event

/-- Every run has a history. -/
theorem history_of_reachable {ok : State c → Action c → Prop} (hs : (system c).ReachableUnder ok s) :
    ∃ log, (history c).ReachableUnder (fun x a => ok x.1 a) (s, log) := hs.remember

/-! ### The counter -/

/-- The value that a top half is about to write to `event_count`. -/
def TopHalf.storing : TopHalf → Option Nat
  | .store count => some count
  | _ => none

def TimerPc.storing : TimerPc → Option Nat
  | .top h => h.storing
  | _ => none

def WritePc.storing : WritePc → Option Nat
  | .top _ h => h.storing
  | _ => none

def State.storing (s : State c) : Thread c → Option Nat
  | .timer => s.timer.storing
  | .isr => s.isr.bind TopHalf.storing
  | .reader _ => none
  | .writer i => (s.writes i).storing

theorem TopHalf.critical_of_storing {h : TopHalf} {n : Nat} (hn : h.storing = some n) : h.critical = true := by
  cases h <;> first | rfl | cases hn

theorem State.critical_of_storing {th : Thread c} {n : Nat} (hn : s.storing th = some n) : s.critical th = true := by
  cases th with
  | timer =>
    simp only [State.storing, State.critical] at hn ⊢
    cases hpc : s.timer with
    | top h =>
      rw [hpc] at hn
      exact TopHalf.critical_of_storing hn
    | _ =>
      rw [hpc] at hn
      cases hn
  | isr =>
    obtain ⟨h, hisr, hh⟩ := Option.bind_eq_some_iff.mp hn
    simp only [State.critical, hisr]
    exact TopHalf.critical_of_storing hh
  | reader i => cases hn
  | writer i =>
    simp only [State.storing, State.critical] at hn ⊢
    cases hpc : s.writes i with
    | top len h =>
      rw [hpc] at hn
      exact TopHalf.critical_of_storing hn
    | _ =>
      rw [hpc] at hn
      cases hn

/-- What a step of one thread does to the counter: nothing, or it writes what it is about to write. -/
def CountMoves (m m' : Shared c) (before after : Option Nat) (e : Option (Event c)) : Prop :=
  (m'.event_count = m.event_count ∧ e ≠ some .increment ∧
    ∀ n, after = some n → before = some n ∨ n = (m.event_count + 1) % 2 ^ c.longBits) ∨
  (e = some .increment ∧ before = some m'.event_count ∧ after = none)

theorem CountMoves.idle {k : Option Nat} {e : Option (Event c)} (hcount : m'.event_count = m.event_count)
    (he : e ≠ some .increment) : CountMoves m m' k k e :=
  .inl ⟨hcount, he, fun _ hn => .inl hn⟩

theorem do_hard_isr_work_count {th : Thread c} {pc : TopHalf} {pc' : Option TopHalf}
    (h : do_hard_isr_work th m pc = some (m', pc')) :
    CountMoves m m' pc.storing (pc'.bind TopHalf.storing) pc.event := by
  cases pc with
  | lock =>
    obtain ⟨l, -, hs⟩ := Option.bind_eq_some_iff.mp h
    cases hs
    exact .idle rfl nofun
  | load =>
    cases h
    exact .inl ⟨rfl, nofun, fun n hn => .inr (Option.some.inj hn).symm⟩
  | store count =>
    cases h
    exact .inr ⟨rfl, rfl, rfl⟩
  | unlock =>
    cases h
    exact .idle rfl nofun

theorem do_bottom_half_work_count {b : BottomHalf} : (do_bottom_half_work m b).1.event_count = m.event_count := by
  rw [do_bottom_half_work_frame]

theorem BottomHalf.event_ne_increment {b : Option BottomHalf} :
    b.bind BottomHalf.event ≠ some (Event.increment (c := c)) := by
  rcases b with - | (- | -) <;> nofun

theorem fallback_timer_fn_count {armed armed' : Bool} {pc pc' : TimerPc}
    (h : fallback_timer_fn m armed pc = some (m', armed', pc')) :
    CountMoves m m' pc.storing pc'.storing (pc.event m) := by
  cases pc with
  | idle => cases h
  | top b =>
    obtain ⟨⟨m₁, b₁⟩, hwork, hs⟩ := Option.bind_eq_some_iff.mp h
    have hmoves := do_hard_isr_work_count hwork
    cases hs
    cases b₁ <;> exact hmoves
  | _ =>
    cases h
    exact .idle rfl nofun

theorem fallback_workqueue_fn_count {b b' : Option BottomHalf} (h : fallback_workqueue_fn m b = some (m', b')) :
    m'.event_count = m.event_count := by
  cases b with
  | none =>
    obtain ⟨-, hs⟩ := Option.ite_none_right_eq_some.mp h
    cases hs
    rfl
  | some b =>
    obtain ⟨hm, -⟩ := Prod.mk.inj (Option.some.inj h)
    rw [← hm]
    exact do_bottom_half_work_count

theorem irq_demo_read_count {entry fallback : Bool} {i : Fin c.reads} {pc pc' : ReadPc} {a : ReadStep}
    (h : irq_demo_read entry fallback i m pc a = some (m', pc')) : m'.event_count = m.event_count := by
  cases irq_demo_read_move h with
  | _ => rfl

theorem ReadPc.event_ne_increment {i : Fin c.reads} {pc : ReadPc} {a : ReadStep} : pc.event i m a ≠ some .increment := by
  unfold ReadPc.event
  split <;> nofun

theorem irq_demo_trigger_write_count {entry : Bool} {i : Fin c.writes} {pc pc' : WritePc} {a : WriteStep}
    (h : irq_demo_trigger_write entry i m pc a = some (m', pc')) :
    CountMoves m m' pc.storing pc'.storing (pc.event m a) := by
  cases irq_demo_trigger_write_move h with
  | top hwork => exact do_hard_isr_work_count hwork
  | last hwork => exact do_hard_isr_work_count hwork
  | _ => exact .idle rfl nofun

/-- One thread moves the counter, and the others are still about to write what they were. -/
theorem step_count {a : Action c} (h : step s a = some t) :
    ∃ th, CountMoves s.shared t.shared (s.storing th) (t.storing th) (event s a) ∧
      ∀ u, u ≠ th → t.storing u = s.storing u := by
  cases a with
  | module ret =>
    rw [module_frame h]
    exact ⟨.timer, .idle rfl nofun, fun u _ => by cases u <;> rfl⟩
  | timerFires =>
    obtain ⟨⟨-, hidle⟩, hs⟩ := Option.ite_none_right_eq_some.mp h
    cases hs
    refine ⟨.timer, .inl ⟨rfl, nofun, nofun⟩, fun u hu => ?_⟩
    cases u <;> first | rfl | exact absurd rfl hu
  | timer =>
    obtain ⟨⟨m', armed', pc'⟩, hstep, ht⟩ := Option.bind_eq_some_iff.mp h
    cases ht
    refine ⟨.timer, fallback_timer_fn_count hstep, fun u hu => ?_⟩
    cases u <;> first | rfl | exact absurd rfl hu
  | irqFires =>
    obtain ⟨-, hs⟩ := Option.ite_none_right_eq_some.mp h
    cases hs
    refine ⟨.isr, .inl ⟨rfl, nofun, nofun⟩, fun u hu => ?_⟩
    cases u <;> first | rfl | exact absurd rfl hu
  | isr =>
    obtain ⟨b, hisr, hrest⟩ := Option.bind_eq_some_iff.mp h
    obtain ⟨⟨m', b'⟩, hwork, ht⟩ := Option.bind_eq_some_iff.mp hrest
    have hmoves := do_hard_isr_work_count hwork
    cases ht
    refine ⟨.isr, ?_, fun u hu => ?_⟩
    · simpa only [State.storing, event, hisr, Option.bind_some] using hmoves
    · cases u <;> first | rfl | exact absurd rfl hu
  | thread =>
    rw [(threaded_isr_spec h).2]
    exact ⟨.timer, .idle rfl BottomHalf.event_ne_increment, fun u _ => by cases u <;> rfl⟩
  | worker =>
    obtain ⟨⟨m', b'⟩, hstep, ht⟩ := Option.bind_eq_some_iff.mp h
    have hcount := fallback_workqueue_fn_count hstep
    cases ht
    exact ⟨.timer, .idle hcount BottomHalf.event_ne_increment, fun u _ => by cases u <;> rfl⟩
  | read i a =>
    obtain ⟨⟨m', pc'⟩, hstep, ht⟩ := Option.bind_eq_some_iff.mp h
    have hcount := irq_demo_read_count hstep
    cases ht
    exact ⟨.timer, .idle hcount ReadPc.event_ne_increment, fun u _ => by cases u <;> rfl⟩
  | write i a =>
    obtain ⟨⟨m', pc'⟩, hstep, ht⟩ := Option.bind_eq_some_iff.mp h
    have hmoves := irq_demo_trigger_write_count hstep
    cases ht
    refine ⟨.writer i, ?_, fun u hu => ?_⟩
    · simpa only [State.storing, event, Function.update_self] using hmoves
    · cases u with
      | writer j =>
        have hj : j ≠ i := fun heq => hu (congrArg Thread.writer heq)
        simp only [State.storing, Function.update_of_ne hj]
      | _ => rfl

/-- Whoever is about to write the counter has read its present value. -/
def StoresNext (s : State c) : Prop :=
  ∀ th n, s.storing th = some n → n = (s.shared.event_count + 1) % 2 ^ c.longBits

theorem step_storesNext {a : Action c} (hh : s.shared.irq_lock.Held s.critical) (hs : StoresNext s)
    (h : step s a = some t) : StoresNext t := by
  obtain ⟨th, ⟨hcount, -, hmoves⟩ | ⟨-, hbefore, hafter⟩, hothers⟩ := step_count h
  · intro u n hn
    rw [hcount]
    by_cases hu : u = th
    · subst hu
      exact (hmoves n hn).elim (hs u n) id
    · exact hs u n (hothers u hu ▸ hn)
  · intro u n hn
    by_cases hu : u = th
    · subst hu
      rw [hafter] at hn
      cases hn
    · rw [hothers u hu] at hn
      exact absurd (hh.unique (State.critical_of_storing hn) (State.critical_of_storing hbefore)) hu

theorem storesNext_of_reachable (hs : (system c).Reachable s) : StoresNext s := by
  have hboth : s.shared.irq_lock.Held s.critical ∧ StoresNext s := by
    refine hs.invariant (I := fun s => s.shared.irq_lock.Held s.critical ∧ StoresNext s) ?_ ?_
    · rintro s rfl
      refine ⟨held_of_reachable (.init rfl), fun th n hn => ?_⟩
      cases th <;> cases hn
    · exact fun s a t hi h => ⟨held_step hi.1 h, step_storesNext hi.1 hi.2 h⟩
  exact hboth.2

/-- The counter is the number of increments, modulo its width. -/
theorem event_count_eq {ok : State c → Action c → Prop} {x : State c × List (Event c)}
    (hx : (history c).ReachableUnder (fun x a => ok x.1 a) x) :
    x.1.shared.event_count = x.2.count .increment % 2 ^ c.longBits := by
  refine hx.log_invariant (I := fun s log => s.shared.event_count = log.count .increment % 2 ^ c.longBits) ?_ ?_
  · rintro s rfl
    rfl
  · intro s log a t hs hi _ h
    obtain ⟨th, ⟨hcount, hne, -⟩ | ⟨he, hbefore, -⟩, -⟩ := step_count h
    · have hnone : (event s a).toList.count Event.increment = 0 := by
        rw [List.count_eq_zero, Option.mem_toList]
        exact hne
      rw [hcount, hi, List.count_append, hnone, Nat.add_zero]
    · have hnext := storesNext_of_reachable hs.forget.reachable th _ hbefore
      rw [hnext, hi, he, List.count_append, Nat.mod_add_mod]
      rfl

/-! ### The tokens -/

/-- What a step does to the tokens. -/
inductive TokenStep (m m' : Shared c) : Option (Event c) → Prop where
  | other {e : Option (Event c)} (hc : e ≠ some .complete) (hp : ∀ i, e ≠ some (.pass i))
      (hdone : m'.event_done = m.event_done) : TokenStep m m' e
  | complete (hdone : m'.event_done = m.event_done.complete) : TokenStep m m' (some .complete)
  | pass (i : Fin c.reads) (hdone : m.event_done.wait_for_completion = some m'.event_done) :
      TokenStep m m' (some (.pass i))

theorem do_hard_isr_work_token {th : Thread c} {pc : TopHalf} {pc' : Option TopHalf}
    (h : do_hard_isr_work th m pc = some (m', pc')) : TokenStep m m' pc.event := by
  cases pc with
  | lock =>
    obtain ⟨l, -, hs⟩ := Option.bind_eq_some_iff.mp h
    cases hs
    exact .other nofun nofun rfl
  | _ =>
    cases h
    exact .other nofun nofun rfl

theorem irq_demo_read_token {entry fallback : Bool} {i : Fin c.reads} {pc pc' : ReadPc} {a : ReadStep}
    (h : irq_demo_read entry fallback i m pc a = some (m', pc')) : TokenStep m m' (pc.event i m a) := by
  cases irq_demo_read_move h with
  | wait hdone => exact .pass i hdone
  | _ => exact .other nofun nofun rfl

theorem fallback_timer_fn_token {armed armed' : Bool} {pc pc' : TimerPc}
    (h : fallback_timer_fn m armed pc = some (m', armed', pc')) : TokenStep m m' (pc.event m) := by
  cases pc with
  | idle => cases h
  | top b =>
    obtain ⟨⟨m₁, b₁⟩, hwork, hs⟩ := Option.bind_eq_some_iff.mp h
    have htoken := do_hard_isr_work_token hwork
    cases hs
    exact htoken
  | _ =>
    cases h
    exact .other nofun nofun rfl

theorem fallback_workqueue_fn_token {b b' : Option BottomHalf} (h : fallback_workqueue_fn m b = some (m', b')) :
    TokenStep m m' (b.bind BottomHalf.event) := by
  rcases b with - | (- | -)
  · obtain ⟨-, hs⟩ := Option.ite_none_right_eq_some.mp h
    cases hs
    exact .other nofun nofun rfl
  · cases h
    exact .other nofun nofun rfl
  · cases h
    exact .complete rfl

theorem irq_demo_trigger_write_token {entry : Bool} {i : Fin c.writes} {pc pc' : WritePc} {a : WriteStep}
    (h : irq_demo_trigger_write entry i m pc a = some (m', pc')) : TokenStep m m' (pc.event m a) := by
  cases irq_demo_trigger_write_move h with
  | top hwork => exact do_hard_isr_work_token hwork
  | last hwork => exact do_hard_isr_work_token hwork
  | _ => exact .other nofun nofun rfl

/-! ### The readers -/

/-- The call has not come through its wait. -/
def ReadPc.early : ReadPc → Bool
  | .notCalled | .waiting _ => true
  | _ => false

/-- The call has come through its wait and has not returned. -/
def ReadPc.late : ReadPc → Bool
  | .lock _ | .load _ | .unlock .. | .copy .. => true
  | _ => false

/-- A reader moves only by a step of its own. -/
theorem step_reads {a : Action c} (h : step s a = some t) (i : Fin c.reads) : t.reads i = s.reads i ∨
    ∃ b m' pc', a = .read i b ∧ irq_demo_read s.entry s.using_fallback i s.shared (s.reads i) b = some (m', pc') ∧
      t = { s with shared := m', reads := Function.update s.reads i pc' } := by
  cases a with
  | module ret =>
    rw [module_frame h]
    exact .inl rfl
  | timerFires =>
    obtain ⟨-, hs⟩ := Option.ite_none_right_eq_some.mp h
    cases hs
    exact .inl rfl
  | irqFires =>
    obtain ⟨-, hs⟩ := Option.ite_none_right_eq_some.mp h
    cases hs
    exact .inl rfl
  | isr =>
    obtain ⟨b, -, hrest⟩ := Option.bind_eq_some_iff.mp h
    obtain ⟨_, -, ht⟩ := Option.bind_eq_some_iff.mp hrest
    cases ht
    exact .inl rfl
  | thread =>
    rw [(threaded_isr_spec h).2]
    exact .inl rfl
  | read j b =>
    obtain ⟨⟨m', pc'⟩, hstep, ht⟩ := Option.bind_eq_some_iff.mp h
    cases ht
    by_cases hj : i = j
    · subst hj
      exact .inr ⟨b, m', pc', rfl, hstep, rfl⟩
    · exact .inl (Function.update_of_ne hj _ _)
  | _ =>
    obtain ⟨_, -, ht⟩ := Option.bind_eq_some_iff.mp h
    cases ht
    exact .inl rfl

/-! ### The fallback mode -/

/-- `irq_demo_exit` is not called. -/
def NoExit (s : State c) : Action c → Prop
  | .module _ => s.pc ≠ .loaded
  | _ => True

instance (s : State c) (a : Action c) : Decidable (NoExit s a) :=
  match a with
  | .module _ => inferInstanceAs (Decidable (s.pc ≠ .loaded))
  | .timerFires | .timer | .irqFires | .isr | .thread | .worker | .read .. | .write .. => isTrue trivial

/-- What holds in the fallback mode until `irq_demo_exit`: there is no interrupt, and `irq_demo_init` has
yet to succeed or has succeeded. -/
structure Fallback (s : State c) : Prop where
  stage : s.pc.stage ≤ 2
  pc : s.pc ≠ .requestIrq
  registered : s.registered = false
  isr : s.isr = none
  woken : s.woken = false
  thread : s.thread = none
  setup : s.pc = .setup → s = initial c

theorem initial_step {a : Action c} (h : step (initial c) a = some t) : ∃ ret, a = .module ret := by
  cases a with
  | module ret => exact ⟨ret, rfl⟩
  | read i b => cases b <;> cases h
  | write i b => cases b <;> cases h
  | _ => cases h

theorem Fallback.initial : Fallback (initial c) := ⟨Nat.zero_le _, nofun, rfl, rfl, rfl, rfl, fun _ => rfl⟩

/-- Until `irq_demo_exit` the module's own thread changes no variable that the handlers share. -/
theorem Fallback.module {ret : Int} (hmode : c.irq_num < 0) (hs : Fallback s) (hexit : s.pc ≠ .loaded)
    (h : step s (.module ret) = some t) : Fallback t ∧ t =
      { s with using_fallback := t.using_fallback, armed := t.armed, entry := t.entry, trigger := t.trigger, pc := t.pc } := by
  obtain ⟨hstage, hpc, hreg, hisr, hwoken, hthread, hsetup⟩ := hs
  cases module_move h with
  | setup hpc' =>
    refine ⟨⟨Nat.zero_le _, by simp, hreg, hisr, hwoken, hthread, by simp⟩, ?_⟩
    rw [hsetup hpc']
    rfl
  | realIrq hirq => omega
  | requestIrq _ hpc' => exact absurd hpc' hpc
  | requestFails _ hpc' => exact absurd hpc' hpc
  | @removing error r _ hpc' =>
    rw [hpc'] at hstage
    have hlate := @ModulePc.stage_removing error r
    omega
  | exitFallback _ hpc' => exact absurd hpc' hexit
  | exitIrq _ hpc' => exact absurd hpc' hexit
  | procCreate => exact ⟨⟨by simp [ModulePc.stage], by simp, hreg, hisr, hwoken, hthread, by simp⟩, rfl⟩
  | procCreateTrigger => exact ⟨⟨by simp [ModulePc.stage], by simp, hreg, hisr, hwoken, hthread, by simp⟩, rfl⟩
  | fallback => exact ⟨⟨by simp [ModulePc.stage], by simp, hreg, hisr, hwoken, hthread, by simp⟩, rfl⟩
  | startTimer => exact ⟨⟨by simp [ModulePc.stage], by simp, hreg, hisr, hwoken, hthread, by simp⟩, rfl⟩
  -- the steps of `irq_demo_exit` behind its first
  | _ =>
    rename_i hpc'
    simp [hpc', ModulePc.stage] at hstage

theorem Fallback.of_step {a : Action c} (hmode : c.irq_num < 0) (hs : Fallback s) (hok : NoExit s a)
    (h : step s a = some t) : Fallback t := by
  have hsetup : (∃ ret, a = .module ret) ∨ s.pc ≠ .setup := by
    by_cases hpc : s.pc = .setup
    · rw [hs.setup hpc] at h
      exact .inl (initial_step h)
    · exact .inr hpc
  rcases hsetup with ⟨ret, rfl⟩ | hpc
  · exact (hs.module hmode hok h).1
  · obtain ⟨hstage, hirq, hreg, hisr, hwoken, hthread, -⟩ := hs
    cases a with
    | module ret => exact (Fallback.module hmode ⟨hstage, hirq, hreg, hisr, hwoken, hthread, fun h => absurd h hpc⟩ hok h).1
    | timerFires =>
      obtain ⟨-, hs⟩ := Option.ite_none_right_eq_some.mp h
      cases hs
      exact ⟨hstage, hirq, hreg, hisr, hwoken, hthread, fun h => absurd h hpc⟩
    | irqFires =>
      obtain ⟨⟨hreg', -⟩, -⟩ := Option.ite_none_right_eq_some.mp h
      rw [hreg] at hreg'
      cases hreg'
    | isr =>
      obtain ⟨b, hisr', -⟩ := Option.bind_eq_some_iff.mp h
      rw [hisr] at hisr'
      cases hisr'
    | thread =>
      rcases (threaded_isr_spec h).1 with hwoken' | hthread'
      · rw [hwoken] at hwoken'
        cases hwoken'
      · exact absurd hthread hthread'
    | _ =>
      obtain ⟨_, -, ht⟩ := Option.bind_eq_some_iff.mp h
      cases ht
      exact ⟨hstage, hirq, hreg, hisr, hwoken, hthread, fun h => absurd h hpc⟩

theorem fallback_of_reachable (hmode : c.irq_num < 0) (hs : (system c).ReachableUnder NoExit s) : Fallback s := by
  apply hs.invariant
  · rintro s rfl
    exact .initial
  · exact fun s a t hi hok h => hi.of_step hmode hok h

/-! ### The events on their way -/

/-- The top half is past its increment. -/
def TopHalf.counted : TopHalf → Bool
  | .unlock => true
  | _ => false

/-- The callback is between its increment and its `schedule_work`. -/
def TimerPc.counted : TimerPc → Bool
  | .top h => h.counted
  | .schedule => true
  | _ => false

/-- The trigger write is between its increment and its `schedule_work`. -/
def WritePc.counted : WritePc → Bool
  | .top _ h => h.counted
  | .schedule _ => true
  | _ => false

/-- The number of top halves between their increment and their `schedule_work`. -/
def State.pending (s : State c) : Nat := s.timer.counted.toNat + Threads.count WritePc.counted s.writes

def Event.isWork : Event c → Bool
  | .increment | .schedule _ | .complete => true
  | _ => false

/-- What a step does to the events on their way. -/
inductive WorkStep (s t : State c) : Option (Event c) → Prop where
  | other {e : Option (Event c)} (he : ∀ e', e = some e' → e'.isWork = false) (hp : t.pending = s.pending)
      (hq : t.shared.queued = s.shared.queued) (hw : t.worker.isSome = s.worker.isSome) : WorkStep s t e
  | increment (hp : t.pending = s.pending + 1) (hq : t.shared.queued = s.shared.queued)
      (hw : t.worker.isSome = s.worker.isSome) : WorkStep s t (some .increment)
  | schedule (hp : t.pending + 1 = s.pending) (hq : t.shared.queued = true)
      (hw : t.worker.isSome = s.worker.isSome) : WorkStep s t (some (.schedule s.shared.queued))
  | start (hp : t.pending = s.pending) (hq : s.shared.queued = true) (hq' : t.shared.queued = false)
      (hw : s.worker.isSome = false) (hw' : t.worker.isSome = true) : WorkStep s t none
  | complete (hp : t.pending = s.pending) (hq : t.shared.queued = s.shared.queued)
      (hw : s.worker.isSome = true) (hw' : t.worker.isSome = false) : WorkStep s t (some .complete)

/-- What a step of a top half does to the events on their way; `after` is `true` where the bottom half is
still to be scheduled once it has returned. -/
def TopMoves (m m' : Shared c) (before after : Bool) (e : Option (Event c)) : Prop :=
  (∀ e', e = some e' → e'.isWork = false) ∧ after = before ∧ m'.queued = m.queued ∨
  e = some .increment ∧ before = false ∧ after = true ∧ m'.queued = m.queued ∨
  e = some (.schedule m.queued) ∧ before = true ∧ after = false ∧ m'.queued = true

theorem do_hard_isr_work_moves {th : Thread c} {pc : TopHalf} {pc' : Option TopHalf}
    (h : do_hard_isr_work th m pc = some (m', pc')) :
    TopMoves m m' pc.counted (pc'.elim true TopHalf.counted) pc.event := by
  cases pc with
  | lock =>
    obtain ⟨l, -, hs⟩ := Option.bind_eq_some_iff.mp h
    cases hs
    exact .inl ⟨nofun, rfl, rfl⟩
  | store count =>
    cases h
    exact .inr (.inl ⟨rfl, rfl, rfl, rfl⟩)
  | _ =>
    cases h
    exact .inl ⟨nofun, rfl, rfl⟩

theorem fallback_timer_fn_moves {armed armed' : Bool} {pc pc' : TimerPc}
    (h : fallback_timer_fn m armed pc = some (m', armed', pc')) :
    TopMoves m m' pc.counted pc'.counted (pc.event m) := by
  cases pc with
  | idle => cases h
  | top b =>
    obtain ⟨⟨m₁, b₁⟩, hwork, hs⟩ := Option.bind_eq_some_iff.mp h
    have hmoves := do_hard_isr_work_moves hwork
    cases hs
    cases b₁ <;> exact hmoves
  | schedule =>
    cases h
    exact .inr (.inr ⟨rfl, rfl, rfl, rfl⟩)
  | restart =>
    cases h
    exact .inl ⟨nofun, rfl, rfl⟩

theorem irq_demo_trigger_write_moves {entry : Bool} {i : Fin c.writes} {pc pc' : WritePc} {a : WriteStep}
    (h : irq_demo_trigger_write entry i m pc a = some (m', pc')) :
    TopMoves m m' pc.counted pc'.counted (pc.event m a) := by
  cases irq_demo_trigger_write_move h with
  | call => exact .inl ⟨nofun, rfl, rfl⟩
  | top hwork => exact do_hard_isr_work_moves hwork
  | last hwork => exact do_hard_isr_work_moves hwork
  | schedule => exact .inr (.inr ⟨rfl, rfl, rfl, rfl⟩)

/-- A step of a top half, given how the number of the pending ones follows its own. -/
theorem WorkStep.of_top {before after : Bool} {e : Option (Event c)} (hw : t.worker = s.worker)
    (hp : t.pending + before.toNat = s.pending + after.toNat) (h : TopMoves s.shared t.shared before after e) :
    WorkStep s t e := by
  have hsame : t.worker.isSome = s.worker.isSome := by rw [hw]
  rcases h with ⟨he, rfl, hq⟩ | ⟨rfl, rfl, rfl, hq⟩ | ⟨rfl, rfl, rfl, hq⟩
  · exact .other he (by omega) hq hsame
  · exact .increment (by simpa using hp) hq hsame
  · exact .schedule (by simpa using hp) hq hsame

theorem ReadPc.event_isWork {i : Fin c.reads} {pc : ReadPc} {a : ReadStep} {e : Event c}
    (h : pc.event i m a = some e) : e.isWork = false := by
  unfold ReadPc.event at h
  split at h <;> cases h <;> rfl

theorem Fallback.workStep {a : Action c} (hmode : c.irq_num < 0) (hs : Fallback s) (hok : NoExit s a)
    (h : step s a = some t) : WorkStep s t (event s a) := by
  cases a with
  | module ret =>
    rw [(hs.module hmode hok h).2]
    exact .other nofun rfl rfl rfl
  | timerFires =>
    obtain ⟨⟨-, hidle⟩, hs⟩ := Option.ite_none_right_eq_some.mp h
    cases hs
    refine .other nofun ?_ rfl rfl
    simp [State.pending, hidle, TimerPc.counted, TopHalf.counted]
  | timer =>
    obtain ⟨⟨m', armed', pc'⟩, hstep, ht⟩ := Option.bind_eq_some_iff.mp h
    have hmoves := fallback_timer_fn_moves hstep
    cases ht
    refine .of_top rfl ?_ hmoves
    simp only [State.pending]
    omega
  | irqFires =>
    obtain ⟨⟨hreg, -⟩, -⟩ := Option.ite_none_right_eq_some.mp h
    rw [hs.registered] at hreg
    cases hreg
  | isr =>
    obtain ⟨b, hisr, -⟩ := Option.bind_eq_some_iff.mp h
    rw [hs.isr] at hisr
    cases hisr
  | thread =>
    rcases (threaded_isr_spec h).1 with hwoken | hthread
    · rw [hs.woken] at hwoken
      cases hwoken
    · exact absurd hs.thread hthread
  | worker =>
    obtain ⟨⟨m', b'⟩, hstep, ht⟩ := Option.bind_eq_some_iff.mp h
    cases ht
    simp only [event]
    cases hworker : s.worker with
    | none =>
      rw [hworker] at hstep
      obtain ⟨hqueued, hs⟩ := Option.ite_none_right_eq_some.mp hstep
      cases hs
      exact .start rfl hqueued rfl (by rw [hworker]; rfl) rfl
    | some b =>
      rw [hworker] at hstep
      cases b with
      | sleep =>
        cases hstep
        exact .other nofun rfl rfl (by rw [hworker]; rfl)
      | complete =>
        cases hstep
        exact .complete rfl rfl (by rw [hworker]; rfl) rfl
  | read i a =>
    obtain ⟨⟨m', pc'⟩, hstep, ht⟩ := Option.bind_eq_some_iff.mp h
    have hqueued := irq_demo_read_queued hstep
    cases ht
    exact .other (fun _ he => ReadPc.event_isWork he) rfl hqueued rfl
  | write i a =>
    obtain ⟨⟨m', pc'⟩, hstep, ht⟩ := Option.bind_eq_some_iff.mp h
    have hmoves := irq_demo_trigger_write_moves hstep
    have hcount := Threads.count_update WritePc.counted s.writes i pc'
    cases ht
    refine .of_top rfl ?_ hmoves
    simp only [State.pending]
    omega

theorem count_eq_zero_of_isWork {o : Option (Event c)}
    (ho : ∀ e, o = some e → e.isWork = false) (e : Event c) (he : e.isWork = true) : o.toList.count e = 0 := by
  rw [List.count_eq_zero, Option.mem_toList]
  intro h
  rw [ho e h] at he
  cases he

/-- Each increment that is not on its way has got to `complete`, or its `schedule_work` has found the item
queued. -/
theorem balance (hmode : c.irq_num < 0) {ok : State c → Action c → Prop} (hok : ∀ s a, ok s a → NoExit s a)
    {x : State c × List (Event c)} (hx : (history c).ReachableUnder (fun x a => ok x.1 a) x) :
    x.2.count .increment = x.2.count .complete + x.2.count (.schedule true) + x.1.worker.isSome.toNat +
      x.1.shared.queued.toNat + x.1.pending := by
  refine hx.log_invariant (I := fun s log => log.count .increment = log.count .complete +
    log.count (.schedule true) + s.worker.isSome.toNat + s.shared.queued.toNat + s.pending) ?_ ?_
  · rintro s rfl
    have hwrites : Threads.count WritePc.counted (initial c).writes = 0 := Threads.count_eq_zero.mpr fun _ => rfl
    have hpending : (initial c).pending = 0 := by
      rw [State.pending, hwrites]
      rfl
    rw [hpending]
    rfl
  · intro s log a t hs hi hoka h
    have hfall : Fallback s := fallback_of_reachable hmode (System.ReachableUnder.mono hok hs.forget)
    have hstep := hfall.workStep hmode (hok s a hoka) h
    simp only [List.count_append]
    generalize event s a = e at hstep ⊢
    cases hstep with
    | other he hp hq hw =>
      have hnone := count_eq_zero_of_isWork he
      rw [hnone .increment rfl, hnone .complete rfl, hnone (.schedule true) rfl, hp, hq, hw]
      exact hi
    | increment hp hq hw =>
      rw [hp, hq, hw]
      show log.count .increment + 1 = log.count .complete + 0 + (log.count (.schedule true) + 0) + _ + _ + _
      omega
    | schedule hp hq hw =>
      -- the item that was queued and the call that found it
      have hfound : [Event.schedule s.shared.queued].count (Event.schedule (c := c) true) = s.shared.queued.toNat := by
        cases s.shared.queued <;> rfl
      rw [hq, hw, Option.toList_some, hfound]
      show log.count .increment + 0 = log.count .complete + 0 + _ + _ + 1 + _
      omega
    | start hp hq hq' hw hw' =>
      rw [hp, hq', hw']
      rw [hq, hw] at hi
      show log.count .increment + 0 = log.count .complete + 0 + (log.count (.schedule true) + 0) + 1 + 0 + _
      exact hi
    | complete hp hq hw hw' =>
      rw [hp, hq, hw']
      rw [hw] at hi
      show log.count .increment + 0 = log.count .complete + 1 + (log.count (.schedule true) + 0) + 0 + _ + _
      simp only [Bool.toNat_true] at hi
      omega

end Armv8Driver.IrqDemo
