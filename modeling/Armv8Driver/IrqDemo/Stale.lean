import Armv8Driver.IrqDemo.History
import Armv8Driver.IrqDemo.Leftover

/-!
# Readers of `irq_demo` that need no event

A reader waits for a token, and a token may be that of an event that was counted before the call.
`outstanding` counts what such events have left: tokens, and bottom halves on their way. While there is no
increment it does not grow from zero, and a reader gets a token exactly if it is not zero, unless a top half
that has yet to make its increment holds the lock that the reader takes next.
-/

namespace Armv8Driver.IrqDemo

open Kernel Transition

variable {c : Config} {s t : State c} {m m' : Shared c} {i : Fin c.reads}

/-- The step is not an increment of `event_count`. -/
def NoIncrement (s : State c) (a : Action c) : Prop := event s a ≠ some .increment

instance (s : State c) (a : Action c) : Decidable (NoIncrement s a) :=
  inferInstanceAs (Decidable (event s a ≠ some .increment))

/-- The call has returned a positive byte count. -/
def Served (s : State c) (i : Fin c.reads) : Prop := ∃ ret off, s.reads i = .returned ret off ∧ 0 < ret

/-- The tokens that are there, and those that the events counted so far have still to give. -/
def State.outstanding (s : State c) : Nat :=
  s.shared.event_done.done + s.shared.queued.toNat + s.worker.isSome.toNat + s.woken.toNat + s.thread.isSome.toNat +
    s.timer.counted.toNat + (s.isr.any TopHalf.counted).toNat + Threads.count WritePc.counted s.writes

/-- The top half holds the lock and has not made its increment. -/
def TopHalf.counting : TopHalf → Bool
  | .load | .store _ => true
  | _ => false

def TimerPc.counting : TimerPc → Bool
  | .top h => h.counting
  | _ => false

def WritePc.counting : WritePc → Bool
  | .top _ h => h.counting
  | _ => false

def State.counting (s : State c) : Thread c → Bool
  | .timer => s.timer.counting
  | .isr => s.isr.any TopHalf.counting
  | .reader _ => false
  | .writer i => (s.writes i).counting

/-- The events counted so far have left nothing, or a top half is about to count another one. -/
def Fresh (s : State c) : Prop := s.outstanding = 0 ∨ ∃ th, s.counting th = true

/-! ### Runs without an increment -/

theorem do_hard_isr_work_counting {th : Thread c} {pc : TopHalf} {pc' : Option TopHalf}
    (h : do_hard_isr_work th m pc = some (m', pc')) (hne : pc.event ≠ some (Event.increment (c := c)))
    (hc : pc.counting = true) : pc'.any TopHalf.counting = true := by
  cases pc with
  | load =>
    cases h
    rfl
  | store count => exact absurd rfl hne
  | _ => cases hc

theorem fallback_timer_fn_counting {armed armed' : Bool} {pc pc' : TimerPc}
    (h : fallback_timer_fn m armed pc = some (m', armed', pc')) (hne : pc.event m ≠ some .increment)
    (hc : pc.counting = true) : pc'.counting = true := by
  cases pc with
  | top b =>
    obtain ⟨⟨m₁, b₁⟩, hwork, hs⟩ := Option.bind_eq_some_iff.mp h
    have hcounting := do_hard_isr_work_counting hwork hne hc
    cases hs
    cases b₁ <;> exact hcounting
  | _ => cases hc

theorem irq_demo_trigger_write_counting {entry : Bool} {j : Fin c.writes} {pc pc' : WritePc} {a : WriteStep}
    (h : irq_demo_trigger_write entry j m pc a = some (m', pc')) (hne : pc.event m a ≠ some .increment)
    (hc : pc.counting = true) : pc'.counting = true := by
  cases irq_demo_trigger_write_move h with
  | top hwork => exact do_hard_isr_work_counting hwork hne hc
  | last hwork => exact do_hard_isr_work_counting hwork hne hc
  | _ => cases hc

/-- Without an increment a top half that is about to make one keeps the lock. -/
theorem step_counting {a : Action c} {th : Thread c} (h : step s a = some t) (hne : NoIncrement s a)
    (hc : s.counting th = true) : t.counting th = true := by
  cases a with
  | module ret =>
    rw [module_frame h]
    cases th <;> exact hc
  | timerFires =>
    obtain ⟨⟨-, hidle⟩, hs⟩ := Option.ite_none_right_eq_some.mp h
    cases hs
    cases th with
    | timer =>
      simp only [State.counting, hidle] at hc
      cases hc
    | _ => exact hc
  | timer =>
    obtain ⟨⟨m', armed', pc'⟩, hstep, ht⟩ := Option.bind_eq_some_iff.mp h
    cases ht
    cases th with
    | timer => exact fallback_timer_fn_counting hstep hne hc
    | _ => exact hc
  | irqFires =>
    obtain ⟨⟨-, hnone⟩, hs⟩ := Option.ite_none_right_eq_some.mp h
    cases hs
    cases th with
    | isr =>
      simp only [State.counting, hnone] at hc
      cases hc
    | _ => exact hc
  | isr =>
    obtain ⟨b, hisr, hrest⟩ := Option.bind_eq_some_iff.mp h
    obtain ⟨⟨m', b'⟩, hwork, ht⟩ := Option.bind_eq_some_iff.mp hrest
    cases ht
    cases th with
    | isr =>
      simp only [State.counting, hisr, Option.any_some] at hc
      simp only [NoIncrement, event, hisr, Option.bind_some] at hne
      exact do_hard_isr_work_counting hwork hne hc
    | _ => exact hc
  | thread =>
    rw [(threaded_isr_spec h).2]
    cases th <;> exact hc
  | worker =>
    obtain ⟨_, -, ht⟩ := Option.bind_eq_some_iff.mp h
    cases ht
    cases th <;> exact hc
  | read j b =>
    obtain ⟨_, -, ht⟩ := Option.bind_eq_some_iff.mp h
    cases ht
    cases th <;> exact hc
  | write j b =>
    obtain ⟨⟨m', pc'⟩, hstep, ht⟩ := Option.bind_eq_some_iff.mp h
    cases ht
    cases th with
    | writer k =>
      by_cases hk : k = j
      · subst hk
        simp only [State.counting, Function.update_self]
        exact irq_demo_trigger_write_counting hstep hne hc
      · simp only [State.counting, Function.update_of_ne hk]
        exact hc
    | _ => exact hc

theorem module_outstanding {ret : Int} (h : step s (.module ret) = some t) :
    t.shared.event_done.done ≤ s.shared.event_done.done ∧ t.shared.queued.toNat ≤ s.shared.queued.toNat := by
  cases module_move h with
  | setup => exact ⟨Nat.zero_le _, Nat.zero_le _⟩
  | removing _ hremove =>
    rw [remove_proc_entries_frame hremove]
    exact ⟨Nat.le_refl _, Nat.le_refl _⟩
  | cancelWork => exact ⟨Nat.le_refl _, Nat.zero_le _⟩
  | _ => exact ⟨Nat.le_refl _, Nat.le_refl _⟩

/-- A step of a top half that is not past its increment and does not make it leaves nothing either. -/
theorem TopMoves.none {before after : Bool} {e : Option (Event c)} (h : TopMoves m m' before after e)
    (hne : e ≠ some .increment) (hbefore : before = false) : after = false ∧ m'.queued = m.queued := by
  rcases h with ⟨-, hafter, hq⟩ | ⟨he, -⟩ | ⟨-, hbefore', -⟩
  · exact ⟨hafter.trans hbefore, hq⟩
  · exact absurd he hne
  · rw [hbefore] at hbefore'
    cases hbefore'

/-- Nor does such a step give a token. -/
theorem TokenStep.zero {e : Option (Event c)} (h : TokenStep m m' e) (hne : e ≠ some .complete)
    (hzero : m.event_done.done = 0) : m'.event_done.done = 0 := by
  cases h with
  | other hc hp hdone => rw [hdone, hzero]
  | complete => exact absurd rfl hne
  | pass j hdone => exact absurd hzero (Completion.wait_for_completion_eq_some.mp hdone).1

theorem TopHalf.event_ne_complete {h : TopHalf} : h.event ≠ some (Event.complete (c := c)) := by
  cases h <;> nofun

theorem TimerPc.event_ne_complete {pc : TimerPc} : pc.event m ≠ some .complete := by
  cases pc with
  | top h => exact TopHalf.event_ne_complete
  | _ => simp [TimerPc.event]

theorem WritePc.event_ne_complete {pc : WritePc} {a : WriteStep} : pc.event m a ≠ some .complete := by
  unfold WritePc.event
  split
  · exact TopHalf.event_ne_complete
  · simp
  · simp

theorem ReadPc.event_ne_complete {j : Fin c.reads} {pc : ReadPc} {a : ReadStep} : pc.event j m a ≠ some .complete := by
  intro he
  have hwork := ReadPc.event_isWork he
  cases hwork

/-- The events counted so far have left nothing. -/
structure NothingLeft (s : State c) : Prop where
  done : s.shared.event_done.done = 0
  queued : s.shared.queued = false
  worker : s.worker = none
  woken : s.woken = false
  thread : s.thread = none
  timer : s.timer.counted = false
  isr : s.isr.any TopHalf.counted = false
  writes : ∀ j, (s.writes j).counted = false

theorem outstanding_eq_zero : s.outstanding = 0 ↔ NothingLeft s := by
  simp only [State.outstanding, Nat.add_eq_zero_iff, Bool.toNat_eq_zero, Option.isSome_eq_false_iff,
    Option.isNone_iff_eq_none, Threads.count_eq_zero]
  constructor
  · rintro ⟨⟨⟨⟨⟨⟨⟨hdone, hqueued⟩, hworker⟩, hwoken⟩, hthread⟩, htimer⟩, hisr⟩, hwrites⟩
    exact ⟨hdone, hqueued, hworker, hwoken, hthread, htimer, hisr, hwrites⟩
  · rintro ⟨hdone, hqueued, hworker, hwoken, hthread, htimer, hisr, hwrites⟩
    exact ⟨⟨⟨⟨⟨⟨⟨hdone, hqueued⟩, hworker⟩, hwoken⟩, hthread⟩, htimer⟩, hisr⟩, hwrites⟩

/-- Without an increment nothing comes from nothing. -/
theorem NothingLeft.step {a : Action c} (hs : NothingLeft s) (hne : NoIncrement s a) (h : step s a = some t) :
    NothingLeft t := by
  cases a with
  | module ret =>
    obtain ⟨hdone, hqueued⟩ := module_outstanding h
    rw [hs.done] at hdone
    rw [hs.queued] at hqueued
    rw [module_frame h]
    exact { hs with
      done := Nat.le_zero.mp hdone
      queued := Bool.toNat_eq_zero.mp (Nat.le_zero.mp hqueued) }
  | timerFires =>
    obtain ⟨-, ht⟩ := Option.ite_none_right_eq_some.mp h
    cases ht
    exact { hs with timer := rfl }
  | timer =>
    obtain ⟨⟨m', armed', pc'⟩, hstep, ht⟩ := Option.bind_eq_some_iff.mp h
    obtain ⟨hafter, hqueued⟩ := (fallback_timer_fn_moves hstep).none hne hs.timer
    have hdone := (fallback_timer_fn_token hstep).zero TimerPc.event_ne_complete hs.done
    cases ht
    exact { hs with done := hdone, queued := hqueued.trans hs.queued, timer := hafter }
  | irqFires =>
    obtain ⟨-, ht⟩ := Option.ite_none_right_eq_some.mp h
    cases ht
    exact { hs with isr := rfl }
  | isr =>
    obtain ⟨b, hb, hrest⟩ := Option.bind_eq_some_iff.mp h
    obtain ⟨⟨m', b'⟩, hwork, ht⟩ := Option.bind_eq_some_iff.mp hrest
    simp only [NoIncrement, event, hb, Option.bind_some] at hne
    have hbefore : b.counted = false := by simpa only [hb, Option.any_some] using hs.isr
    obtain ⟨hafter, hqueued⟩ := (do_hard_isr_work_moves hwork).none hne hbefore
    have hdone := (do_hard_isr_work_token hwork).zero TopHalf.event_ne_complete hs.done
    cases ht
    cases b' with
    | none => cases hafter
    | some b' =>
      exact { hs with
        done := hdone
        queued := hqueued.trans hs.queued
        woken := by simp [hs.woken]
        isr := hafter }
  | thread =>
    rcases (threaded_isr_spec h).1 with hwoken | hthread
    · rw [hs.woken] at hwoken
      cases hwoken
    · exact absurd hs.thread hthread
  | worker =>
    obtain ⟨⟨m', b'⟩, hstep, ht⟩ := Option.bind_eq_some_iff.mp h
    rw [hs.worker] at hstep
    obtain ⟨hqueued, -⟩ := Option.ite_none_right_eq_some.mp hstep
    rw [hs.queued] at hqueued
    cases hqueued
  | read j b =>
    obtain ⟨⟨m', pc'⟩, hstep, ht⟩ := Option.bind_eq_some_iff.mp h
    have hqueued := irq_demo_read_queued hstep
    have hdone := (irq_demo_read_token hstep).zero ReadPc.event_ne_complete hs.done
    cases ht
    exact { hs with done := hdone, queued := hqueued.trans hs.queued }
  | write j b =>
    obtain ⟨⟨m', pc'⟩, hstep, ht⟩ := Option.bind_eq_some_iff.mp h
    obtain ⟨hafter, hqueued⟩ := (irq_demo_trigger_write_moves hstep).none hne (hs.writes j)
    have hdone := (irq_demo_trigger_write_token hstep).zero WritePc.event_ne_complete hs.done
    cases ht
    refine { hs with done := hdone, queued := hqueued.trans hs.queued, writes := fun k => ?_ }
    by_cases hk : k = j
    · subst hk
      simp only [Function.update_self]
      exact hafter
    · simp only [Function.update_of_ne hk]
      exact hs.writes k

/-- The call waits, or has failed. -/
def ReadPc.unserved : ReadPc → Bool
  | .waiting _ | .lock _ => true
  | .returned ret _ => ret ≤ 0
  | _ => false

theorem irq_demo_read_unserved {entry fallback : Bool} {pc pc' : ReadPc} {a : ReadStep}
    (h : irq_demo_read entry fallback i m pc a = some (m', pc')) (hpc : pc.unserved = true) :
    pc'.unserved = true ∧ (∀ off, pc' = .lock off → m.event_done.done ≠ 0) ∨
      (∃ off, pc = .lock off) ∧ m.irq_lock.owner = none := by
  cases irq_demo_read_move h with
  | wait hdone => exact .inl ⟨rfl, fun _ _ => (Completion.wait_for_completion_eq_some.mp hdone).1⟩
  | waitFails => exact .inl ⟨rfl, nofun⟩
  | lock hl => exact .inr ⟨⟨_, rfl⟩, (Mutex.mutex_lock_eq_some.mp hl).1⟩
  | _ => cases hpc

theorem Served.not_unserved (h : Served s i) : (s.reads i).unserved = false := by
  obtain ⟨ret, off, hpc, hpos⟩ := h
  simp [hpc, ReadPc.unserved, hpos]

theorem State.critical_of_counting {th : Thread c} (h : s.counting th = true) : s.critical th = true := by
  have htop : ∀ b : TopHalf, b.counting = true → b.critical = true := by
    intro b hb
    cases b <;> first | rfl | cases hb
  cases th with
  | timer =>
    simp only [State.counting, State.critical] at h ⊢
    cases hpc : s.timer <;> rw [hpc] at h <;> first | exact htop _ h | cases h
  | isr =>
    simp only [State.counting, State.critical] at h ⊢
    cases hisr : s.isr <;> rw [hisr] at h <;> first | exact htop _ h | cases h
  | reader j => cases h
  | writer j =>
    simp only [State.counting, State.critical] at h ⊢
    cases hpc : s.writes j <;> rw [hpc] at h <;> first | exact htop _ h | cases h

/-- Where the events have left nothing, a reader that waits goes on waiting until the next one. -/
theorem unserved_of_outstanding {u : State c} (hrun : (system c).Steps NoIncrement t u) (hzero : t.outstanding = 0)
    (hpc : (t.reads i).unserved = true ∧ ∀ off, t.reads i ≠ .lock off) : (u.reads i).unserved = true := by
  have hall : u.outstanding = 0 ∧ (u.reads i).unserved = true ∧ ∀ off, u.reads i ≠ .lock off := by
    refine hrun.invariant (I := fun u => u.outstanding = 0 ∧ (u.reads i).unserved = true ∧ ∀ off, u.reads i ≠ .lock off)
      ⟨hzero, hpc⟩ ?_
    rintro s a t ⟨hs, hunserved, hwaits⟩ hne h
    refine ⟨outstanding_eq_zero.mpr ((outstanding_eq_zero.mp hs).step hne h), ?_⟩
    rcases step_reads h i with hsame | ⟨b, m', pc', rfl, hstep, rfl⟩
    · rw [hsame]
      exact ⟨hunserved, hwaits⟩
    · simp only [Function.update_self]
      rcases irq_demo_read_unserved hstep hunserved with ⟨hpc', htoken⟩ | ⟨⟨off, hlock⟩, -⟩
      · refine ⟨hpc', fun off hoff => htoken off hoff ?_⟩
        unfold State.outstanding at hs
        omega
      · exact absurd hlock (hwaits off)
  exact hall.2.1

/-- While a top half is about to make its increment the lock is not free. -/
theorem unserved_of_counting {th : Thread c} {u : State c} (ht : (system c).Reachable t)
    (hrun : (system c).Steps NoIncrement t u) (hcounting : t.counting th = true)
    (hpc : (t.reads i).unserved = true) : (u.reads i).unserved = true := by
  have hall : (system c).Reachable u ∧ u.counting th = true ∧ (u.reads i).unserved = true := by
    refine hrun.invariant (I := fun u => (system c).Reachable u ∧ u.counting th = true ∧ (u.reads i).unserved = true)
      ⟨ht, hcounting, hpc⟩ ?_
    rintro s a t ⟨hs, hcounting, hunserved⟩ hne h
    refine ⟨hs.step h, step_counting h hne hcounting, ?_⟩
    rcases step_reads h i with hsame | ⟨b, m', pc', rfl, hstep, rfl⟩
    · rw [hsame]
      exact hunserved
    · simp only [Function.update_self]
      rcases irq_demo_read_unserved hstep hunserved with ⟨hpc', -⟩ | ⟨-, hfree⟩
      · exact hpc'
      · have hown := (held_of_reachable hs th).mpr (State.critical_of_counting hcounting)
        rw [hfree] at hown
        cases hown
  exact hall.2.2

/-! ### A reader that takes what is left -/

/-- The steps that bring what is left to the reader `i`, without an increment, a new call or a failure. -/
def Serving (i : Fin c.reads) (s : State c) : Action c → Prop
  | .timer => s.timer.counted = true
  | .isr => s.isr.any TopHalf.counted = true
  | .thread | .worker => True
  | .read j .wait => j = i
  | .read _ .step => True
  | .read _ (.copy fault) => fault = false
  | .write j .step => (s.writes j).counted = true
  | _ => False

/-- The reader has come through its wait, or has been served, or waits and something is left. -/
structure Due (i : Fin c.reads) (s : State c) : Prop where
  clear : ∀ th, s.counting th = false
  reader : (∃ off, s.reads i = .waiting off) ∧ 0 < s.outstanding ∨ (s.reads i).late = true ∨ Served s i

def TimerPc.due : TimerPc → Nat
  | .top h => 5 * h.counted.toNat
  | .schedule => 4
  | _ => 0

def WritePc.due : WritePc → Nat
  | .top _ h => 5 * h.counted.toNat
  | .schedule _ => 4
  | _ => 0

/-- How far what is left is from the reader. -/
def State.due (s : State c) : Nat :=
  s.timer.due + 4 * (s.isr.any TopHalf.counted).toNat + 3 * s.shared.queued.toNat + workRank s.worker +
    3 * s.woken.toNat + workRank s.thread + Threads.total ReadPc.rank s.reads + Threads.total WritePc.due s.writes

theorem TopHalf.eq_unlock_of_counted {h : TopHalf} (hc : h.counted = true) : h = .unlock := by
  cases h <;> first | rfl | cases hc

theorem fallback_timer_fn_serves {armed armed' : Bool} {pc pc' : TimerPc} (hc : pc.counted = true)
    (h : fallback_timer_fn m armed pc = some (m', armed', pc')) :
    pc'.counting = false ∧ (pc'.counted = true ∨ m'.queued = true) ∧
      pc'.due + 3 * m'.queued.toNat < pc.due + 3 * m.queued.toNat := by
  cases pc with
  | idle => cases hc
  | restart => cases hc
  | top b =>
    obtain rfl := TopHalf.eq_unlock_of_counted hc
    cases h
    exact ⟨rfl, .inl rfl, by simp [TimerPc.due, TopHalf.counted]⟩
  | schedule =>
    cases h
    refine ⟨rfl, .inr rfl, ?_⟩
    simp only [TimerPc.due, schedule_work, Bool.toNat_true]
    omega

theorem irq_demo_trigger_write_serves {entry : Bool} {j : Fin c.writes} {pc pc' : WritePc} (hc : pc.counted = true)
    (h : irq_demo_trigger_write entry j m pc .step = some (m', pc')) :
    pc'.counting = false ∧ (pc'.counted = true ∨ m'.queued = true) ∧
      pc'.due + 3 * m'.queued.toNat < pc.due + 3 * m.queued.toNat := by
  cases pc with
  | notCalled => cases hc
  | returned => cases hc
  | top len b =>
    obtain rfl := TopHalf.eq_unlock_of_counted hc
    cases h
    exact ⟨rfl, .inl rfl, by simp [WritePc.due, TopHalf.counted]⟩
  | schedule =>
    cases h
    refine ⟨rfl, .inr rfl, ?_⟩
    simp only [WritePc.due, schedule_work, Bool.toNat_true]
    omega

theorem do_bottom_half_work_serves {b : BottomHalf} :
    0 < (do_bottom_half_work m b).1.event_done.done + (do_bottom_half_work m b).2.isSome.toNat ∧
      (do_bottom_half_work m b).1.queued = m.queued ∧ workRank (do_bottom_half_work m b).2 < workRank (some b) := by
  cases b with
  | sleep => exact ⟨Nat.succ_pos _, rfl, Nat.lt_succ_self 1⟩
  | complete =>
    refine ⟨?_, rfl, Nat.one_pos⟩
    simp only [do_bottom_half_work, Completion.complete_done, UINT_MAX]
    omega

theorem counting_clear (hclear : ∀ th, s.counting th = false) (htimer : t.timer = s.timer) (hisr : t.isr = s.isr)
    (hwrites : t.writes = s.writes) (th : Thread c) : t.counting th = false := by
  rw [← hclear th]
  cases th with
  | timer => exact congrArg TimerPc.counting htimer
  | isr => exact congrArg (Option.any TopHalf.counting) hisr
  | reader j => rfl
  | writer j => exact congrArg WritePc.counting (congrFun hwrites j)

/-- A waiting reader whose state a step leaves alone still has something to wait for if the step leaves
something. -/
theorem Due.of_left (hd : Due i s) (hclear : ∀ th, t.counting th = false) (hreads : t.reads i = s.reads i)
    (hleft : 0 < s.outstanding → 0 < t.outstanding) : Due i t := by
  refine ⟨hclear, ?_⟩
  unfold Served
  rw [hreads]
  rcases hd.reader with ⟨hwaits, hpos⟩ | hlate | hserved
  · exact .inl ⟨hwaits, hleft hpos⟩
  · exact .inr (.inl hlate)
  · exact .inr (.inr hserved)

theorem msg_length_pos (count : Nat) (fallback : Bool) : 0 < (msg count fallback).length := by
  simp [msg, scnprintf]

theorem irq_demo_read_serves {entry fallback : Bool} {pc pc' : ReadPc} {a : ReadStep} (hs : Serving i s (.read i a))
    (h : irq_demo_read entry fallback i m pc a = some (m', pc')) :
    pc'.late = true ∨ ∃ ret off, pc' = .returned ret off ∧ 0 < ret := by
  cases irq_demo_read_move h with
  | wait => exact .inl rfl
  | lock => exact .inl rfl
  | load => exact .inl rfl
  | unlock => exact .inl rfl
  | copy => exact .inr ⟨_, _, rfl, by exact_mod_cast msg_length_pos _ _⟩
  | fault => cases (show true = false from hs)
  | _ => exact hs.elim

theorem Serving.finishing {j : Fin c.reads} {a : ReadStep} (h : Serving i s (.read j a)) : Finishing s (.read j a) := by
  cases a <;> first | exact h.elim | trivial

theorem TokenStep.same {e : Option (Event c)} (h : TokenStep m m' e) (hc : e ≠ some .complete)
    (hp : ∀ j, e ≠ some (.pass j)) : m'.event_done = m.event_done := by
  cases h with
  | other _ _ hdone => exact hdone
  | complete => exact absurd rfl hc
  | pass j => exact absurd rfl (hp j)

theorem ReadPc.event_ne_pass {j : Fin c.reads} {pc : ReadPc} {a : ReadStep} (ha : a ≠ .wait) (k : Fin c.reads) :
    pc.event j m a ≠ some (.pass k) := by
  unfold ReadPc.event
  split
  · exact absurd rfl ha
  · nofun
  · nofun

theorem Serving.read_outstanding {j : Fin c.reads} {a : ReadStep} (hj : j ≠ i) (hs : Serving i s (.read j a))
    (h : s.stepRead j a = some t) : t.outstanding = s.outstanding := by
  obtain ⟨⟨m', pc'⟩, hstep, ht⟩ := Option.bind_eq_some_iff.mp h
  have hqueued := irq_demo_read_queued hstep
  have hwait : a ≠ .wait := by
    rintro rfl
    exact hj hs
  have hdone := (irq_demo_read_token hstep).same ReadPc.event_ne_complete (ReadPc.event_ne_pass hwait)
  cases ht
  simp only [State.outstanding, hqueued, hdone]

section Serve

variable (hd : Due i s)

include hd in
theorem Due.stepTimer (hc : s.timer.counted = true) (h : s.stepTimer = some t) : Due i t ∧ t.due < s.due := by
  obtain ⟨⟨m', armed', pc'⟩, hstep, ht⟩ := Option.bind_eq_some_iff.mp h
  obtain ⟨hcounting, hleft, hrank⟩ := fallback_timer_fn_serves hc hstep
  cases ht
  refine ⟨hd.of_left (fun th => ?_) rfl fun _ => ?_, ?_⟩
  · cases th with
    | timer => exact hcounting
    | isr => exact hd.clear .isr
    | reader j => rfl
    | writer j => exact hd.clear (.writer j)
  · rcases hleft with hleft | hleft <;> simp only [State.outstanding, hleft, Bool.toNat_true] <;> omega
  · simp only [State.due]
    omega

include hd in
theorem Due.hard_isr (hc : s.isr.any TopHalf.counted = true) (h : s.hard_isr = some t) :
    Due i t ∧ t.due < s.due := by
  obtain ⟨b, hb, hrest⟩ := Option.bind_eq_some_iff.mp h
  obtain ⟨⟨m', b'⟩, hwork, ht⟩ := Option.bind_eq_some_iff.mp hrest
  have hcounted : b.counted = true := by simpa only [hb, Option.any_some] using hc
  obtain rfl := TopHalf.eq_unlock_of_counted hcounted
  cases hwork
  cases ht
  refine ⟨hd.of_left (fun th => ?_) rfl fun _ => ?_, ?_⟩
  · cases th with
    | timer => exact hd.clear .timer
    | isr => rfl
    | reader j => rfl
    | writer j => exact hd.clear (.writer j)
  · simp only [State.outstanding, Option.isNone_none, Bool.or_true, Bool.toNat_true]
    omega
  · have hle := Bool.toNat_le s.woken
    simp only [State.due, hb, Option.any_some, Option.any_none, TopHalf.counted, Option.isNone_none, Bool.or_true,
      Bool.toNat_true, Bool.toNat_false]
    omega

include hd in
theorem Due.threaded_isr (h : s.threaded_isr = some t) : Due i t ∧ t.due < s.due := by
  simp only [State.threaded_isr] at h
  split at h
  case h_1 hnone =>
    obtain ⟨hwoken, ht⟩ := Option.ite_none_right_eq_some.mp h
    cases ht
    refine ⟨hd.of_left (counting_clear hd.clear rfl rfl rfl) rfl fun _ => ?_, ?_⟩
    · simp only [State.outstanding, Option.isSome_some, Bool.toNat_true]
      omega
    · simp only [State.due, hnone, hwoken, workRank, Option.elim_none, Option.elim_some, BottomHalf.rank,
        Bool.toNat_true, Bool.toNat_false]
      omega
  case h_2 b hb =>
    obtain ⟨hleft, hqueued, hrank⟩ := @do_bottom_half_work_serves c s.shared b
    cases h
    refine ⟨hd.of_left (counting_clear hd.clear rfl rfl rfl) rfl fun _ => ?_, ?_⟩
    · simp only [State.outstanding]
      omega
    · simp only [State.due, hb, hqueued]
      omega

include hd in
theorem Due.stepWorker (h : s.stepWorker = some t) : Due i t ∧ t.due < s.due := by
  obtain ⟨⟨m', b'⟩, hstep, ht⟩ := Option.bind_eq_some_iff.mp h
  cases hb : s.worker with
  | none =>
    rw [hb] at hstep
    obtain ⟨hqueued, hs⟩ := Option.ite_none_right_eq_some.mp hstep
    cases hs
    cases ht
    refine ⟨hd.of_left (counting_clear hd.clear rfl rfl rfl) rfl fun _ => ?_, ?_⟩
    · simp only [State.outstanding, Option.isSome_some, Bool.toNat_true]
      omega
    · simp only [State.due, hb, hqueued, workRank, Option.elim_none, Option.elim_some, BottomHalf.rank,
        Bool.toNat_true, Bool.toNat_false]
      omega
  | some b =>
    obtain ⟨hleft, hqueued, hrank⟩ := @do_bottom_half_work_serves c s.shared b
    rw [hb] at hstep
    have hwork : do_bottom_half_work s.shared b = (m', b') := Option.some.inj hstep
    rw [hwork] at hleft hqueued hrank
    simp only at hleft hqueued hrank
    cases ht
    refine ⟨hd.of_left (counting_clear hd.clear rfl rfl rfl) rfl fun _ => ?_, ?_⟩
    · simp only [State.outstanding]
      omega
    · simp only [State.due, hb, hqueued]
      omega

include hd in
/-- A step of another reader takes nothing, and one of the reader itself brings it on. -/
theorem Due.stepRead {j : Fin c.reads} {a : ReadStep} (hs : Serving i s (.read j a)) (h : s.stepRead j a = some t) :
    Due i t ∧ t.due < s.due := by
  obtain ⟨⟨m', pc'⟩, hstep, ht⟩ := Option.bind_eq_some_iff.mp h
  have hqueued := irq_demo_read_queued hstep
  have hrank := irq_demo_read_rank hs.finishing hstep
  have htotal := Threads.total_update ReadPc.rank s.reads j pc'
  have hclear : ∀ th, t.counting th = false := by
    cases ht
    exact counting_clear hd.clear rfl rfl rfl
  constructor
  · by_cases hj : j = i
    · subst hj
      refine ⟨hclear, .inr ?_⟩
      cases ht
      unfold Served
      simp only [Function.update_self]
      exact irq_demo_read_serves hs hstep
    · have hout := hs.read_outstanding hj h
      refine hd.of_left hclear ?_ fun hpos => by omega
      cases ht
      exact Function.update_of_ne (Ne.symm hj) _ _
  · cases ht
    simp only [State.due, hqueued]
    omega

include hd in
theorem Due.stepWrite {j : Fin c.writes} (hc : (s.writes j).counted = true) (h : s.stepWrite j .step = some t) :
    Due i t ∧ t.due < s.due := by
  obtain ⟨⟨m', pc'⟩, hstep, ht⟩ := Option.bind_eq_some_iff.mp h
  obtain ⟨hcounting, hleft, hrank⟩ := irq_demo_trigger_write_serves hc hstep
  have htotal := Threads.total_update WritePc.due s.writes j pc'
  cases ht
  refine ⟨hd.of_left (fun th => ?_) rfl fun _ => ?_, ?_⟩
  · cases th with
    | timer => exact hd.clear .timer
    | isr => exact hd.clear .isr
    | reader k => rfl
    | writer k =>
      by_cases hk : k = j
      · subst hk
        simp only [State.counting, Function.update_self]
        exact hcounting
      · simp only [State.counting, Function.update_of_ne hk]
        exact hd.clear (.writer k)
  · simp only [State.outstanding]
    rcases hleft with hleft | hleft
    · have hpos : 0 < Threads.count WritePc.counted (Function.update s.writes j pc') :=
        Threads.count_pos.mpr ⟨j, by rwa [Function.update_self]⟩
      omega
    · rw [hleft, Bool.toNat_true]
      omega
  · simp only [State.due]
    omega

end Serve

theorem Serving.step {a : Action c} (hs : Serving i s a) (hd : Due i s) (h : step s a = some t) :
    Due i t ∧ t.due < s.due := by
  cases a with
  | timer => exact hd.stepTimer hs h
  | isr => exact hd.hard_isr hs h
  | thread => exact hd.threaded_isr h
  | worker => exact hd.stepWorker h
  | read j b => exact hd.stepRead hs h
  | write j b =>
    cases b with
    | call len => exact hs.elim
    | step => exact hd.stepWrite hs h
  | module ret => exact hs.elim
  | timerFires => exact hs.elim
  | irqFires => exact hs.elim

section Stuck

variable (hd : Due i s) (hheld : s.shared.irq_lock.Held s.critical) (hstuck : (system c).Stuck (Serving i) s)

/-- A top half inside the critical section is past its increment, if it is not about to make it. -/
theorem TopHalf.counted_of_critical {h : TopHalf} (hcritical : h.critical = true) (hcounting : h.counting = false) :
    h.counted = true := by
  cases h with
  | lock => cases hcritical
  | load => cases hcounting
  | store count => cases hcounting
  | unlock => rfl

include hstuck in
theorem serving_timer : s.timer.counted = false := by
  by_contra hc
  have hcounted : s.timer.counted = true := by simpa using hc
  have hnone : s.stepTimer = none := hstuck .timer hcounted
  have hnone' : fallback_timer_fn s.shared s.armed s.timer = none :=
    System.eq_none_of_bind hnone fun _ => Option.some_ne_none _
  cases hpc : s.timer with
  | top h =>
    rw [hpc] at hcounted hnone'
    obtain rfl := TopHalf.eq_unlock_of_counted hcounted
    cases hnone'
  | schedule =>
    rw [hpc] at hnone'
    cases hnone'
  | _ =>
    rw [hpc] at hcounted
    cases hcounted

include hstuck in
theorem serving_isr : s.isr.any TopHalf.counted = false := by
  by_contra hc
  have hcounted : s.isr.any TopHalf.counted = true := by simpa using hc
  have hnone : s.hard_isr = none := hstuck .isr hcounted
  cases hb : s.isr with
  | none =>
    rw [hb] at hcounted
    cases hcounted
  | some h =>
    rw [hb] at hcounted
    obtain rfl := TopHalf.eq_unlock_of_counted hcounted
    simp [State.hard_isr, hb, do_hard_isr_work] at hnone

include hstuck in
theorem serving_write (j : Fin c.writes) : (s.writes j).counted = false := by
  by_contra hc
  have hcounted : (s.writes j).counted = true := by simpa using hc
  have hnone : s.stepWrite j .step = none := hstuck (.write j .step) hcounted
  have hnone' : irq_demo_trigger_write s.trigger j s.shared (s.writes j) .step = none :=
    System.eq_none_of_bind hnone fun _ => Option.some_ne_none _
  cases hpc : s.writes j with
  | top len h =>
    rw [hpc] at hcounted hnone'
    obtain rfl := TopHalf.eq_unlock_of_counted hcounted
    cases hnone'
  | schedule =>
    rw [hpc] at hnone'
    cases hnone'
  | _ =>
    rw [hpc] at hcounted
    cases hcounted

include hstuck in
theorem serving_read {j : Fin c.reads} {a : ReadStep} (ha : Serving i s (.read j a)) :
    irq_demo_read s.entry s.using_fallback j s.shared (s.reads j) a = none := by
  have hnone : s.stepRead j a = none := hstuck (.read j a) ha
  exact System.eq_none_of_bind hnone fun _ => Option.some_ne_none _

include hd hheld hstuck in
theorem serving_unlocked : s.shared.irq_lock.owner = none := by
  by_contra hown
  obtain ⟨th, hth⟩ := Option.ne_none_iff_exists'.mp hown
  have hin := (hheld th).mp hth
  have hclear := hd.clear th
  cases th with
  | timer =>
    have htimer := serving_timer hstuck
    simp only [State.critical, State.counting] at hin hclear
    cases hpc : s.timer with
    | top h =>
      rw [hpc] at hin hclear htimer
      have hcounted : h.counted = true := TopHalf.counted_of_critical hin hclear
      exact absurd hcounted (by simpa [TimerPc.counted] using htimer)
    | _ =>
      rw [hpc] at hin
      cases hin
  | isr =>
    have hisr := serving_isr hstuck
    simp only [State.critical, State.counting] at hin hclear
    cases hb : s.isr with
    | none =>
      rw [hb] at hin
      cases hin
    | some h =>
      rw [hb] at hin hclear hisr
      have hcounted : h.counted = true := TopHalf.counted_of_critical hin hclear
      exact absurd hcounted (by simpa using hisr)
  | reader j =>
    have hnone := serving_read hstuck (j := j) (a := .step) trivial
    simp only [State.critical] at hin
    cases hpc : s.reads j with
    | load off =>
      rw [hpc] at hnone
      cases hnone
    | unlock off count =>
      rw [hpc] at hnone
      cases hnone
    | _ =>
      rw [hpc] at hin
      cases hin
  | writer j =>
    have hwrite := serving_write hstuck j
    simp only [State.critical, State.counting] at hin hclear
    cases hpc : s.writes j with
    | top len h =>
      rw [hpc] at hin hclear hwrite
      have hcounted : h.counted = true := TopHalf.counted_of_critical hin hclear
      exact absurd hcounted (by simpa [WritePc.counted] using hwrite)
    | _ =>
      rw [hpc] at hin
      cases hin

include hstuck in
/-- While the reader waits nothing is left. -/
theorem serving_outstanding {off : Nat} (hpc : s.reads i = .waiting off) : s.outstanding = 0 := by
  have hdone : s.shared.event_done.done = 0 := by
    have hnone := serving_read hstuck (j := i) (a := .wait) rfl
    rw [hpc] at hnone
    have hempty := System.eq_none_of_bind hnone fun _ => Option.some_ne_none _
    exact Completion.wait_for_completion_eq_none.mp hempty
  obtain ⟨hworker, hqueued⟩ : s.worker = none ∧ s.shared.queued = false := by
    have hnone : s.stepWorker = none := hstuck .worker trivial
    have hnone' : fallback_workqueue_fn s.shared s.worker = none :=
      System.eq_none_of_bind hnone fun _ => Option.some_ne_none _
    cases hb : s.worker with
    | none =>
      rw [hb] at hnone'
      refine ⟨rfl, ?_⟩
      by_contra hq
      simp [fallback_workqueue_fn, hq] at hnone'
    | some b =>
      rw [hb] at hnone'
      cases hnone'
  obtain ⟨hthread, hwoken⟩ : s.thread = none ∧ s.woken = false := by
    have hnone : s.threaded_isr = none := hstuck .thread trivial
    cases hb : s.thread with
    | none =>
      refine ⟨rfl, ?_⟩
      by_contra hw
      simp [State.threaded_isr, hb, hw] at hnone
    | some b => simp [State.threaded_isr, hb] at hnone
  exact outstanding_eq_zero.mpr
    ⟨hdone, hqueued, hworker, hwoken, hthread, serving_timer hstuck, serving_isr hstuck, serving_write hstuck⟩

include hd hheld hstuck in
theorem served_of_stuck : Served s i := by
  have hfree := serving_unlocked hd hheld hstuck
  have hstep := serving_read hstuck (j := i) (a := .step) trivial
  have hcopy := serving_read hstuck (j := i) (a := .copy false) rfl
  rcases hd.reader with ⟨⟨off, hpc⟩, hpos⟩ | hlate | hserved
  · have hzero := serving_outstanding hstuck hpc
    omega
  · cases hpc : s.reads i with
    | lock off =>
      rw [hpc] at hstep
      have hblocked := System.eq_none_of_bind hstep fun _ => Option.some_ne_none _
      exact absurd hfree (Mutex.mutex_lock_eq_none.mp hblocked)
    | load off =>
      rw [hpc] at hstep
      cases hstep
    | unlock off count =>
      rw [hpc] at hstep
      cases hstep
    | copy off count =>
      rw [hpc] at hcopy
      cases hcopy
    | _ =>
      rw [hpc] at hlate
      cases hlate
  · exact hserved

end Stuck

theorem TopHalf.event_ne_increment {h : TopHalf} (hc : h.counted = true) : h.event ≠ some (Event.increment (c := c)) := by
  rw [TopHalf.eq_unlock_of_counted hc]
  simp [TopHalf.event]

theorem TimerPc.event_ne_increment {pc : TimerPc} (hc : pc.counted = true) : pc.event m ≠ some .increment := by
  cases pc with
  | top h => exact TopHalf.event_ne_increment hc
  | _ => simp [TimerPc.event]

theorem WritePc.event_ne_increment {pc : WritePc} (hc : pc.counted = true) : pc.event m .step ≠ some .increment := by
  cases pc with
  | top len h => exact TopHalf.event_ne_increment hc
  | _ => simp [WritePc.event]

theorem Serving.noIncrement {a : Action c} (hs : Serving i s a) : NoIncrement s a := by
  cases a with
  | timer => exact TimerPc.event_ne_increment hs
  | isr =>
    obtain ⟨h, hisr, hcounted⟩ := (Option.any_eq_true _ _).mp hs
    simp only [NoIncrement, event, hisr, Option.bind_some]
    exact TopHalf.event_ne_increment hcounted
  | thread => exact BottomHalf.event_ne_increment
  | worker => exact BottomHalf.event_ne_increment
  | read j b => exact ReadPc.event_ne_increment
  | write j b =>
    cases b with
    | call len => exact hs.elim
    | step => exact WritePc.event_ne_increment hs
  | module ret => exact hs.elim
  | timerFires => exact hs.elim
  | irqFires => exact hs.elim

/-- A reader for whom something is left can be served without another event. -/
theorem Due.served (hreach : (system c).Reachable s) (hd : Due i s) :
    ∃ t, (system c).Steps NoIncrement s t ∧ Served t i := by
  have hprog : ∀ s a t, Due i s → Serving i s a → (system c).step s a = some t → Due i t ∧ t.due < s.due :=
    fun s a t hd hs h => hs.step hd h
  obtain ⟨t, hrun, ht, hstuck⟩ := System.exists_stuck State.due hprog hd
  have hquiet : (system c).Steps NoIncrement s t := hrun.mono fun _ _ hs => hs.noIncrement
  exact ⟨t, hquiet, served_of_stuck ht (held_of_reachable (hreach.steps hquiet)) hstuck⟩

/-- A call that starts to wait is never served without an increment after its start, exactly if the events
counted before have left nothing for it, or a top half about to count another one holds the lock. -/
theorem waits_for_next_iff {len : Nat} (hs : (system c).Reachable s)
    (hcall : step s (.read i (.call 0 len)) = some t) :
    (∀ u, (system c).Steps NoIncrement t u → ¬ Served u i) ↔ Fresh s := by
  have ht : (system c).Reachable t := hs.step (a := .read i (.call 0 len)) hcall
  have hstart : t = { s with reads := Function.update s.reads i (.waiting 0) } := by
    obtain ⟨⟨m', pc'⟩, hstep, hs'⟩ := Option.bind_eq_some_iff.mp hcall
    cases hpc : s.reads i with
    | notCalled =>
      rw [hpc] at hstep
      obtain ⟨-, hpair⟩ := Option.ite_none_right_eq_some.mp hstep
      cases hpair
      exact (Option.some.inj hs').symm
    | _ =>
      rw [hpc] at hstep
      cases hstep
  have hwaits : t.reads i = .waiting 0 := by simp [hstart]
  have hunserved : (t.reads i).unserved = true := by
    rw [hwaits]
    rfl
  have hout : t.outstanding = s.outstanding := by rw [hstart]; rfl
  have hcounting : ∀ th, t.counting th = s.counting th := by
    intro th
    rw [hstart]
    cases th <;> rfl
  constructor
  · intro hnever
    by_contra hstale
    simp only [Fresh, not_or, not_exists, Bool.not_eq_true] at hstale
    obtain ⟨hleft, hclear⟩ := hstale
    have hdue : Due i t := ⟨fun th => (hcounting th).trans (hclear th), .inl ⟨⟨0, hwaits⟩, by omega⟩⟩
    obtain ⟨u, hrun, hserved⟩ := hdue.served ht
    exact hnever u hrun hserved
  · intro hfresh u hrun hserved
    have hstill : (u.reads i).unserved = true := by
      rcases hfresh with hzero | ⟨th, hth⟩
      · exact unserved_of_outstanding hrun (hout.trans hzero) ⟨hunserved, fun off => by rw [hwaits]; nofun⟩
      · exact unserved_of_counting ht hrun ((hcounting th).trans hth) hunserved
    rw [hserved.not_unserved] at hstill
    cases hstill

/-- The reader of `demo`. -/
def onlyReader : Fin demo.reads := ⟨0, Nat.one_pos⟩

/-- The module is loaded, and no event has come yet. -/
def noEvent : State demo := ((system demo).run (initial demo) (List.replicate 5 (.module 0))).get rfl

theorem noEvent_waits : Fresh noEvent ∧
    ∀ u, (system demo).Steps NoIncrement
      { noEvent with reads := Function.update noEvent.reads onlyReader (.waiting 0) } u → ¬ Served u onlyReader := by
  have hreach : (system demo).Reachable noEvent := .of_run rfl (fun _ _ _ => trivial) (Option.some_get _).symm
  have hfresh : Fresh noEvent := .inl (by decide)
  exact ⟨hfresh, (@waits_for_next_iff demo noEvent _ onlyReader 96 hreach rfl).mpr hfresh⟩

/-- The timer has fired once, and nobody was reading when the work item ran. -/
def unread : State demo :=
  ((system demo).run (initial demo)
    (List.replicate 5 (.module 0) ++ .timerFires :: List.replicate 6 .timer ++ List.replicate 3 .worker)).get rfl

/-- The reader calls, and is served at once. -/
def unreadServed : State demo :=
  (((system demo).checked fun s a => decide (NoIncrement s a)).run
    { unread with reads := Function.update unread.reads onlyReader (.waiting 0) }
    [.read onlyReader .wait, .read onlyReader .step, .read onlyReader .step, .read onlyReader .step,
      .read onlyReader (.copy false)]).get rfl

theorem unread_served_at_once :
    ¬ ∀ s t u : State demo, (system demo).Reachable s → step s (.read onlyReader (.call 0 96)) = some t →
      (system demo).Steps NoIncrement t u → ¬ Served u onlyReader := by
  intro hnever
  have hreach : (system demo).Reachable unread := .of_run rfl (fun _ _ _ => trivial) (Option.some_get _).symm
  refine hnever unread _ unreadServed hreach rfl
    (.of_checked (fun _ _ h => of_decide_eq_true h) (Option.some_get _).symm) ⟨_, _, rfl, ?_⟩
  decide

end Armv8Driver.IrqDemo
