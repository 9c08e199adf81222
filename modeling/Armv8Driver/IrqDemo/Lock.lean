import Armv8Driver.IrqDemo.Model

/-!
# The spinlock of `irq_demo`

`irq_lock` is held by the thread that is between its `spin_lock_irqsave` and its
`spin_unlock_irqrestore`, in every reachable state. So the top halves update `event_count` one after
another, and the holder of the lock is never the one that spins.
-/

namespace Armv8Driver.IrqDemo

open Kernel Transition

variable {c : Config} {s t : State c} {m m' : Shared c}

def TopHalf.critical : TopHalf → Bool
  | .lock => false
  | .load | .store _ | .unlock => true

def TimerPc.critical : TimerPc → Bool
  | .top h => h.critical
  | _ => false

def ReadPc.critical : ReadPc → Bool
  | .load _ | .unlock .. => true
  | _ => false

def WritePc.critical : WritePc → Bool
  | .top _ h => h.critical
  | _ => false

/-- The thread is inside a critical section. -/
def State.critical (s : State c) : Thread c → Bool
  | .timer => s.timer.critical
  | .isr => s.isr.any TopHalf.critical
  | .reader i => (s.reads i).critical
  | .writer i => (s.writes i).critical

theorem do_hard_isr_work_lock {th : Thread c} {pc : TopHalf} {pc' : Option TopHalf}
    (h : do_hard_isr_work th m pc = some (m', pc')) :
    Mutex.Moves th m.irq_lock m'.irq_lock pc.critical (pc'.any TopHalf.critical) := by
  cases pc with
  | lock =>
    obtain ⟨l, hl, hs⟩ := Option.bind_eq_some_iff.mp h
    cases hs
    have hown := Mutex.mutex_lock_eq_some.mp hl
    exact .inr (.inl ⟨hown.1, hown.2, rfl⟩)
  | unlock =>
    cases h
    exact .inr (.inr ⟨rfl, rfl, rfl⟩)
  | _ =>
    cases h
    exact .inl ⟨rfl, rfl⟩

theorem do_bottom_half_work_lock {b : BottomHalf} : (do_bottom_half_work m b).1.irq_lock = m.irq_lock := by
  rw [do_bottom_half_work_frame]

theorem fallback_timer_fn_lock {armed armed' : Bool} {pc pc' : TimerPc}
    (h : fallback_timer_fn m armed pc = some (m', armed', pc')) :
    Mutex.Moves .timer m.irq_lock m'.irq_lock pc.critical pc'.critical := by
  cases pc with
  | idle => cases h
  | top b =>
    obtain ⟨⟨m₁, b₁⟩, hwork, hs⟩ := Option.bind_eq_some_iff.mp h
    have hmoves := do_hard_isr_work_lock hwork
    cases hs
    cases b₁ <;> exact hmoves
  | _ =>
    cases h
    exact .inl ⟨rfl, rfl⟩

theorem fallback_workqueue_fn_lock {b b' : Option BottomHalf} (h : fallback_workqueue_fn m b = some (m', b')) :
    m'.irq_lock = m.irq_lock := by
  cases b with
  | none =>
    obtain ⟨-, hs⟩ := Option.ite_none_right_eq_some.mp h
    cases hs
    rfl
  | some b =>
    obtain ⟨hm, -⟩ := Prod.mk.inj (Option.some.inj h)
    rw [← hm]
    exact do_bottom_half_work_lock

theorem irq_demo_read_lock {entry fallback : Bool} {i : Fin c.reads} {pc pc' : ReadPc} {a : ReadStep}
    (h : irq_demo_read entry fallback i m pc a = some (m', pc')) :
    Mutex.Moves (.reader i) m.irq_lock m'.irq_lock pc.critical pc'.critical := by
  cases irq_demo_read_move h with
  | lock hl =>
    have hown := Mutex.mutex_lock_eq_some.mp hl
    exact .inr (.inl ⟨hown.1, hown.2, rfl⟩)
  | unlock => exact .inr (.inr ⟨rfl, rfl, rfl⟩)
  | _ => exact .inl ⟨rfl, rfl⟩

theorem irq_demo_trigger_write_lock {entry : Bool} {i : Fin c.writes} {pc pc' : WritePc} {a : WriteStep}
    (h : irq_demo_trigger_write entry i m pc a = some (m', pc')) :
    Mutex.Moves (.writer i) m.irq_lock m'.irq_lock pc.critical pc'.critical := by
  cases irq_demo_trigger_write_move h with
  | top hwork => exact do_hard_isr_work_lock hwork
  | last hwork => exact do_hard_isr_work_lock hwork
  | _ => exact .inl ⟨rfl, rfl⟩

/-- A step that leaves the lock and every critical section alone. -/
theorem held_frame (hh : s.shared.irq_lock.Held s.critical) (hlock : t.shared.irq_lock = s.shared.irq_lock)
    (hcritical : t.critical = s.critical) : t.shared.irq_lock.Held t.critical := by
  rw [hlock, hcritical]
  exact hh

theorem held_step {a : Action c} (hh : s.shared.irq_lock.Held s.critical) (h : step s a = some t) :
    t.shared.irq_lock.Held t.critical := by
  cases a with
  | module ret =>
    rw [module_frame h]
    apply held_frame hh
    · rfl
    · funext th
      cases th <;> rfl
  | timerFires =>
    obtain ⟨⟨-, hidle⟩, hs⟩ := Option.ite_none_right_eq_some.mp h
    cases hs
    apply held_frame hh
    · rfl
    · funext th
      cases th <;> simp [State.critical, hidle, TimerPc.critical, TopHalf.critical]
  | timer =>
    obtain ⟨⟨m', armed', pc'⟩, hstep, ht⟩ := Option.bind_eq_some_iff.mp h
    cases ht
    apply hh.step (t := .timer)
    · intro u hu
      cases u <;> first | rfl | exact absurd rfl hu
    · exact fallback_timer_fn_lock hstep
  | irqFires =>
    obtain ⟨⟨-, hnone⟩, hs⟩ := Option.ite_none_right_eq_some.mp h
    cases hs
    apply held_frame hh
    · rfl
    · funext th
      cases th <;> simp [State.critical, hnone, TopHalf.critical]
  | isr =>
    obtain ⟨b, hisr, hrest⟩ := Option.bind_eq_some_iff.mp h
    obtain ⟨⟨m', b'⟩, hwork, ht⟩ := Option.bind_eq_some_iff.mp hrest
    have hmoves := do_hard_isr_work_lock hwork
    cases ht
    apply hh.step (t := .isr)
    · intro u hu
      cases u <;> first | rfl | exact absurd rfl hu
    · simpa only [State.critical, hisr, Option.any_some] using hmoves
  | thread =>
    rw [(threaded_isr_spec h).2]
    apply held_frame hh
    · rfl
    · funext th
      cases th <;> rfl
  | worker =>
    obtain ⟨⟨m', b'⟩, hstep, ht⟩ := Option.bind_eq_some_iff.mp h
    have hlock := fallback_workqueue_fn_lock hstep
    cases ht
    apply held_frame hh
    · exact hlock
    · funext th
      cases th <;> rfl
  | read i a =>
    obtain ⟨⟨m', pc'⟩, hstep, ht⟩ := Option.bind_eq_some_iff.mp h
    have hmoves := irq_demo_read_lock hstep
    cases ht
    apply hh.step (t := .reader i)
    · intro u hu
      cases u with
      | reader j =>
        have hj : j ≠ i := fun heq => hu (congrArg Thread.reader heq)
        simp only [State.critical, Function.update_of_ne hj]
      | _ => rfl
    · simpa only [State.critical, Function.update_self] using hmoves
  | write i a =>
    obtain ⟨⟨m', pc'⟩, hstep, ht⟩ := Option.bind_eq_some_iff.mp h
    have hmoves := irq_demo_trigger_write_lock hstep
    cases ht
    apply hh.step (t := .writer i)
    · intro u hu
      cases u with
      | writer j =>
        have hj : j ≠ i := fun heq => hu (congrArg Thread.writer heq)
        simp only [State.critical, Function.update_of_ne hj]
      | _ => rfl
    · simpa only [State.critical, Function.update_self] using hmoves

theorem held_of_reachable (hs : (system c).Reachable s) : s.shared.irq_lock.Held s.critical := by
  apply hs.invariant
  · rintro s rfl th
    cases th <;> simp [initial, State.critical, TimerPc.critical, ReadPc.critical, WritePc.critical]
  · exact fun s a t hh h => held_step hh h

end Armv8Driver.IrqDemo
