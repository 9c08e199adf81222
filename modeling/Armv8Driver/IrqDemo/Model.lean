import Armv8Driver.Kernel.Format
import Armv8Driver.Kernel.Primitives
import Armv8Driver.Transition.System
import Armv8Driver.Transition.Threads

/-!
# `irq_demo.c` as a transition system

One step is one access to the shared variables by the module's own thread (`irq_demo_init`, then
`irq_demo_exit`), by the timer callback, the interrupt handlers, the work item or a `/proc` handler, or
one event of the timer, the interrupt line or the workqueue. A run starts before `irq_demo_init`. A
call of a handler is a slot that is used once, so the number of slots is the number of calls. The hard
handler never runs concurrently with itself, nor does the work item, but a rising edge may run the hard
handler while the threaded one sleeps.
-/

namespace Armv8Driver.IrqDemo

open Kernel Transition

/-- `longBits` is the width of `unsigned long`. -/
structure Config where
  irq_num : Int
  longBits : Nat
  reads : Nat
  writes : Nat

variable {c : Config}

/-- Those who take `irq_lock`. -/
inductive Thread (c : Config) where
  | timer
  | isr
  | reader (i : Fin c.reads)
  | writer (i : Fin c.writes)
  deriving DecidableEq

/-- Where `do_hard_isr_work` is. -/
inductive TopHalf where
  | lock | load | store (count : Nat) | unlock
  deriving DecidableEq

/-- Where `do_bottom_half_work` is. -/
inductive BottomHalf where
  | sleep | complete
  deriving DecidableEq

/-- Where `fallback_timer_fn` is. `restart` is its return, which arms the timer again. -/
inductive TimerPc where
  | idle | top (h : TopHalf) | schedule | restart
  deriving DecidableEq

/-- Where a call of `irq_demo_read` is. -/
inductive ReadPc where
  | notCalled
  | waiting (off : Nat)
  | lock (off : Nat) | load (off : Nat) | unlock (off : Nat) (count : Nat)
  | copy (off : Nat) (count : Nat)
  | returned (ret : Int) (off : Nat)
  deriving DecidableEq

/-- Where a call of `irq_demo_trigger_write` is. -/
inductive WritePc where
  | notCalled
  | top (len : Nat) (h : TopHalf)
  | schedule (len : Nat)
  | returned (ret : Int)
  deriving DecidableEq

/-- Where the two `remove_proc_entry` calls are: each unlinks its entry and waits for the handlers. -/
inductive RemovePc where
  | entry | drainEntry | trigger | drainTrigger
  deriving DecidableEq

/-- Where the module's own thread is. `removing (some ret)` is the error path of `irq_demo_init`, and
`removing none` the end of `irq_demo_exit`. -/
inductive ModulePc where
  | setup | procCreate | procCreateTrigger | mode | requestIrq | startTimer
  | loaded
  | freeIrq | syncIrq | cancelTimer
  | cancelWork | flushWork
  | removing (error : Option Int) (r : RemovePc)
  | failed (ret : Int)
  | returned
  deriving DecidableEq

/-- The variables that the handlers share. `queued` says whether `fallback_bottom_half` is on the
workqueue. -/
structure Shared (c : Config) where
  irq_lock : Spinlock (Thread c)
  event_count : Nat
  event_done : Completion
  queued : Bool

/-- `worker`, `isr` and `thread` are the work item, the hard and the threaded interrupt handler while
they run; `woken` says that the hard handler has asked for the threaded one. -/
structure State (c : Config) where
  shared : Shared c
  using_fallback : Bool
  armed : Bool
  timer : TimerPc
  registered : Bool
  isr : Option TopHalf
  woken : Bool
  thread : Option BottomHalf
  worker : Option BottomHalf
  entry : Bool
  trigger : Bool
  reads : Fin c.reads → ReadPc
  writes : Fin c.writes → WritePc
  pc : ModulePc

inductive ReadStep where
  | call (off len : Nat)
  | wait
  /-- The wait times out or ends with a signal. -/
  | waitFails
  | step
  | copy (fault : Bool)
  deriving DecidableEq

inductive WriteStep where
  | call (len : Nat)
  | step
  deriving DecidableEq

/-- `module ret` carries what the kernel function of that step returns: `proc_create` makes its entry
and `request_threaded_irq` succeeds if it is zero. -/
inductive Action (c : Config) where
  | module (ret : Int)
  | timerFires | timer
  | irqFires | isr | thread
  | worker
  | read (i : Fin c.reads) (a : ReadStep)
  | write (i : Fin c.writes) (a : WriteStep)
  deriving DecidableEq

/-- One step of the top half; `none` in place of the program counter is its return. -/
def do_hard_isr_work (t : Thread c) (m : Shared c) : TopHalf → Option (Shared c × Option TopHalf)
  | .lock => do
    let l ← m.irq_lock.spin_lock_irqsave t
    some ({ m with irq_lock := l }, some .load)
  | .load => some (m, some (.store ((m.event_count + 1) % 2 ^ c.longBits)))
  | .store count => some ({ m with event_count := count }, some .unlock)
  | .unlock => some ({ m with irq_lock := m.irq_lock.spin_unlock_irqrestore }, none)

def do_bottom_half_work (m : Shared c) : BottomHalf → Shared c × Option BottomHalf
  | .sleep => (m, some .complete)
  | .complete => ({ m with event_done := m.event_done.complete }, none)

def schedule_work (m : Shared c) : Shared c := { m with queued := true }

/-- The callback, and the timer that it returns to. -/
def fallback_timer_fn (m : Shared c) (armed : Bool) : TimerPc → Option (Shared c × Bool × TimerPc)
  | .idle => none
  | .top h => do
    let (m, h) ← do_hard_isr_work .timer m h
    some (m, armed, match h with | some h => .top h | none => .schedule)
  | .schedule => some (schedule_work m, armed, .restart)
  | .restart => some (m, true, .idle)

/-- The work item: a worker takes it off the queue and runs `fallback_workqueue_fn`. -/
def fallback_workqueue_fn (m : Shared c) : Option BottomHalf → Option (Shared c × Option BottomHalf)
  | none => if m.queued then some ({ m with queued := false }, some .sleep) else none
  | some b => some (do_bottom_half_work m b)

def msg (count : Nat) (fallback : Bool) : List Char :=
  scnprintf 96 ("events=".toList ++ (Nat.repr count).toList ++ " mode=".toList ++
    (if fallback then "hrtimer-fallback" else "real-irq").toList ++ "\n".toList)

/-- One step of a call of `irq_demo_read`; `entry` says whether its `/proc` entry exists. The handler
does not look at `len`. -/
def irq_demo_read (entry fallback : Bool) (i : Fin c.reads) (m : Shared c) (pc : ReadPc) (a : ReadStep) :
    Option (Shared c × ReadPc) :=
  match pc, a with
  | .notCalled, .call off _ => if entry then some (m, if off > 0 then .returned 0 off else .waiting off) else none
  | .waiting off, .wait => do
    let done ← m.event_done.wait_for_completion
    some ({ m with event_done := done }, .lock off)
  | .waiting off, .waitFails => some (m, .returned (-ETIMEDOUT) off)
  | .lock off, .step => do
    let l ← m.irq_lock.spin_lock_irqsave (.reader i)
    some ({ m with irq_lock := l }, .load off)
  | .load off, .step => some (m, .unlock off m.event_count)
  | .unlock off count, .step => some ({ m with irq_lock := m.irq_lock.spin_unlock_irqrestore }, .copy off count)
  | .copy off count, .copy fault =>
    let n := (msg count fallback).length
    some (m, if fault then .returned (-EFAULT) off else .returned n (off + n))
  | _, _ => none

/-- One step of a call of `irq_demo_trigger_write`. -/
def irq_demo_trigger_write (entry : Bool) (i : Fin c.writes) (m : Shared c) (pc : WritePc) (a : WriteStep) :
    Option (Shared c × WritePc) :=
  match pc, a with
  | .notCalled, .call len => if entry then some (m, .top len .lock) else none
  | .top len h, .step => do
    let (m, h) ← do_hard_isr_work (.writer i) m h
    some (m, match h with | some h => .top len h | none => .schedule len)
  | .schedule len, .step => some (schedule_work m, .returned len)
  | _, _ => none

def ReadPc.inFlight : ReadPc → Bool
  | .notCalled | .returned .. => false
  | _ => true

def WritePc.inFlight : WritePc → Bool
  | .notCalled | .returned _ => false
  | _ => true

/-- The two calls of `remove_proc_entry` that end the module. -/
def remove_proc_entries (s : State c) (error : Option Int) : RemovePc → Option (State c)
  | .entry => some { s with entry := false, pc := .removing error .drainEntry }
  | .drainEntry =>
    if ∀ i, (s.reads i).inFlight = false then some { s with pc := .removing error .trigger } else none
  | .trigger => some { s with trigger := false, pc := .removing error .drainTrigger }
  | .drainTrigger =>
    if ∀ i, (s.writes i).inFlight = false then
      some { s with pc := match error with | some ret => .failed ret | none => .returned }
    else none

def irq_demo_init (s : State c) (ret : Int) : Option (State c) :=
  match s.pc with
  | .setup =>
    let m := { s.shared with event_done := .init_completion, queued := false }
    some { s with shared := m, pc := .procCreate }
  | .procCreate => some { s with entry := ret = 0, pc := .procCreateTrigger }
  | .procCreateTrigger => some { s with trigger := ret = 0, pc := .mode }
  | .mode =>
    if 0 ≤ c.irq_num then some { s with using_fallback := false, pc := .requestIrq }
    else some { s with using_fallback := true, pc := .startTimer }
  | .requestIrq =>
    if ret = 0 then some { s with registered := true, pc := .loaded }
    else some { s with pc := .removing (some ret) .entry }
  | .startTimer => some { s with armed := true, pc := .loaded }
  | .removing (some ret) r => remove_proc_entries s (some ret) r
  | _ => none

def irq_demo_exit (s : State c) : Option (State c) :=
  match s.pc with
  | .loaded => some { s with pc := if s.using_fallback then .cancelTimer else .freeIrq }
  | .freeIrq => some { s with registered := false, pc := .syncIrq }
  | .syncIrq => if s.isr = none ∧ s.woken = false ∧ s.thread = none then some { s with pc := .cancelWork } else none
  | .cancelTimer => if s.timer = .idle then some { s with armed := false, pc := .cancelWork } else none
  | .cancelWork => some { s with shared := { s.shared with queued := false }, pc := .flushWork }
  | .flushWork => if s.worker = none then some { s with pc := .removing none .entry } else none
  | .removing none r => remove_proc_entries s none r
  | _ => none

def State.stepTimer (s : State c) : Option (State c) := do
  let (m, armed, pc) ← fallback_timer_fn s.shared s.armed s.timer
  some { s with shared := m, armed := armed, timer := pc }

/-- One step of `hard_isr`, which returns `IRQ_WAKE_THREAD`. -/
def State.hard_isr (s : State c) : Option (State c) := do
  let h ← s.isr
  let (m, h) ← do_hard_isr_work .isr s.shared h
  some { s with shared := m, isr := h, woken := s.woken || h.isNone }

/-- The interrupt thread: it waits to be woken and runs `threaded_isr`. -/
def State.threaded_isr (s : State c) : Option (State c) :=
  match s.thread with
  | none => if s.woken then some { s with woken := false, thread := some .sleep } else none
  | some b =>
    let (m, b) := do_bottom_half_work s.shared b
    some { s with shared := m, thread := b }

def State.stepWorker (s : State c) : Option (State c) := do
  let (m, b) ← fallback_workqueue_fn s.shared s.worker
  some { s with shared := m, worker := b }

def State.stepRead (s : State c) (i : Fin c.reads) (a : ReadStep) : Option (State c) := do
  let (m, pc) ← irq_demo_read s.entry s.using_fallback i s.shared (s.reads i) a
  some { s with shared := m, reads := Function.update s.reads i pc }

def State.stepWrite (s : State c) (i : Fin c.writes) (a : WriteStep) : Option (State c) := do
  let (m, pc) ← irq_demo_trigger_write s.trigger i s.shared (s.writes i) a
  some { s with shared := m, writes := Function.update s.writes i pc }

def step (s : State c) : Action c → Option (State c)
  | .module ret => (irq_demo_init s ret).or (irq_demo_exit s)
  | .timerFires =>
    if s.armed = true ∧ s.timer = .idle then some { s with armed := false, timer := .top .lock } else none
  | .timer => s.stepTimer
  | .irqFires => if s.registered = true ∧ s.isr = none then some { s with isr := some .lock } else none
  | .isr => s.hard_isr
  | .thread => s.threaded_isr
  | .worker => s.stepWorker
  | .read i a => s.stepRead i a
  | .write i a => s.stepWrite i a

/-- The module's variables before `irq_demo_init`. -/
def initial (c : Config) : State c where
  shared := ⟨.mutex_init, 0, .init_completion, false⟩
  using_fallback := false
  armed := false
  timer := .idle
  registered := false
  isr := none
  woken := false
  thread := none
  worker := none
  entry := false
  trigger := false
  reads := fun _ => .notCalled
  writes := fun _ => .notCalled
  pc := .setup

def system (c : Config) : System (State c) (Action c) where
  init s := s = initial c
  step := step

variable {s t : State c}

/-- The steps of a call of `irq_demo_read`. -/
inductive ReadMove (entry fallback : Bool) (i : Fin c.reads) (m : Shared c) :
    ReadPc → ReadStep → Shared c → ReadPc → Prop where
  | atEnd {off len : Nat} (hentry : entry = true) (hoff : off > 0) :
    ReadMove entry fallback i m .notCalled (.call off len) m (.returned 0 off)
  | call {off len : Nat} (hentry : entry = true) (hoff : ¬ off > 0) :
    ReadMove entry fallback i m .notCalled (.call off len) m (.waiting off)
  | wait {off : Nat} {done : Completion} (hdone : m.event_done.wait_for_completion = some done) :
    ReadMove entry fallback i m (.waiting off) .wait { m with event_done := done } (.lock off)
  | waitFails {off : Nat} : ReadMove entry fallback i m (.waiting off) .waitFails m (.returned (-ETIMEDOUT) off)
  | lock {off : Nat} {l : Spinlock (Thread c)} (hl : m.irq_lock.spin_lock_irqsave (.reader i) = some l) :
    ReadMove entry fallback i m (.lock off) .step { m with irq_lock := l } (.load off)
  | load {off : Nat} : ReadMove entry fallback i m (.load off) .step m (.unlock off m.event_count)
  | unlock {off count : Nat} : ReadMove entry fallback i m (.unlock off count) .step
      { m with irq_lock := m.irq_lock.spin_unlock_irqrestore } (.copy off count)
  | fault {off count : Nat} : ReadMove entry fallback i m (.copy off count) (.copy true) m (.returned (-EFAULT) off)
  | copy {off count : Nat} : ReadMove entry fallback i m (.copy off count) (.copy false) m
      (.returned (msg count fallback).length (off + (msg count fallback).length))

/-- The steps of a call of `irq_demo_trigger_write`. -/
inductive WriteMove (entry : Bool) (i : Fin c.writes) (m : Shared c) : WritePc → WriteStep → Shared c → WritePc → Prop where
  | call {len : Nat} (hentry : entry = true) : WriteMove entry i m .notCalled (.call len) m (.top len .lock)
  | top {len : Nat} {b b' : TopHalf} {m' : Shared c} (hwork : do_hard_isr_work (.writer i) m b = some (m', some b')) :
    WriteMove entry i m (.top len b) .step m' (.top len b')
  | last {len : Nat} {b : TopHalf} {m' : Shared c} (hwork : do_hard_isr_work (.writer i) m b = some (m', none)) :
    WriteMove entry i m (.top len b) .step m' (.schedule len)
  | schedule {len : Nat} : WriteMove entry i m (.schedule len) .step (schedule_work m) (.returned len)

theorem irq_demo_read_move {entry fallback : Bool} {i : Fin c.reads} {m m' : Shared c} {pc pc' : ReadPc} {a : ReadStep}
    (h : irq_demo_read entry fallback i m pc a = some (m', pc')) : ReadMove entry fallback i m pc a m' pc' := by
  unfold irq_demo_read at h
  split at h
  case h_1 off len =>
    obtain ⟨hentry, hs⟩ := Option.ite_none_right_eq_some.mp h
    cases hs
    split_ifs with hoff
    · exact .atEnd hentry hoff
    · exact .call hentry hoff
  case h_2 =>
    obtain ⟨done, hdone, hs⟩ := Option.bind_eq_some_iff.mp h
    cases hs
    exact .wait hdone
  case h_3 =>
    cases h
    exact .waitFails
  case h_4 =>
    obtain ⟨l, hl, hs⟩ := Option.bind_eq_some_iff.mp h
    cases hs
    exact .lock hl
  case h_5 =>
    cases h
    exact .load
  case h_6 =>
    cases h
    exact .unlock
  case h_7 off count fault =>
    cases h
    cases fault with
    | true => exact .fault
    | false => exact .copy
  case h_8 => cases h

theorem irq_demo_trigger_write_move {entry : Bool} {i : Fin c.writes} {m m' : Shared c} {pc pc' : WritePc} {a : WriteStep}
    (h : irq_demo_trigger_write entry i m pc a = some (m', pc')) : WriteMove entry i m pc a m' pc' := by
  unfold irq_demo_trigger_write at h
  split at h
  case h_1 =>
    obtain ⟨hentry, hs⟩ := Option.ite_none_right_eq_some.mp h
    cases hs
    exact .call hentry
  case h_2 =>
    obtain ⟨⟨m₁, b₁⟩, hwork, hs⟩ := Option.bind_eq_some_iff.mp h
    cases hs
    cases b₁ with
    | some b' => exact .top hwork
    | none => exact .last hwork
  case h_3 =>
    cases h
    exact .schedule
  case h_4 => cases h

theorem remove_proc_entries_frame {error : Option Int} {r : RemovePc} (h : remove_proc_entries s error r = some t) :
    t = { s with entry := t.entry, trigger := t.trigger, pc := t.pc } := by
  cases r with
  | drainEntry =>
    obtain ⟨-, hs⟩ := Option.ite_none_right_eq_some.mp h
    cases hs
    rfl
  | drainTrigger =>
    obtain ⟨-, hs⟩ := Option.ite_none_right_eq_some.mp h
    cases hs
    rfl
  | _ =>
    cases h
    rfl

/-- The steps of the module's own thread, first those of `irq_demo_init`. -/
inductive ModuleMove (s : State c) (ret : Int) : State c → Prop where
  | setup (hpc : s.pc = .setup) : ModuleMove s ret
      { s with shared := { s.shared with event_done := .init_completion, queued := false }, pc := .procCreate }
  | procCreate (hpc : s.pc = .procCreate) : ModuleMove s ret { s with entry := ret = 0, pc := .procCreateTrigger }
  | procCreateTrigger (hpc : s.pc = .procCreateTrigger) : ModuleMove s ret { s with trigger := ret = 0, pc := .mode }
  | realIrq (hirq : 0 ≤ c.irq_num) (hpc : s.pc = .mode) :
    ModuleMove s ret { s with using_fallback := false, pc := .requestIrq }
  | fallback (hirq : ¬ 0 ≤ c.irq_num) (hpc : s.pc = .mode) :
    ModuleMove s ret { s with using_fallback := true, pc := .startTimer }
  | requestIrq (hret : ret = 0) (hpc : s.pc = .requestIrq) : ModuleMove s ret { s with registered := true, pc := .loaded }
  | requestFails (hret : ret ≠ 0) (hpc : s.pc = .requestIrq) : ModuleMove s ret { s with pc := .removing (some ret) .entry }
  | startTimer (hpc : s.pc = .startTimer) : ModuleMove s ret { s with armed := true, pc := .loaded }
  | removing {error : Option Int} {r : RemovePc} {t : State c} (hpc : s.pc = .removing error r)
    (hremove : remove_proc_entries s error r = some t) : ModuleMove s ret t
  | exitFallback (hmode : s.using_fallback = true) (hpc : s.pc = .loaded) : ModuleMove s ret { s with pc := .cancelTimer }
  | exitIrq (hmode : s.using_fallback = false) (hpc : s.pc = .loaded) : ModuleMove s ret { s with pc := .freeIrq }
  | freeIrq (hpc : s.pc = .freeIrq) : ModuleMove s ret { s with registered := false, pc := .syncIrq }
  | syncIrq (hidle : s.isr = none ∧ s.woken = false ∧ s.thread = none) (hpc : s.pc = .syncIrq) :
    ModuleMove s ret { s with pc := .cancelWork }
  | cancelTimer (hidle : s.timer = .idle) (hpc : s.pc = .cancelTimer) :
    ModuleMove s ret { s with armed := false, pc := .cancelWork }
  | cancelWork (hpc : s.pc = .cancelWork) :
    ModuleMove s ret { s with shared := { s.shared with queued := false }, pc := .flushWork }
  | flushWork (hidle : s.worker = none) (hpc : s.pc = .flushWork) : ModuleMove s ret { s with pc := .removing none .entry }

theorem irq_demo_init_move {ret : Int} (h : irq_demo_init s ret = some t) : ModuleMove s ret t := by
  unfold irq_demo_init at h
  split at h
  case h_1 hpc =>
    cases h
    exact .setup hpc
  case h_2 hpc =>
    cases h
    exact .procCreate hpc
  case h_3 hpc =>
    cases h
    exact .procCreateTrigger hpc
  case h_4 hpc =>
    split_ifs at h with hirq
    · cases h
      exact .realIrq hirq hpc
    · cases h
      exact .fallback hirq hpc
  case h_5 hpc =>
    split_ifs at h with hret
    · cases h
      exact .requestIrq hret hpc
    · cases h
      exact .requestFails hret hpc
  case h_6 hpc =>
    cases h
    exact .startTimer hpc
  case h_7 hpc => exact .removing hpc h
  case h_8 => cases h

theorem irq_demo_exit_move {ret : Int} (h : irq_demo_exit s = some t) : ModuleMove s ret t := by
  unfold irq_demo_exit at h
  split at h
  case h_1 hpc =>
    cases h
    by_cases hmode : s.using_fallback = true
    · rw [if_pos hmode]
      exact .exitFallback hmode hpc
    · rw [if_neg hmode]
      exact .exitIrq ((Bool.not_eq_true _).mp hmode) hpc
  case h_2 hpc =>
    cases h
    exact .freeIrq hpc
  case h_3 hpc =>
    obtain ⟨hidle, hs⟩ := Option.ite_none_right_eq_some.mp h
    cases hs
    exact .syncIrq hidle hpc
  case h_4 hpc =>
    obtain ⟨hidle, hs⟩ := Option.ite_none_right_eq_some.mp h
    cases hs
    exact .cancelTimer hidle hpc
  case h_5 hpc =>
    cases h
    exact .cancelWork hpc
  case h_6 hpc =>
    obtain ⟨hidle, hs⟩ := Option.ite_none_right_eq_some.mp h
    cases hs
    exact .flushWork hidle hpc
  case h_7 hpc => exact .removing hpc h
  case h_8 => cases h

theorem module_move {ret : Int} (h : step s (.module ret) = some t) : ModuleMove s ret t := by
  rcases Option.or_eq_some_iff.mp h with hinit | ⟨-, hexit⟩
  · exact irq_demo_init_move hinit
  · exact irq_demo_exit_move hexit

/-- The module's own thread moves no handler and does not take the lock. -/
theorem module_frame {ret : Int} (h : step s (.module ret) = some t) :
    t = { s with
      shared := { s.shared with event_done := t.shared.event_done, queued := t.shared.queued }
      using_fallback := t.using_fallback, armed := t.armed, registered := t.registered
      entry := t.entry, trigger := t.trigger, pc := t.pc } := by
  cases module_move h with
  | removing _ hremove => rw [remove_proc_entries_frame hremove]
  | _ => rfl

theorem do_bottom_half_work_frame {m : Shared c} {b : BottomHalf} :
    (do_bottom_half_work m b).1 = { m with event_done := (do_bottom_half_work m b).1.event_done } := by
  cases b <;> rfl

/-- A step of the callback needs a callback that runs. -/
theorem fallback_timer_fn_alive {m : Shared c} {armed : Bool} {pc : TimerPc} {x : Shared c × Bool × TimerPc}
    (h : fallback_timer_fn m armed pc = some x) : pc ≠ .idle := by
  rintro rfl
  cases h

/-- A step of the interrupt thread needs a thread that runs or has been woken. -/
theorem threaded_isr_spec (h : s.threaded_isr = some t) :
    (s.woken = true ∨ s.thread ≠ none) ∧
      t = { s with
        shared := { s.shared with event_done := t.shared.event_done }
        woken := t.woken, thread := t.thread } := by
  unfold State.threaded_isr at h
  split at h
  case h_1 =>
    obtain ⟨hwoken, hs⟩ := Option.ite_none_right_eq_some.mp h
    cases hs
    exact ⟨.inl hwoken, rfl⟩
  case h_2 b hthread =>
    have hframe := @do_bottom_half_work_frame c s.shared b
    cases h
    refine ⟨.inr (by rw [hthread]; exact nofun), ?_⟩
    exact congrArg (fun m => { s with shared := m, thread := (do_bottom_half_work s.shared b).2 }) hframe

end Armv8Driver.IrqDemo
