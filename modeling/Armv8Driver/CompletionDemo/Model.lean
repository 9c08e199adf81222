import Armv8Driver.Kernel.Primitives
import Armv8Driver.Transition.System
import Armv8Driver.Transition.Threads

/-!
# `completion_demo.c` as a transition system

One step is one statement of a thread of the module or of a `/proc` handler. The states start where
`completion_demo_init` has created the two entries and the threads, none of which has run yet. A call
of `status_read` or `release_write` is a slot that is used once, so the number of slots is the number
of calls; `NUM_WAITERS` is a parameter.
-/

namespace Armv8Driver.CompletionDemo

open Kernel Transition

structure Config where
  numWaiters : Nat
  reads : Nat
  writes : Nat

/-- Where `worker_fn` is: `signal` is about to `complete(&init_done)`. -/
inductive WorkerPc where
  | slowInit | signal | shouldStop | sleep | returned
  deriving DecidableEq

/-- Where a `waiter_fn` is: `gate` is in `wait_for_completion(&release_gate)`. -/
inductive WaiterPc where
  | gate | shouldStop | sleep | returned
  deriving DecidableEq

/-- Where a call of `status_read` is. `waiting` is in `wait_for_completion(&init_done)`. -/
inductive ReadPc where
  | notCalled
  | waiting (off : Nat)
  | woken (off : Nat)
  | returned (ret : Int) (off : Nat)
  deriving DecidableEq

/-- Where a call of `release_write` is. -/
inductive WritePc where
  | notCalled
  | entered (len : Nat)
  | returned (ret : Int)
  deriving DecidableEq

/-- Where `completion_demo_exit` is. `drainStatus` and `drainRelease` are inside the two
`remove_proc_entry` calls, which wait for the handlers of their entry. -/
inductive ExitPc where
  | notStarted
  | stopWorker | joinWorker
  | stopWaiter (i : Nat) | joinWaiter (i : Nat)
  | drainStatus | drainRelease
  | returned
  deriving DecidableEq

structure State (c : Config) where
  init_done : Completion
  release_gate : Completion
  worker : WorkerPc
  workerStop : Bool
  waiters : Fin c.numWaiters → WaiterPc
  waiterStop : Fin c.numWaiters → Bool
  reads : Fin c.reads → ReadPc
  writes : Fin c.writes → WritePc
  exit : ExitPc

inductive ReadStep where
  | call (off : Nat)
  | wait
  | copy (fault : Bool)
  deriving DecidableEq

inductive WriteStep where
  | call (len : Nat)
  | release
  deriving DecidableEq

inductive Action (c : Config) where
  | worker
  | waiter (i : Fin c.numWaiters)
  | read (i : Fin c.reads) (a : ReadStep)
  | write (i : Fin c.writes) (a : WriteStep)
  | exit
  deriving DecidableEq

def status_msg : String := "device ready\n"

/-- The entry `/proc/completion_demo` exists until `remove_proc_entry` has unlinked it. -/
def ExitPc.statusEntry : ExitPc → Bool
  | .drainStatus | .drainRelease | .returned => false
  | _ => true

/-- The entry `/proc/completion_demo_release` exists until `remove_proc_entry` has unlinked it. -/
def ExitPc.releaseEntry : ExitPc → Bool
  | .drainRelease | .returned => false
  | _ => true

def ReadPc.inFlight : ReadPc → Bool
  | .waiting _ | .woken _ => true
  | _ => false

def WritePc.inFlight : WritePc → Bool
  | .entered _ => true
  | _ => false

variable {c : Config}

def worker_fn (s : State c) : Option (State c) :=
  match s.worker with
  | .slowInit => some { s with worker := .signal }
  | .signal => some { s with worker := .shouldStop, init_done := s.init_done.complete }
  | .shouldStop => some { s with worker := if s.workerStop then .returned else .sleep }
  | .sleep => some { s with worker := .shouldStop }
  | .returned => none

def waiter_fn (s : State c) (i : Fin c.numWaiters) : Option (State c) :=
  match s.waiters i with
  | .gate => do
    let gate ← s.release_gate.wait_for_completion
    some { s with release_gate := gate, waiters := Function.update s.waiters i .shouldStop }
  | .shouldStop =>
    some { s with waiters := Function.update s.waiters i (if s.waiterStop i then .returned else .sleep) }
  | .sleep => some { s with waiters := Function.update s.waiters i .shouldStop }
  | .returned => none

def status_read (s : State c) (i : Fin c.reads) (a : ReadStep) : Option (State c) :=
  match s.reads i, a with
  | .notCalled, .call off =>
    if s.exit.statusEntry then
      some { s with reads := Function.update s.reads i (if off > 0 then .returned 0 off else .waiting off) }
    else none
  | .waiting off, .wait => do
    let done ← s.init_done.wait_for_completion
    some { s with init_done := done, reads := Function.update s.reads i (.woken off) }
  | .woken off, .copy fault =>
    let n := status_msg.length
    let pc := if fault then .returned (-EFAULT) off else .returned n (off + n)
    some { s with reads := Function.update s.reads i pc }
  | _, _ => none

def release_write (s : State c) (i : Fin c.writes) (a : WriteStep) : Option (State c) :=
  match s.writes i, a with
  | .notCalled, .call len =>
    if s.exit.releaseEntry then some { s with writes := Function.update s.writes i (.entered len) } else none
  | .entered len, .release =>
    let gate := s.release_gate.complete_all
    some { s with release_gate := gate, writes := Function.update s.writes i (.returned len) }
  | _, _ => none

def completion_demo_exit (s : State c) : Option (State c) :=
  match s.exit with
  | .notStarted => some { s with exit := .stopWorker }
  | .stopWorker => some { s with exit := .joinWorker, workerStop := true }
  | .joinWorker => if s.worker = .returned then some { s with exit := .stopWaiter 0 } else none
  | .stopWaiter i =>
    if h : i < c.numWaiters then
      some { s with exit := .joinWaiter i, waiterStop := Function.update s.waiterStop ⟨i, h⟩ true }
    else some { s with exit := .drainStatus }
  | .joinWaiter i =>
    if h : i < c.numWaiters then
      if s.waiters ⟨i, h⟩ = .returned then some { s with exit := .stopWaiter (i + 1) } else none
    else none
  | .drainStatus =>
    if ∀ i, (s.reads i).inFlight = false then some { s with exit := .drainRelease } else none
  | .drainRelease =>
    if ∀ i, (s.writes i).inFlight = false then some { s with exit := .returned } else none
  | .returned => none

def step (s : State c) : Action c → Option (State c)
  | .worker => worker_fn s
  | .waiter i => waiter_fn s i
  | .read i a => status_read s i a
  | .write i a => release_write s i a
  | .exit => completion_demo_exit s

def initial (c : Config) : State c where
  init_done := .init_completion
  release_gate := .init_completion
  worker := .slowInit
  workerStop := false
  waiters := fun _ => .gate
  waiterStop := fun _ => false
  reads := fun _ => .notCalled
  writes := fun _ => .notCalled
  exit := .notStarted

def system (c : Config) : System (State c) (Action c) where
  init s := s = initial c
  step := step

variable {s t : State c}

/-- The exit path touches the stop flags of the threads and nothing else. -/
theorem completion_demo_exit_frame (h : completion_demo_exit s = some t) :
    t = { s with exit := t.exit, workerStop := t.workerStop, waiterStop := t.waiterStop } := by
  unfold completion_demo_exit at h
  split at h
  all_goals (try split_ifs at h) <;> cases h <;> rfl

theorem worker_fn_frame (h : worker_fn s = some t) : t = { s with init_done := t.init_done, worker := t.worker } := by
  unfold worker_fn at h
  split at h
  all_goals
    cases h
    try rfl

/-- The steps of a call of `status_read`, and what each leaves of the completion. -/
inductive ReadMove (entry : Bool) (init_done : Completion) : ReadPc → ReadStep → Completion → ReadPc → Prop where
  | atEnd {off : Nat} (hentry : entry = true) (hoff : off > 0) :
    ReadMove entry init_done .notCalled (.call off) init_done (.returned 0 off)
  | call {off : Nat} (hentry : entry = true) (hoff : ¬ off > 0) :
    ReadMove entry init_done .notCalled (.call off) init_done (.waiting off)
  | wait {off : Nat} {done : Completion} (hdone : init_done.wait_for_completion = some done) :
    ReadMove entry init_done (.waiting off) .wait done (.woken off)
  | fault {off : Nat} : ReadMove entry init_done (.woken off) (.copy true) init_done (.returned (-EFAULT) off)
  | copy {off : Nat} : ReadMove entry init_done (.woken off) (.copy false) init_done
      (.returned status_msg.length (off + status_msg.length))

theorem status_read_move {i : Fin c.reads} {a : ReadStep} (h : status_read s i a = some t) :
    ∃ done pc, ReadMove s.exit.statusEntry s.init_done (s.reads i) a done pc ∧
      t = { s with init_done := done, reads := Function.update s.reads i pc } := by
  unfold status_read at h
  split at h
  case h_1 off hpc =>
    obtain ⟨hentry, hs⟩ := Option.ite_none_right_eq_some.mp h
    cases hs
    rw [hpc]
    refine ⟨_, _, ?_, rfl⟩
    split_ifs with hoff
    · exact .atEnd hentry hoff
    · exact .call hentry hoff
  case h_2 off hpc =>
    obtain ⟨done, hdone, hs⟩ := Option.bind_eq_some_iff.mp h
    cases hs
    rw [hpc]
    exact ⟨_, _, .wait hdone, rfl⟩
  case h_3 off fault hpc =>
    cases h
    rw [hpc]
    refine ⟨_, _, ?_, rfl⟩
    cases fault with
    | true => exact .fault
    | false => exact .copy
  case h_4 => cases h

theorem status_read_frame {i : Fin c.reads} {a : ReadStep} (h : status_read s i a = some t) :
    t = { s with init_done := t.init_done, reads := t.reads } := by
  obtain ⟨done, pc, -, rfl⟩ := status_read_move h
  rfl

theorem waiter_fn_frame {i : Fin c.numWaiters} (h : waiter_fn s i = some t) :
    t = { s with release_gate := t.release_gate, waiters := t.waiters } := by
  unfold waiter_fn at h
  split at h
  · obtain ⟨gate, -, hs⟩ := Option.bind_eq_some_iff.mp h
    cases hs
    rfl
  all_goals
    cases h
    try rfl

theorem release_write_frame {i : Fin c.writes} {a : WriteStep} (h : release_write s i a = some t) :
    t = { s with release_gate := t.release_gate, writes := t.writes } := by
  unfold release_write at h
  split at h
  all_goals
    try split_ifs at h
    all_goals
      cases h
      try rfl

end Armv8Driver.CompletionDemo
