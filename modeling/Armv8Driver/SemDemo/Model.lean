import Armv8Driver.Kernel.Primitives
import Armv8Driver.Transition.Ring
import Armv8Driver.Transition.System
import Armv8Driver.Transition.Threads

/-!
# `sem_demo.c` as a transition system

One step is one access of the producer thread or of a `/proc` handler to the shared variables. The
handlers work on `Shared`, which is everything the threads have in common, and on their own program
counter. The states start where `sem_demo_init` has created the entry and the thread. A call of a
handler is a slot that is used once, so the number of slots is the number of calls; `POOL_SIZE` is a
parameter.
-/

namespace Armv8Driver.SemDemo

open Kernel Transition

structure Config where
  poolSize : Nat
  poolSize_pos : 0 < poolSize
  writes : Nat
  reads : Nat

variable {c : Config}

/-- An `int`. -/
abbrev Word := BitVec 32

inductive Thread (c : Config) where
  | producer
  | writer (i : Fin c.writes)
  | reader (i : Fin c.reads)
  deriving DecidableEq

/-- Where `producer_fn` is. A program counter after a load carries what was loaded, and one before a
store what will be stored. -/
inductive ProducerPc (c : Config) where
  | shouldStop | downFree | lock
  | loadSlot | storeSlot (slot : Fin c.poolSize)
  | loadIdx | storeIdx (idx : Fin c.poolSize)
  | loadCount | storeCount (n : Word)
  | nextValue | unlock | upFilled | sleep | returned
  deriving DecidableEq

/-- Where a call of `demo_proc_write` is. -/
inductive WritePc (c : Config) where
  | notCalled
  | downFilled (count : Nat) | lock (count : Nat)
  | loadSlot (count : Nat) | loadBuffer (count : Nat) (slot : Fin c.poolSize)
  | loadIdx (count : Nat) | storeIdx (count : Nat) (idx : Fin c.poolSize)
  | loadCount (count : Nat) | storeCount (count : Nat) (n : Word)
  | unlock (count : Nat) | upFree (count : Nat)
  | returned (ret : Int)
  deriving DecidableEq

/-- What `demo_proc_read` prints. -/
structure Report where
  produced : Word
  consumed : Word
  free_slots : Nat
  filled_slots : Nat
  deriving DecidableEq

/-- Where a call of `demo_proc_read` is. The four arguments of `scnprintf` are read in any order. -/
inductive ReadPc where
  | notCalled | lock
  | arguments (produced consumed : Option Word) (free filled : Option Nat)
  | unlock (r : Report)
  | copy (r : Report)
  | returned (r : Option Report)
  deriving DecidableEq

/-- Where `sem_demo_exit` is. `join` is inside `kthread_stop`, which has set the flag, and `drain` inside
`proc_remove`, which has unlinked the entry. -/
inductive ExitPc where
  | notStarted | join | drain | returned
  deriving DecidableEq

/-- The variables that the threads share. `produced` and `consumed` are the values stored to and loaded
from `buffer` so far, in order. -/
structure Shared (c : Config) where
  free_slots : Semaphore
  filled_slots : Semaphore
  buf_lock : Mutex (Thread c)
  buffer : Fin c.poolSize → Word
  prod_idx : Fin c.poolSize
  cons_idx : Fin c.poolSize
  produced_count : Word
  consumed_count : Word
  produced : List Word
  consumed : List Word

/-- The producer thread: its program counter and its local `value`. -/
structure Producer (c : Config) where
  pc : ProducerPc c
  value : Word

structure State (c : Config) where
  shared : Shared c
  producer : Producer c
  should_stop : Bool
  writes : Fin c.writes → WritePc c
  reads : Fin c.reads → ReadPc
  exit : ExitPc

inductive WriteStep where
  | call (count : Nat)
  | step
  /-- The wait in `down_interruptible` ends with a signal. -/
  | interrupted
  deriving DecidableEq

inductive ReadStep where
  | call (ppos : Nat)
  | step
  | produced | consumed | free | filled
  deriving DecidableEq

inductive Action (c : Config) where
  | producer
  | producerInterrupted
  | write (i : Fin c.writes) (a : WriteStep)
  | read (i : Fin c.reads) (a : ReadStep)
  | exit
  deriving DecidableEq

/-- One step of `producer_fn`; `interrupted` is the failing return of `down_interruptible`. -/
def producer_fn (should_stop interrupted : Bool) (m : Shared c) (p : Producer c) : Option (Shared c × Producer c) :=
  match p.pc, interrupted with
  | .downFree, true => some (m, { p with pc := .returned })
  | _, true => none
  | .shouldStop, false => some (m, { p with pc := if should_stop then .returned else .downFree })
  | .downFree, false => do
    let free ← m.free_slots.down
    some ({ m with free_slots := free }, { p with pc := .lock })
  | .lock, false => do
    let l ← m.buf_lock.mutex_lock .producer
    some ({ m with buf_lock := l }, { p with pc := .loadSlot })
  | .loadSlot, false => some (m, { p with pc := .storeSlot m.prod_idx })
  | .storeSlot slot, false =>
    some ({ m with buffer := Function.update m.buffer slot p.value, produced := m.produced ++ [p.value] },
      { p with pc := .loadIdx })
  | .loadIdx, false => some (m, { p with pc := .storeIdx (Ring.next m.prod_idx) })
  | .storeIdx idx, false => some ({ m with prod_idx := idx }, { p with pc := .loadCount })
  | .loadCount, false => some (m, { p with pc := .storeCount (m.produced_count + 1) })
  | .storeCount n, false => some ({ m with produced_count := n }, { p with pc := .nextValue })
  | .nextValue, false => some (m, ⟨.unlock, p.value + 1⟩)
  | .unlock, false => some ({ m with buf_lock := m.buf_lock.mutex_unlock }, { p with pc := .upFilled })
  | .upFilled, false => some ({ m with filled_slots := m.filled_slots.up }, { p with pc := .sleep })
  | .sleep, false => some (m, { p with pc := .shouldStop })
  | .returned, false => none

/-- One step of a call of `demo_proc_write`; `entry` says whether the `/proc` entry still exists. -/
def demo_proc_write (entry : Bool) (i : Fin c.writes) (m : Shared c) (pc : WritePc c) (a : WriteStep) :
    Option (Shared c × WritePc c) :=
  match pc, a with
  | .notCalled, .call count => if entry then some (m, .downFilled count) else none
  | .downFilled _, .interrupted => some (m, .returned (-ERESTARTSYS))
  | .downFilled count, .step => do
    let filled ← m.filled_slots.down
    some ({ m with filled_slots := filled }, .lock count)
  | .lock count, .step => do
    let l ← m.buf_lock.mutex_lock (.writer i)
    some ({ m with buf_lock := l }, .loadSlot count)
  | .loadSlot count, .step => some (m, .loadBuffer count m.cons_idx)
  | .loadBuffer count slot, .step => some ({ m with consumed := m.consumed ++ [m.buffer slot] }, .loadIdx count)
  | .loadIdx count, .step => some (m, .storeIdx count (Ring.next m.cons_idx))
  | .storeIdx count idx, .step => some ({ m with cons_idx := idx }, .loadCount count)
  | .loadCount count, .step => some (m, .storeCount count (m.consumed_count + 1))
  | .storeCount count n, .step => some ({ m with consumed_count := n }, .unlock count)
  | .unlock count, .step => some ({ m with buf_lock := m.buf_lock.mutex_unlock }, .upFree count)
  | .upFree count, .step => some ({ m with free_slots := m.free_slots.up }, .returned count)
  | _, _ => none

/-- One step of a call of `demo_proc_read`. It stores to no shared variable but the lock. -/
def demo_proc_read (entry : Bool) (i : Fin c.reads) (m : Shared c) (pc : ReadPc) (a : ReadStep) :
    Option (Mutex (Thread c) × ReadPc) :=
  match pc, a with
  | .notCalled, .call ppos => if entry then some (m.buf_lock, if ppos > 0 then .returned none else .lock) else none
  | .lock, .step => do
    let l ← m.buf_lock.mutex_lock (.reader i)
    some (l, .arguments none none none none)
  | .arguments none q free filled, .produced => some (m.buf_lock, .arguments (some m.produced_count) q free filled)
  | .arguments p none free filled, .consumed => some (m.buf_lock, .arguments p (some m.consumed_count) free filled)
  | .arguments p q none filled, .free => some (m.buf_lock, .arguments p q (some m.free_slots.count) filled)
  | .arguments p q free none, .filled => some (m.buf_lock, .arguments p q free (some m.filled_slots.count))
  | .arguments (some p) (some q) (some free) (some filled), .step => some (m.buf_lock, .unlock ⟨p, q, free, filled⟩)
  | .unlock r, .step => some (m.buf_lock.mutex_unlock, .copy r)
  | .copy r, .step => some (m.buf_lock, .returned (some r))
  | _, _ => none

def ProducerPc.critical : ProducerPc c → Bool
  | .loadSlot | .storeSlot _ | .loadIdx | .storeIdx _ | .loadCount | .storeCount _ | .nextValue | .unlock => true
  | _ => false

def WritePc.critical : WritePc c → Bool
  | .loadSlot _ | .loadBuffer .. | .loadIdx _ | .storeIdx .. | .loadCount _ | .storeCount .. | .unlock _ => true
  | _ => false

def ReadPc.critical : ReadPc → Bool
  | .arguments .. | .unlock _ => true
  | _ => false

def WritePc.inFlight : WritePc c → Bool
  | .notCalled | .returned _ => false
  | _ => true

def ReadPc.inFlight : ReadPc → Bool
  | .notCalled | .returned _ => false
  | _ => true

/-- The entry `/proc/sem_demo` exists until `proc_remove` has unlinked it. -/
def ExitPc.entry : ExitPc → Bool
  | .notStarted | .join => true
  | _ => false

def sem_demo_exit (s : State c) : Option (State c) :=
  match s.exit with
  | .notStarted => some { s with exit := .join, should_stop := true }
  | .join => if s.producer.pc = .returned then some { s with exit := .drain } else none
  | .drain =>
    if (∀ i, (s.writes i).inFlight = false) ∧ ∀ i, (s.reads i).inFlight = false then
      some { s with exit := .returned }
    else none
  | .returned => none

def State.stepProducer (s : State c) (interrupted : Bool) : Option (State c) := do
  let (m, p) ← producer_fn s.should_stop interrupted s.shared s.producer
  some { s with shared := m, producer := p }

def State.stepWrite (s : State c) (i : Fin c.writes) (a : WriteStep) : Option (State c) := do
  let (m, pc) ← demo_proc_write s.exit.entry i s.shared (s.writes i) a
  some { s with shared := m, writes := Function.update s.writes i pc }

def State.stepRead (s : State c) (i : Fin c.reads) (a : ReadStep) : Option (State c) := do
  let (l, pc) ← demo_proc_read s.exit.entry i s.shared (s.reads i) a
  let m := { s.shared with buf_lock := l }
  some { s with shared := m, reads := Function.update s.reads i pc }

def step (s : State c) : Action c → Option (State c)
  | .producer => s.stepProducer false
  | .producerInterrupted => s.stepProducer true
  | .write i a => s.stepWrite i a
  | .read i a => s.stepRead i a
  | .exit => sem_demo_exit s

/-- The state after `sem_demo_init`. -/
def initial (c : Config) : State c where
  shared :=
    { free_slots := ⟨c.poolSize⟩
      filled_slots := ⟨0⟩
      buf_lock := .mutex_init
      buffer := fun _ => 0
      prod_idx := ⟨0, c.poolSize_pos⟩
      cons_idx := ⟨0, c.poolSize_pos⟩
      produced_count := 0
      consumed_count := 0
      produced := []
      consumed := [] }
  producer := ⟨.shouldStop, 0⟩
  should_stop := false
  writes := fun _ => .notCalled
  reads := fun _ => .notCalled
  exit := .notStarted

def system (c : Config) : System (State c) (Action c) where
  init s := s = initial c
  step := step

/-- The steps of a call of `demo_proc_read`. -/
inductive ReadMove (entry : Bool) (i : Fin c.reads) (m : Shared c) :
    ReadPc → ReadStep → Mutex (Thread c) → ReadPc → Prop where
  | atEnd {ppos : Nat} (hentry : entry = true) (hpos : ppos > 0) :
    ReadMove entry i m .notCalled (.call ppos) m.buf_lock (.returned none)
  | call {ppos : Nat} (hentry : entry = true) (hpos : ¬ ppos > 0) :
    ReadMove entry i m .notCalled (.call ppos) m.buf_lock .lock
  | lock {l : Mutex (Thread c)} (hl : m.buf_lock.mutex_lock (.reader i) = some l) :
    ReadMove entry i m .lock .step l (.arguments none none none none)
  | produced {q : Option Word} {free filled : Option Nat} :
    ReadMove entry i m (.arguments none q free filled) .produced m.buf_lock (.arguments (some m.produced_count) q free filled)
  | consumed {p : Option Word} {free filled : Option Nat} :
    ReadMove entry i m (.arguments p none free filled) .consumed m.buf_lock (.arguments p (some m.consumed_count) free filled)
  | free {p q : Option Word} {filled : Option Nat} :
    ReadMove entry i m (.arguments p q none filled) .free m.buf_lock (.arguments p q (some m.free_slots.count) filled)
  | filled {p q : Option Word} {free : Option Nat} :
    ReadMove entry i m (.arguments p q free none) .filled m.buf_lock (.arguments p q free (some m.filled_slots.count))
  | report {p q : Word} {free filled : Nat} :
    ReadMove entry i m (.arguments (some p) (some q) (some free) (some filled)) .step m.buf_lock (.unlock ⟨p, q, free, filled⟩)
  | unlock {r : Report} : ReadMove entry i m (.unlock r) .step m.buf_lock.mutex_unlock (.copy r)
  | copy {r : Report} : ReadMove entry i m (.copy r) .step m.buf_lock (.returned (some r))

theorem demo_proc_read_move {entry : Bool} {i : Fin c.reads} {m : Shared c} {pc pc' : ReadPc} {a : ReadStep}
    {l : Mutex (Thread c)} (h : demo_proc_read entry i m pc a = some (l, pc')) : ReadMove entry i m pc a l pc' := by
  unfold demo_proc_read at h
  split at h
  case h_1 ppos =>
    obtain ⟨hentry, hs⟩ := Option.ite_none_right_eq_some.mp h
    cases hs
    split_ifs with hpos
    · exact .atEnd hentry hpos
    · exact .call hentry hpos
  case h_2 =>
    obtain ⟨l', hl, hs⟩ := Option.bind_eq_some_iff.mp h
    cases hs
    exact .lock hl
  case h_3 =>
    cases h
    exact .produced
  case h_4 =>
    cases h
    exact .consumed
  case h_5 =>
    cases h
    exact .free
  case h_6 =>
    cases h
    exact .filled
  case h_7 =>
    cases h
    exact .report
  case h_8 =>
    cases h
    exact .unlock
  case h_9 =>
    cases h
    exact .copy
  case h_10 => cases h

/-- The exit path touches the stop flag and nothing else. -/
theorem sem_demo_exit_frame {s t : State c} (h : sem_demo_exit s = some t) :
    t = { s with exit := t.exit, should_stop := t.should_stop } := by
  unfold sem_demo_exit at h
  split at h
  all_goals
    try split_ifs at h
    all_goals
      cases h
      try rfl

end Armv8Driver.SemDemo
