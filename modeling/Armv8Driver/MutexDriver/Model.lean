import Armv8Driver.Kernel.Primitives
import Armv8Driver.Transition.Log

/-!
# `main.c` of `02_Mutex_Kernel` as a transition system

The loop that `func_1` and `func_2` share, with one step for each access to the mutex and to `counter`.
`counter = counter + 1` is a load, an addition and a store, and `pr_info` loads the variable again. The
states start where `mutex_driver_init` has woken the threads, any number of them here. `kthread_stop`
sets the flag of a thread at any time.
-/

namespace Armv8Driver.MutexDriver

open Kernel Transition

/-- An `int`. -/
abbrev Word := BitVec 32

inductive Func where
  | func_1 | func_2
  deriving DecidableEq

/-- The threads and the function that each of them runs. -/
structure Config where
  threads : Nat
  func : Fin threads → Func

variable {c : Config}

/-- Where a thread is. A program counter carries what its register holds. -/
inductive Pc where
  | shouldStop
  | lock
  | load | add (reg : Word) | store (reg : Word)
  | loadInfo | info (reg : Word)
  | unlock
  | sleep
  | returned
  deriving DecidableEq

/-- A line of the kernel log: the format of `pr_info` and its argument. -/
structure Line where
  format : String
  arg : Word
  deriving DecidableEq

structure Shared (c : Config) where
  kernel_mutex_lock : Mutex (Fin c.threads)
  counter : Word
  dmesg : List Line
  deriving DecidableEq

structure State (c : Config) where
  shared : Shared c
  threads : Fin c.threads → Pc
  should_stop : Fin c.threads → Bool

inductive Action (c : Config) where
  | thread (i : Fin c.threads)
  | stop (i : Fin c.threads)
  deriving DecidableEq

def pr_info (m : Shared c) (format : String) (arg : Word) : Shared c := { m with dmesg := m.dmesg ++ [⟨format, arg⟩] }

/-- The body of both functions; they differ in the format. -/
def body (format : String) (stop : Bool) (i : Fin c.threads) (m : Shared c) : Pc → Option (Shared c × Pc)
  | .shouldStop => some (m, if stop then .returned else .lock)
  | .lock => do
    let l ← m.kernel_mutex_lock.mutex_lock i
    some ({ m with kernel_mutex_lock := l }, .load)
  | .load => some (m, .add m.counter)
  | .add reg => some (m, .store (reg + 1))
  | .store reg => some ({ m with counter := reg }, .loadInfo)
  | .loadInfo => some (m, .info m.counter)
  | .info reg => some (pr_info m format reg, .unlock)
  | .unlock => some ({ m with kernel_mutex_lock := m.kernel_mutex_lock.mutex_unlock }, .sleep)
  | .sleep => some (m, .shouldStop)
  | .returned => none

def func_1 (stop : Bool) (i : Fin c.threads) (m : Shared c) (pc : Pc) : Option (Shared c × Pc) :=
  body "From Func_1 = %d \n" stop i m pc

def func_2 (stop : Bool) (i : Fin c.threads) (m : Shared c) (pc : Pc) : Option (Shared c × Pc) :=
  body "From Func_2 = %d \n" stop i m pc

def runFunc (stop : Bool) (i : Fin c.threads) (m : Shared c) (pc : Pc) : Option (Shared c × Pc) :=
  match c.func i with
  | .func_1 => func_1 stop i m pc
  | .func_2 => func_2 stop i m pc

def step (s : State c) : Action c → Option (State c)
  | .thread i => do
    let (m, pc) ← runFunc (s.should_stop i) i s.shared (s.threads i)
    some { s with shared := m, threads := Function.update s.threads i pc }
  | .stop i => some { s with should_stop := Function.update s.should_stop i true }

/-- `DEFINE_MUTEX` and the static `counter`, and no thread has run yet. -/
def initial (c : Config) : State c where
  shared := ⟨.mutex_init, 0, []⟩
  threads := fun _ => .shouldStop
  should_stop := fun _ => false

def system (c : Config) : System (State c) (Action c) where
  init s := s = initial c
  step := step

/-- The values in the kernel log, oldest first. -/
def State.logged (s : State c) : List Word := s.shared.dmesg.map Line.arg

/-- The thread that executes an increment, which it does with the store. -/
def increment (s : State c) : Action c → Option (Fin c.threads)
  | .thread i =>
    match s.threads i with
    | .store _ => some i
    | _ => none
  | .stop _ => none

/-- Each function is the common body with a format. -/
theorem runFunc_body (stop : Bool) (i : Fin c.threads) (m : Shared c) (pc : Pc) :
    ∃ format, runFunc stop i m pc = body format stop i m pc := by
  unfold runFunc
  cases c.func i with
  | func_1 => exact ⟨_, rfl⟩
  | func_2 => exact ⟨_, rfl⟩

end Armv8Driver.MutexDriver
