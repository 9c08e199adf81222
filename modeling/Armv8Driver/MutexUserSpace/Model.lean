import Armv8Driver.Kernel.Primitives
import Armv8Driver.Transition.System
import Armv8Driver.Transition.Threads
import Mathlib.Algebra.Group.Nat.Defs

/-!
# `race.c` of `01_Mutex_User_Space` as a transition system

`main` creates the threads, joins them in the same order and prints `counter`; each thread runs `func`.
`counter++` is the three instructions that `race_with_mutex.s` and `race_without_mutex.s` have for it: a load
into `eax`, an addition and a store. `ENABLE_MUTEX` chooses between the two files. The number of the threads and
the number of the increments are parameters, which `race` sets to those of the source. What `printf` is given is
a word of 32 bits; with `%d` a word from 2³¹ on appears as a negative number.
-/

namespace Armv8Driver.MutexUserSpace

open Kernel Transition

/-- An `int`. -/
abbrev Word := BitVec 32

/-- The variable `i` of `func` is compared with `MAX_INCREMENT_COUNT` as an `int`. -/
structure Config where
  ENABLE_MUTEX : Bool
  MAX_INCREMENT_COUNT : Nat
  threads : Nat
  isInt : MAX_INCREMENT_COUNT < 2 ^ 31

theorem race_isInt : 100000 < 2 ^ 31 := by decide

/-- The two threads `p1` and `p2` of the source. -/
def race (ENABLE_MUTEX : Bool) : Config := ⟨ENABLE_MUTEX, 100000, 2, race_isInt⟩

variable {c : Config}

/-- Where a thread is in `func`. A program counter carries the variable `i` and what `eax` holds. -/
inductive Pc where
  | notCreated
  | test (i : Nat)
  | lock (i : Nat)
  | load (i : Nat) | add (i : Nat) (eax : Word) | store (i : Nat) (eax : Word)
  | unlock (i : Nat)
  | next (i : Nat)
  | returned
  deriving DecidableEq

/-- The statements of `main`. The call of `printf` first loads its argument. -/
inductive Stmt (c : Config) where
  | pthread_create (p : Fin c.threads)
  | pthread_join (p : Fin c.threads)
  | load
  | printf
  deriving DecidableEq

structure Shared (c : Config) where
  counter : Word
  lock : Mutex (Fin c.threads)
  deriving DecidableEq

/-- `main` is what `main` has left to do, and `esi` the argument of its `printf`. -/
structure State (c : Config) where
  shared : Shared c
  threads : Fin c.threads → Pc
  main : List (Stmt c)
  esi : Word
  printed : List Word

inductive Action (c : Config) where
  | main
  | thread (p : Fin c.threads)
  deriving DecidableEq

abbrev pthread_mutex_lock (m : Mutex (Fin c.threads)) (p : Fin c.threads) : Option (Mutex (Fin c.threads)) := m.mutex_lock p

abbrev pthread_mutex_unlock (m : Mutex (Fin c.threads)) : Mutex (Fin c.threads) := m.mutex_unlock

/-- One instruction of `func` in thread `p`. -/
def func (p : Fin c.threads) (m : Shared c) : Pc → Option (Shared c × Pc)
  | .notCreated => none
  | .test i =>
    if i < c.MAX_INCREMENT_COUNT then some (m, if c.ENABLE_MUTEX then .lock i else .load i)
    else some (m, .returned)
  | .lock i => do
    let l ← pthread_mutex_lock m.lock p
    some ({ m with lock := l }, .load i)
  | .load i => some (m, .add i m.counter)
  | .add i eax => some (m, .store i (eax + 1))
  | .store i eax => some ({ m with counter := eax }, if c.ENABLE_MUTEX then .unlock i else .next i)
  | .unlock i => some ({ m with lock := pthread_mutex_unlock m.lock }, .next i)
  | .next i => some (m, .test (i + 1))
  | .returned => none

theorem func_test (p : Fin c.threads) (m : Shared c) (i : Nat) : func p m (.test i) =
    if i < c.MAX_INCREMENT_COUNT then some (m, if c.ENABLE_MUTEX then .lock i else .load i) else some (m, .returned) :=
  rfl

theorem func_store (p : Fin c.threads) (m : Shared c) (i : Nat) (eax : Word) : func p m (.store i eax) =
    some ({ m with counter := eax }, if c.ENABLE_MUTEX then .unlock i else .next i) :=
  rfl

/-- One statement of `main`. `pthread_join` waits for its thread. -/
def main (s : State c) : Stmt c → Option (State c)
  | .pthread_create p => some { s with threads := Function.update s.threads p (.test 0) }
  | .pthread_join p => if s.threads p = .returned then some s else none
  | .load => some { s with esi := s.shared.counter }
  | .printf => some { s with printed := s.printed ++ [s.esi] }

theorem main_pthread_join (s : State c) (p : Fin c.threads) :
    main s (.pthread_join p) = if s.threads p = .returned then some s else none :=
  rfl

def step (s : State c) : Action c → Option (State c)
  | .main =>
    match s.main with
    | [] => none
    | stmt :: rest => main { s with main := rest } stmt
  | .thread p => do
    let (m, pc) ← func p s.shared (s.threads p)
    some { s with shared := m, threads := Function.update s.threads p pc }

/-- The body of `main`. -/
def body (c : Config) : List (Stmt c) :=
  (List.finRange c.threads).map .pthread_create ++ ((List.finRange c.threads).map .pthread_join ++ [.load, .printf])

def initial (c : Config) : State c where
  shared := ⟨0, .mutex_init⟩
  threads := fun _ => .notCreated
  main := body c
  esi := 0
  printed := []

def system (c : Config) : System (State c) (Action c) where
  init s := s = initial c
  step := step

end Armv8Driver.MutexUserSpace
