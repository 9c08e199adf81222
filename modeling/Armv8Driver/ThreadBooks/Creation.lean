import Armv8Driver.Kernel.Kthread
import Armv8Driver.Kernel.Primitives
import Mathlib.Data.List.Range
import Mathlib.Logic.Function.Basic

/-!
# Which threads a module believes it has

`completion_demo_init` and `completion_demo_exit`, for any number of waiters, and `mutex_driver_init` and
`mutex_driver_clean`, with every creation of a thread able to fail. A module keeps its books if a failed
load leaves no thread behind and an unload stops the threads of the load, each once, and nothing else.
-/

namespace Armv8Driver.ThreadBooks

open Kernel Kernel.Kthreads

/-- `loaded` is what the initialisation has left, `unloaded` what the exit function makes of it. -/
structure Kept (ret : Int) (loaded unloaded : Kthreads) : Prop where
  failed : ret < 0 → ∀ t ∈ loaded.created, t ∉ loaded.alive
  stopped : ret = 0 → unloaded.stops.Perm (loaded.created.map .addr)

variable {fails : Nat → Option ErrorCode} {n i : Nat}

/-! ### `completion_demo.c` -/

def DRV_NAME : String := "completion_demo"

/-- The static variables of the module, and its `/proc` entries. -/
structure Demo where
  init_done : Completion
  release_gate : Completion
  worker_thread : Pointer Nat
  waiters : Nat → Pointer Nat
  entries : List String
  kthreads : Kthreads

def Demo.static : Demo := ⟨⟨0, Nat.zero_le _⟩, ⟨0, Nat.zero_le _⟩, .null, fun _ => .null, [], .fresh⟩

/-- The loop of `completion_demo_init`, with `n` iterations left. -/
def createWaiters (fails : Nat → Option ErrorCode) : Nat → Nat → Demo → Demo
  | 0, _, m => m
  | n + 1, i, m =>
    let (p, w) := kthread_run fails m.kthreads
    createWaiters fails n (i + 1) { m with waiters := Function.update m.waiters i p, kthreads := w }

def completion_demo_init (NUM_WAITERS : Nat) (fails : Nat → Option ErrorCode) (m : Demo) : Int × Demo :=
  let m := { m with
    init_done := .init_completion
    release_gate := .init_completion
    entries := m.entries ++ [DRV_NAME, DRV_NAME ++ "_release"] }
  let (p, w) := kthread_run fails m.kthreads
  (0, createWaiters fails NUM_WAITERS 0 { m with worker_thread := p, kthreads := w })

/-- The loop of `completion_demo_exit`, with `n` iterations left. -/
def stopWaiters : Nat → Nat → Demo → Demo
  | 0, _, m => m
  | n + 1, i, m => stopWaiters n (i + 1) { m with kthreads := kthread_stop m.kthreads (m.waiters i) }

def completion_demo_exit (NUM_WAITERS : Nat) (m : Demo) : Demo :=
  let m := stopWaiters NUM_WAITERS 0 { m with kthreads := kthread_stop m.kthreads m.worker_thread }
  if m.kthreads.oops then m
  else { m with entries := (m.entries.erase DRV_NAME).erase (DRV_NAME ++ "_release") }

variable {m : Demo}

/-- What the loop of `completion_demo_init` does to what the books are about. -/
structure CreatedWaiters (fails : Nat → Option ErrorCode) (n i : Nat) (m m' : Demo) : Prop where
  worker : m'.worker_thread = m.worker_thread
  before : ∀ j < i, m'.waiters j = m.waiters j
  waiters : ∀ j, i ≤ j → j < i + n → m'.waiters j = answer fails (j + 1)
  created : m'.kthreads.created = m.kthreads.created ++ (List.range' (i + 1) n).filter fun k => fails k = none
  stops : m'.kthreads.stops = m.kthreads.stops
  oops : m'.kthreads.oops = m.kthreads.oops

theorem createWaiters_spec (hcalls : m.kthreads.calls = i + 1) : CreatedWaiters fails n i m (createWaiters fails n i m) := by
  induction n generalizing i m with
  | zero =>
    refine ⟨rfl, fun _ _ => rfl, fun j hle hlt => ?_, (List.append_nil _).symm, rfl, rfl⟩
    omega
  | succ n ih =>
    obtain ⟨hp, hran⟩ := @kthread_run_spec fails m.kthreads
    have hrest := @ih (i + 1)
      { m with waiters := Function.update m.waiters i (kthread_run fails m.kthreads).1, kthreads := (kthread_run fails m.kthreads).2 }
      (by rw [hran.calls, hcalls])
    refine ⟨hrest.worker, fun j hj => ?_, fun j hle hlt => ?_, ?_, hrest.stops.trans hran.stops, hrest.oops.trans hran.oops⟩
    · rw [createWaiters, hrest.before j (by omega)]
      exact Function.update_of_ne (by omega) ..
    · by_cases hj : j = i
      · subst hj
        rw [createWaiters, hrest.before j (by omega)]
        simp only [Function.update_self, hp, hcalls]
      · exact hrest.waiters j (by omega) (by omega)
    · rw [createWaiters, hrest.created, hran.created, hcalls, List.append_assoc, List.range'_succ, List.filter_cons]
      by_cases hnone : fails (i + 1) = none
      · simp [hnone]
      · simp [hnone]

theorem stopWaiters_kthreads : (stopWaiters n i m).kthreads =
    ((List.range' i n).map m.waiters).foldl kthread_stop m.kthreads := by
  induction n generalizing i m with
  | zero => rfl
  | succ n ih =>
    rw [stopWaiters, ih]
    rfl

/-- The pointers that `completion_demo_exit` stops, in order. -/
def Demo.pointers (N : Nat) (m : Demo) : List (Pointer Nat) := m.worker_thread :: (List.range N).map m.waiters

theorem completion_demo_exit_kthreads (N : Nat) (m : Demo) :
    (completion_demo_exit N m).kthreads = (m.pointers N).foldl kthread_stop m.kthreads := by
  rw [Demo.pointers, List.foldl_cons, List.range_eq_range', completion_demo_exit]
  split_ifs
  · exact stopWaiters_kthreads
  · exact stopWaiters_kthreads

/-- What the module is once it is loaded: a pointer for each call, and the threads of those that succeeded. -/
structure LoadedDemo (N : Nat) (fails : Nat → Option ErrorCode) (m : Demo) : Prop where
  pointers : m.pointers N = (List.range (N + 1)).map (answer fails)
  created : m.kthreads.created = (List.range (N + 1)).filter fun k => fails k = none
  stops : m.kthreads.stops = []
  oops : m.kthreads.oops = false

theorem completion_demo_init_spec (N : Nat) (fails : Nat → Option ErrorCode) :
    (completion_demo_init N fails .static).1 = 0 ∧ LoadedDemo N fails (completion_demo_init N fails .static).2 := by
  obtain ⟨hp, hran⟩ := @kthread_run_spec fails .fresh
  have hloop : CreatedWaiters fails N 0 _ (completion_demo_init N fails .static).2 := createWaiters_spec hran.calls
  have hrange : List.range (N + 1) = 0 :: List.range' 1 N := by rw [List.range_eq_range', List.range'_succ]
  refine ⟨rfl, ⟨?_, ?_, hloop.stops.trans hran.stops, hloop.oops.trans hran.oops⟩⟩
  · have hwaiters : (List.range N).map (completion_demo_init N fails .static).2.waiters =
        (List.range N).map (answer fails ∘ Nat.succ) := by
      apply List.map_congr_left
      intro j hj
      exact hloop.waiters j (Nat.zero_le j) (by simpa using hj)
    have hworker : (completion_demo_init N fails .static).2.worker_thread = answer fails 0 := hloop.worker.trans hp
    rw [List.range_succ_eq_map, List.map_cons, List.map_map, ← hwaiters, ← hworker]
    rfl
  · have hcreated : (completion_demo_init N fails .static).2.kthreads.created =
        (if fails 0 = none then [0] else []) ++ (List.range' 1 N).filter fun k => fails k = none :=
      hloop.created.trans (congrArg (· ++ _) hran.created)
    rw [hcreated, hrange, List.filter_cons]
    by_cases hnone : fails 0 = none
    · simp [hnone]
    · simp [hnone]

def CompletionDemoKeeps (NUM_WAITERS : Nat) (fails : Nat → Option ErrorCode) : Prop :=
  let init := completion_demo_init NUM_WAITERS fails .static
  Kept init.1 init.2.kthreads (completion_demo_exit NUM_WAITERS init.2).kthreads

/-- `completion_demo` looks at none of the pointers, so it keeps its books exactly if no creation fails. -/
theorem completion_demo_keeps_iff (N : Nat) (fails : Nat → Option ErrorCode) :
    CompletionDemoKeeps N fails ↔ ∀ k ≤ N, fails k = none := by
  obtain ⟨hret, hloaded⟩ := completion_demo_init_spec N fails
  simp only [CompletionDemoKeeps, hret, completion_demo_exit_kthreads, hloaded.pointers]
  constructor
  · intro hkept k hk
    by_contra hfails
    obtain ⟨e, he⟩ := Option.ne_none_iff_exists'.mp hfails
    have hans : ∀ p ∈ (List.range (N + 1)).map (answer fails), p.isNull = false := by
      intro p hp
      obtain ⟨j, -, rfl⟩ := List.mem_map.mp hp
      exact answer_isNull j
    have herr : ∃ p ∈ (List.range (N + 1)).map (answer fails), p.IS_ERR = true :=
      ⟨_, List.mem_map_of_mem (List.mem_range.mpr (Nat.lt_succ_of_le hk)), by rw [answer_of_fails he]; rfl⟩
    obtain ⟨e', hmem⟩ := exists_err_mem_stops hloaded.oops hans herr
    have hcreated := (hkept.stopped rfl).mem_iff.mp hmem
    obtain ⟨t, -, ht⟩ := List.mem_map.mp hcreated
    cases ht
  · intro hnone
    have haddr : (List.range (N + 1)).map (answer fails) = (List.range (N + 1)).map .addr := by
      apply List.map_congr_left
      intro k hk
      exact answer_of_succeeds (hnone k (Nat.le_of_lt_succ (List.mem_range.mp hk)))
    have hcreated : (List.range (N + 1)).filter (fun k => fails k = none) = List.range (N + 1) := by
      rw [List.filter_eq_self]
      intro k hk
      exact decide_eq_true (hnone k (Nat.le_of_lt_succ (List.mem_range.mp hk)))
    have hall : ∀ p ∈ (List.range (N + 1)).map Pointer.addr, ∃ t, p = .addr t := by
      intro p hp
      obtain ⟨t, -, rfl⟩ := List.mem_map.mp hp
      exact ⟨t, rfl⟩
    refine ⟨fun hneg => absurd hneg (by decide), fun _ => ?_⟩
    rw [haddr, (stops_of_addr hloaded.oops hall).1, hloaded.stops, hloaded.created, hcreated, List.nil_append]

/-! ### `main.c` of `02_Mutex_Kernel` -/

/-- The static variables of the driver. -/
structure Driver where
  thread_1 : Pointer Nat
  thread_2 : Pointer Nat
  kthreads : Kthreads
  deriving DecidableEq

def Driver.static : Driver := ⟨.null, .null, .fresh⟩

def mutex_driver_init (fails : Nat → Option ErrorCode) (m : Driver) : Int × Driver :=
  let (p, w) := kthread_create fails m.kthreads
  let m := { m with thread_1 := p, kthreads := w }
  if m.thread_1.IS_ERR then (m.thread_1.PTR_ERR, m)
  else
    let (p, w) := kthread_create fails m.kthreads
    let m := { m with thread_2 := p, kthreads := w }
    if m.thread_2.IS_ERR then (m.thread_2.PTR_ERR, m)
    else
      let w := wake_up_process m.kthreads m.thread_1
      let w := wake_up_process w m.thread_2
      (0, { m with kthreads := w })

def mutex_driver_clean (m : Driver) : Driver :=
  let w := kthread_stop m.kthreads m.thread_1
  { m with kthreads := kthread_stop w m.thread_2 }

def MutexDriverKeeps (fails : Nat → Option ErrorCode) : Prop :=
  let init := mutex_driver_init fails .static
  Kept init.1 init.2.kthreads (mutex_driver_clean init.2).kthreads

/-- The ways in which `mutex_driver_init` can end. -/
inductive DriverOutcome (fails : Nat → Option ErrorCode) : Int × Driver → Prop where
  | noThread_1 (e : ErrorCode) (h : fails 0 = some e) :
    DriverOutcome fails (e.val, ⟨.err e, .null, { Kthreads.fresh with calls := 1 }⟩)
  | noThread_2 (e : ErrorCode) (h1 : fails 0 = none) (h : fails 1 = some e) :
    DriverOutcome fails (e.val, ⟨.addr 0, .err e, { Kthreads.fresh with calls := 2, created := [0], alive := [0] }⟩)
  | done (h1 : fails 0 = none) (h2 : fails 1 = none) :
    DriverOutcome fails (0, ⟨.addr 0, .addr 1, ⟨2, [0, 1], [0, 1], [0, 1], [], false⟩⟩)

theorem mutex_driver_init_outcome (fails : Nat → Option ErrorCode) :
    DriverOutcome fails (mutex_driver_init fails .static) := by
  cases h1 : fails 0 with
  | some e =>
    have hend : mutex_driver_init fails .static = (e.val, ⟨.err e, .null, { Kthreads.fresh with calls := 1 }⟩) := by
      simp only [mutex_driver_init, kthread_create, Driver.static, Kthreads.fresh, h1]
      rfl
    rw [hend]
    exact .noThread_1 e h1
  | none =>
    cases h2 : fails 1 with
    | some e =>
      have hend : mutex_driver_init fails .static =
          (e.val, ⟨.addr 0, .err e, { Kthreads.fresh with calls := 2, created := [0], alive := [0] }⟩) := by
        simp only [mutex_driver_init, kthread_create, Driver.static, Kthreads.fresh, h1, h2]
        rfl
      rw [hend]
      exact .noThread_2 e h1 h2
    | none =>
      have hend : mutex_driver_init fails .static = (0, ⟨.addr 0, .addr 1, ⟨2, [0, 1], [0, 1], [0, 1], [], false⟩⟩) := by
        simp only [mutex_driver_init, kthread_create, Driver.static, Kthreads.fresh, h1, h2]
        rfl
      rw [hend]
      exact .done h1 h2

/-- The second error path forgets the first thread. -/
theorem mutex_driver_keeps_iff (fails : Nat → Option ErrorCode) :
    MutexDriverKeeps fails ↔ (fails 0 = none → fails 1 = none) := by
  have hout := mutex_driver_init_outcome fails
  unfold MutexDriverKeeps
  generalize mutex_driver_init fails .static = init at hout
  cases hout with
  | noThread_1 e h =>
    refine iff_of_true ⟨fun _ => nofun, fun hzero => ?_⟩ (by rw [h]; exact nofun)
    exact absurd hzero (Int.ne_of_lt e.property.2)
  | noThread_2 e h1 h =>
    refine iff_of_false (fun hkept => ?_) (by rw [h]; exact fun hnone => nomatch hnone h1)
    exact hkept.failed e.property.2 0 (List.mem_singleton_self 0) (List.mem_singleton_self 0)
  | done h1 h2 => exact iff_of_true ⟨fun hneg => absurd hneg (by decide), fun _ => .refl _⟩ fun _ => h2

/-- `completion_demo` keeps its books exactly if every creation succeeds, and the mutex driver exactly if the
second does where the first does. -/
theorem books_kept_iff (NUM_WAITERS : Nat) (fails : Nat → Option ErrorCode) :
    (CompletionDemoKeeps NUM_WAITERS fails ↔ ∀ k ≤ NUM_WAITERS, fails k = none) ∧
      (MutexDriverKeeps fails ↔ (fails 0 = none → fails 1 = none)) :=
  ⟨completion_demo_keeps_iff NUM_WAITERS fails, mutex_driver_keeps_iff fails⟩

/-- The second creation finds no memory. -/
def secondFails (k : Nat) : Option ErrorCode := if k = 1 then some noMemory else none

/-- `completion_demo_exit` stops an error pointer, and `mutex_driver_init` leaves its first thread. -/
theorem secondFails_not_kept : ¬ CompletionDemoKeeps 4 secondFails ∧ ¬ MutexDriverKeeps secondFails := by
  rw [completion_demo_keeps_iff, mutex_driver_keeps_iff]
  constructor
  · intro h
    exact absurd (h 1 (by decide)) (by decide)
  · intro h
    exact absurd (h rfl) (by decide)

end Armv8Driver.ThreadBooks
