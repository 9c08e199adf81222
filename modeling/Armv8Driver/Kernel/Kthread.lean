import Armv8Driver.Kernel.Pointer
import Mathlib.Data.List.Basic

/-!
# `kthread_create`, `kthread_run` and `kthread_stop`

The threads of one module. A thread is named by the number of the call that has created it. What the
kernel answers to each call is a parameter: `none` is success. A `kthread_stop` of anything but a thread
dereferences a pointer that is none, and the caller does not get any further.
-/

namespace Armv8Driver.Kernel

/-- `created` and `stops` are the threads created and the arguments of `kthread_stop` so far, in order. -/
structure Kthreads where
  calls : Nat
  created : List Nat
  alive : List Nat
  awake : List Nat
  stops : List (Pointer Nat)
  oops : Bool
  deriving DecidableEq

namespace Kthreads

/-- Before the first call. -/
def fresh : Kthreads := ⟨0, [], [], [], [], false⟩

variable (fails : Nat → Option ErrorCode) (w : Kthreads)

/-- The pointer that call `k` returns. -/
def answer (k : Nat) : Pointer Nat :=
  match fails k with
  | some e => .err e
  | none => .addr k

def kthread_create : Pointer Nat × Kthreads :=
  match fails w.calls with
  | some e => (.err e, { w with calls := w.calls + 1 })
  | none =>
    (.addr w.calls, { w with
      calls := w.calls + 1
      created := w.created ++ [w.calls]
      alive := w.alive ++ [w.calls] })

def wake_up_process (p : Pointer Nat) : Kthreads :=
  match p with
  | .addr t => { w with awake := w.awake ++ [t] }
  | _ => { w with oops := true }

def kthread_run : Pointer Nat × Kthreads :=
  let (p, w) := kthread_create fails w
  (p, if p.IS_ERR then w else wake_up_process w p)

/-- `kthread_stop` returns when the thread has ended. -/
def kthread_stop (p : Pointer Nat) : Kthreads :=
  if w.oops then w
  else
    match p with
    | .addr t => { w with alive := w.alive.erase t, awake := w.awake.erase t, stops := w.stops ++ [p] }
    | _ => { w with stops := w.stops ++ [p], oops := true }

variable {fails w} {ps : List (Pointer Nat)} {k : Nat} {e : ErrorCode}

theorem answer_of_fails (h : fails k = some e) : answer fails k = .err e := by rw [answer, h]

theorem answer_of_succeeds (h : fails k = none) : answer fails k = .addr k := by rw [answer, h]

theorem answer_isNull (k : Nat) : (answer fails k).isNull = false := by
  unfold answer
  split <;> rfl

/-- What a call of `kthread_run` does to what a module's books are about. -/
structure Ran (fails : Nat → Option ErrorCode) (w w' : Kthreads) : Prop where
  calls : w'.calls = w.calls + 1
  created : w'.created = w.created ++ if fails w.calls = none then [w.calls] else []
  stops : w'.stops = w.stops
  oops : w'.oops = w.oops

theorem kthread_run_spec : (kthread_run fails w).1 = answer fails w.calls ∧ Ran fails w (kthread_run fails w).2 := by
  cases h : fails w.calls with
  | some e =>
    have hrun : kthread_run fails w = (.err e, { w with calls := w.calls + 1 }) := by
      simp only [kthread_run, kthread_create, h]
      rfl
    rw [hrun, answer_of_fails h]
    exact ⟨rfl, rfl, by rw [h, if_neg nofun, List.append_nil], rfl, rfl⟩
  | none =>
    have hrun : kthread_run fails w = (.addr w.calls, { w with
        calls := w.calls + 1
        created := w.created ++ [w.calls]
        alive := w.alive ++ [w.calls]
        awake := w.awake ++ [w.calls] }) := by
      simp only [kthread_run, kthread_create, h]
      rfl
    rw [hrun, answer_of_succeeds h]
    exact ⟨rfl, rfl, by rw [h, if_pos rfl], rfl, rfl⟩

/-! ### Stopping one pointer after the other -/

theorem kthread_stop_addr (ho : w.oops = false) (t : Nat) :
    (kthread_stop w (.addr t)).stops = w.stops ++ [.addr t] ∧ (kthread_stop w (.addr t)).oops = false := by
  have hon : ¬ w.oops = true := by
    rw [ho]
    exact nofun
  rw [kthread_stop, if_neg hon]
  exact ⟨rfl, ho⟩

theorem kthread_stop_err (ho : w.oops = false) (e : ErrorCode) : (kthread_stop w (.err e)).stops = w.stops ++ [.err e] := by
  have hon : ¬ w.oops = true := by
    rw [ho]
    exact nofun
  exact congrArg Kthreads.stops (if_neg hon)

theorem mem_kthread_stop {q : Pointer Nat} (h : q ∈ w.stops) (p : Pointer Nat) : q ∈ (kthread_stop w p).stops := by
  unfold kthread_stop
  split_ifs
  · exact h
  · split <;> exact List.mem_append_left _ h

/-- Threads are stopped one by one. -/
theorem stops_of_addr (ho : w.oops = false) (h : ∀ p ∈ ps, ∃ t, p = .addr t) :
    (ps.foldl kthread_stop w).stops = w.stops ++ ps ∧ (ps.foldl kthread_stop w).oops = false := by
  induction ps generalizing w with
  | nil => exact ⟨(List.append_nil _).symm, ho⟩
  | cons p ps ih =>
    obtain ⟨t, rfl⟩ := h p List.mem_cons_self
    obtain ⟨hstops, hoops⟩ := kthread_stop_addr ho t
    obtain ⟨hrest, hoops'⟩ := ih hoops fun q hq => h q (List.mem_cons_of_mem _ hq)
    rw [List.foldl_cons, hrest, hstops, List.append_assoc]
    exact ⟨rfl, hoops'⟩

theorem mem_stops {q : Pointer Nat} (h : q ∈ w.stops) : q ∈ (ps.foldl kthread_stop w).stops := by
  induction ps generalizing w with
  | nil => exact h
  | cons p ps ih => exact ih (mem_kthread_stop h p)

/-- The first error pointer among threads and error pointers is stopped. -/
theorem exists_err_mem_stops (ho : w.oops = false) (h : ∀ p ∈ ps, p.isNull = false) (he : ∃ p ∈ ps, p.IS_ERR = true) :
    ∃ e, .err e ∈ (ps.foldl kthread_stop w).stops := by
  induction ps generalizing w with
  | nil => simp at he
  | cons p ps ih =>
    rw [List.foldl_cons]
    cases p with
    | null => simpa [Pointer.isNull] using h .null List.mem_cons_self
    | err e =>
      refine ⟨e, mem_stops ?_⟩
      rw [kthread_stop_err ho]
      exact List.mem_append_right _ (List.mem_singleton_self _)
    | addr t =>
      apply ih (kthread_stop_addr ho t).2
      · exact fun q hq => h q (List.mem_cons_of_mem _ hq)
      · obtain ⟨q, hq, herr⟩ := he
        rcases List.mem_cons.mp hq with rfl | hq
        · cases herr
        · exact ⟨q, hq, herr⟩

end Kthreads

end Armv8Driver.Kernel
