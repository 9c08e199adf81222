import Armv8Driver.MutexDriver.Counting
import Armv8Driver.Transition.Threads

/-!
# Unloading the driver

`mutex_driver_clean` beside the threads: it prints `counter`, which they still increment, and then stops them one after
the other. A thread that has been told to stop ends at its next test, and until then it can only wait for another one
that is between the calls of the mutex, so the unload cannot hang.
-/

namespace Armv8Driver.MutexDriver

open Kernel Transition

variable {c : Config} {m m' : Shared c} {pc pc' : Pc} {i j : Fin c.threads} {rest : List (Fin c.threads)}

/-- Where `mutex_driver_clean` is, with the threads to be stopped after the one it is at. -/
inductive ExitPc (c : Config) where
  | notCalled
  | load | info (reg : Word)
  | stop (i : Fin c.threads) (rest : List (Fin c.threads))
  | join (i : Fin c.threads) (rest : List (Fin c.threads))
  | returned
  deriving DecidableEq

def ExitPc.kthread_stop : List (Fin c.threads) → ExitPc c
  | [] => .returned
  | i :: rest => .stop i rest

/-- The lines of the threads are in `driver`, that of `mutex_driver_clean` is in `printed`. -/
structure Module (c : Config) where
  driver : State c
  exit : ExitPc c
  printed : List Line

inductive Move (c : Config) where
  | thread (i : Fin c.threads)
  | exit
  deriving DecidableEq

/-- One access of `mutex_driver_clean`. A `kthread_stop` sets the flag of its thread and waits for the thread to return. -/
def mutex_driver_clean (s : Module c) : Option (Module c) :=
  match s.exit with
  | .notCalled => some { s with exit := .load }
  | .load => some { s with exit := .info s.driver.shared.counter }
  | .info reg => some { s with
      printed := s.printed ++ [⟨"counter_Value %d", reg⟩]
      exit := .kthread_stop (List.finRange c.threads) }
  | .stop i rest => (MutexDriver.step s.driver (.stop i)).map fun d => { s with driver := d, exit := .join i rest }
  | .join i rest => if s.driver.threads i = .returned then some { s with exit := .kthread_stop rest } else none
  | .returned => none

def Module.step (s : Module c) : Move c → Option (Module c)
  | .thread i => (MutexDriver.step s.driver (.thread i)).map fun d => { s with driver := d }
  | .exit => mutex_driver_clean s

def unload (c : Config) : System (Module c) (Move c) where
  init s := s = ⟨initial c, .notCalled, []⟩
  step := Module.step

/-- A move with which no thread begins an iteration before it has been told to stop. -/
def finishing (s : Module c) : Move c → Bool
  | .thread i => s.driver.should_stop i || s.driver.threads i != .shouldStop
  | .exit => true

/-! ### What is left to do -/

def Pc.remaining : Pc → Nat
  | .lock => 9
  | .load => 8
  | .add _ => 7
  | .store _ => 6
  | .loadInfo => 5
  | .info _ => 4
  | .unlock => 3
  | .sleep => 2
  | .shouldStop => 1
  | .returned => 0

def ExitPc.remaining : ExitPc c → Nat
  | .notCalled => 2 * c.threads + 3
  | .load => 2 * c.threads + 2
  | .info _ => 2 * c.threads + 1
  | .stop _ rest => 2 * rest.length + 2
  | .join _ rest => 2 * rest.length + 1
  | .returned => 0

/-- A bound on the moves left once no thread begins an iteration any more. -/
def Module.remaining (s : Module c) : Nat := Threads.total Pc.remaining s.driver.threads + s.exit.remaining

theorem remaining_kthread_stop (rest : List (Fin c.threads)) : (ExitPc.kthread_stop rest).remaining = 2 * rest.length := by
  cases rest <;> rfl

/-- The threads that `mutex_driver_clean` has not yet seen return. -/
def ExitPc.left : ExitPc c → List (Fin c.threads)
  | .stop i rest | .join i rest => i :: rest
  | .returned => []
  | _ => List.finRange c.threads

theorem kthread_stop_ne_join (rest rest' : List (Fin c.threads)) : ExitPc.kthread_stop rest ≠ .join i rest' := by
  cases rest <;> exact nofun

theorem left_kthread_stop (rest : List (Fin c.threads)) : (ExitPc.kthread_stop rest).left = rest := by
  cases rest <;> rfl

/-- What `mutex_driver_clean` has printed, or is about to, if it has found `k` increments. -/
def ExitPc.Reports (k : Nat) (printed : List Line) : ExitPc c → Prop
  | .notCalled | .load => printed = []
  | .info reg => printed = [] ∧ reg = BitVec.ofNat 32 k
  | _ => printed = [⟨"counter_Value %d", BitVec.ofNat 32 k⟩]

theorem reports_kthread_stop {k : Nat} {printed : List Line} (h : printed = [⟨"counter_Value %d", BitVec.ofNat 32 k⟩])
    (rest : List (Fin c.threads)) : (ExitPc.kthread_stop rest).Reports k printed := by
  cases rest <;> exact h

/-! ### One step of a thread -/

/-- What a step of a thread does, apart from what it counts. -/
structure Ran (d d' : State c) (i : Fin c.threads) : Prop where
  running : d.threads i ≠ .returned
  others : ∀ j, j ≠ i → d'.threads j = d.threads j
  flags : d'.should_stop = d.should_stop
  finishes : (d.should_stop i || d.threads i != .shouldStop) = true →
    Threads.total Pc.remaining d'.threads < Threads.total Pc.remaining d.threads

theorem body_remaining {format : String} {stop : Bool} (h : body format stop i m pc = some (m', pc'))
    (hfinishing : (stop || pc != .shouldStop) = true) : pc'.remaining < pc.remaining := by
  cases pc with
  | shouldStop =>
    have hstop : stop = true := by simpa using hfinishing
    cases h
    rw [hstop]
    decide
  | lock =>
    obtain ⟨l, -, hs⟩ := Option.bind_eq_some_iff.mp h
    cases hs
    decide
  | returned => cases h
  | _ =>
    cases h
    simp [Pc.remaining]

theorem step_ran {d d' : State c} (h : MutexDriver.step d (.thread i) = some d') : Ran d d' i := by
  obtain ⟨⟨m, pc⟩, hrun, hs⟩ := Option.bind_eq_some_iff.mp h
  obtain ⟨format, hbody⟩ := runFunc_body (d.should_stop i) i d.shared (d.threads i)
  rw [hbody] at hrun
  cases hs
  refine ⟨fun hreturned => ?_, fun j hj => Function.update_of_ne hj .., rfl, fun hfinishing => ?_⟩
  · rw [hreturned] at hrun
    cases hrun
  · have hlower := body_remaining hrun hfinishing
    have htotal := Threads.total_update Pc.remaining d.threads i pc
    show Threads.total Pc.remaining (Function.update d.threads i pc) < _
    omega

/-- A thread that waits for nothing can go on. -/
theorem step_enabled {d : State c} (hrunning : d.threads i ≠ .returned) (hlock : d.threads i ≠ .lock) :
    MutexDriver.step d (.thread i) ≠ none := by
  intro hnone
  have hrun := System.eq_none_of_bind hnone fun _ => nofun
  obtain ⟨format, hbody⟩ := runFunc_body (d.should_stop i) i d.shared (d.threads i)
  rw [hbody] at hrun
  cases hpc : d.threads i with
  | returned => exact hrunning hpc
  | lock => exact hlock hpc
  | _ =>
    rw [hpc] at hrun
    cases hrun

/-! ### The invariant -/

structure Unloading (s : Module c) (increments : List (Fin c.threads)) : Prop where
  counting : Inv s.driver increments.length
  reports : ∃ k ≤ increments.length, s.exit.Reports k s.printed
  joined : ∀ i, i ∉ s.exit.left → s.driver.threads i = .returned
  told : ∀ i rest, s.exit = .join i rest → s.driver.should_stop i = true

variable {s t : Module c} {increments : List (Fin c.threads)}

theorem Unloading.initial : Unloading ⟨initial c, .notCalled, []⟩ [] :=
  ⟨.initial, ⟨0, Nat.le_refl _, rfl⟩, fun i h => absurd (List.mem_finRange i) h, nofun⟩

theorem Unloading.thread (hu : Unloading s increments) (h : s.step (.thread i) = some t) :
    ∃ increments', Unloading t increments' := by
  obtain ⟨d, hd, hs⟩ := Option.map_eq_some_iff.mp h
  have hran := step_ran hd
  obtain ⟨k, hk, hreports⟩ := hu.reports
  cases hs
  refine ⟨_, hu.counting.step hd, ⟨k, ?_, hreports⟩, fun j hj => ?_, fun j rest hjoin => ?_⟩
  · rw [List.length_append]
    exact Nat.le_add_right_of_le hk
  · have hreturned := hu.joined j hj
    have hji : j ≠ i := fun heq => hran.running (heq ▸ hreturned)
    exact (hran.others j hji).trans hreturned
  · exact (congrFun hran.flags j).trans (hu.told j rest hjoin)

theorem Unloading.exit (hu : Unloading s increments) (h : mutex_driver_clean s = some t) : Unloading t increments := by
  obtain ⟨hcounting, ⟨k, hk, hreports⟩, hjoined, htold⟩ := hu
  cases hexit : s.exit with
  | notCalled =>
    simp only [mutex_driver_clean, hexit] at h
    cases h
    rw [hexit] at hreports
    exact ⟨hcounting, ⟨k, hk, hreports⟩, fun i hi => absurd (List.mem_finRange i) hi, nofun⟩
  | load =>
    simp only [mutex_driver_clean, hexit] at h
    cases h
    rw [hexit] at hreports
    exact ⟨hcounting, ⟨_, Nat.le_refl _, hreports, hcounting.counter⟩, fun i hi => absurd (List.mem_finRange i) hi, nofun⟩
  | info reg =>
    simp only [mutex_driver_clean, hexit] at h
    cases h
    rw [hexit] at hreports
    obtain ⟨hprinted, hreg⟩ := hreports
    refine ⟨hcounting, ⟨k, hk, reports_kthread_stop ?_ _⟩, fun i hi => ?_,
      fun i rest hjoin => absurd hjoin (kthread_stop_ne_join _ _)⟩
    · simp only [hprinted, hreg, List.nil_append]
    · rw [left_kthread_stop] at hi
      exact absurd (List.mem_finRange i) hi
  | stop i rest =>
    simp only [mutex_driver_clean, hexit] at h
    obtain ⟨d, hd, hs⟩ := Option.map_eq_some_iff.mp h
    have hstep := hcounting.step hd
    rw [show increment s.driver (.stop i) = none from rfl, Option.toList_none, List.append_nil] at hstep
    cases hs
    cases hd
    rw [hexit] at hreports hjoined
    refine ⟨hstep, ⟨k, hk, hreports⟩, hjoined, fun j rest' hjoin => ?_⟩
    cases hjoin
    exact Function.update_self ..
  | join i rest =>
    simp only [mutex_driver_clean, hexit] at h
    obtain ⟨hreturned, hs⟩ := Option.ite_none_right_eq_some.mp h
    cases hs
    rw [hexit] at hreports hjoined
    refine ⟨hcounting, ⟨k, hk, reports_kthread_stop hreports _⟩, fun j hj => ?_,
      fun j rest' hjoin => absurd hjoin (kthread_stop_ne_join _ _)⟩
    rw [left_kthread_stop] at hj
    by_cases hji : j = i
    · exact hji ▸ hreturned
    · exact hjoined j fun hmem => hj ((List.mem_cons.mp hmem).resolve_left hji)
  | returned => simp [mutex_driver_clean, hexit] at h

theorem Unloading.step {a : Move c} (hu : Unloading s increments) (h : s.step a = some t) :
    ∃ increments', Unloading t increments' := by
  cases a with
  | thread i => exact hu.thread h
  | exit => exact ⟨increments, hu.exit h⟩

theorem unloading_of_reachable (hs : (unload c).Reachable s) : ∃ increments, Unloading s increments := by
  apply hs.invariant
  · intro s hinit
    rw [hinit]
    exact ⟨[], .initial⟩
  · exact fun s a t hu h => hu.elim fun _ hu => hu.step h

/-! ### The unload returns -/

theorem clean_remaining (h : mutex_driver_clean s = some t) : t.remaining < s.remaining := by
  unfold mutex_driver_clean at h
  cases hexit : s.exit with
  | stop i rest =>
    simp only [hexit] at h
    obtain ⟨d, hd, hs⟩ := Option.map_eq_some_iff.mp h
    cases hs
    cases hd
    simp [Module.remaining, hexit, ExitPc.remaining]
  | join i rest =>
    simp only [hexit] at h
    obtain ⟨-, hs⟩ := Option.ite_none_right_eq_some.mp h
    cases hs
    simp only [Module.remaining, hexit, remaining_kthread_stop]
    simp [ExitPc.remaining]
  | info reg =>
    simp only [hexit] at h
    cases h
    simp only [Module.remaining, hexit, remaining_kthread_stop]
    simp [ExitPc.remaining]
  | returned => simp [hexit] at h
  | _ =>
    simp only [hexit] at h
    cases h
    simp [Module.remaining, hexit, ExitPc.remaining]

theorem finishing_remaining {a : Move c} (ha : finishing s a = true) (h : s.step a = some t) :
    t.remaining < s.remaining := by
  cases a with
  | thread i =>
    obtain ⟨d, hd, hs⟩ := Option.map_eq_some_iff.mp h
    have hlower := (step_ran hd).finishes ha
    cases hs
    exact Nat.add_lt_add_right hlower _
  | exit => exact clean_remaining h

/-- What a thread that has been told to stop waits for can go on, without beginning an iteration. -/
theorem Unloading.goes_on (hu : Unloading s increments) (htold : s.driver.should_stop i = true)
    (hrunning : s.driver.threads i ≠ .returned) : ∃ j, finishing s (.thread j) = true ∧ s.step (.thread j) ≠ none := by
  have henabled : ∀ j, MutexDriver.step s.driver (.thread j) ≠ none → s.step (.thread j) ≠ none :=
    fun j hne hnone => hne (Option.map_eq_none_iff.mp hnone)
  by_cases hlock : s.driver.threads i = .lock
  · by_cases hfree : s.driver.shared.kernel_mutex_lock.owner = none
    · refine ⟨i, by simp [finishing, htold], henabled i fun hnone => ?_⟩
      have hrun := System.eq_none_of_bind hnone fun _ => nofun
      obtain ⟨format, hbody⟩ := runFunc_body (s.driver.should_stop i) i s.driver.shared (s.driver.threads i)
      rw [hbody, hlock] at hrun
      exact Mutex.mutex_lock_eq_none.mp (System.eq_none_of_bind hrun fun _ => nofun) hfree
    · obtain ⟨j, howner⟩ := Option.ne_none_iff_exists'.mp hfree
      have hcritical : (s.driver.threads j).critical = true := (hu.counting.held j).mp howner
      have hcases : s.driver.threads j ≠ .shouldStop ∧ s.driver.threads j ≠ .returned ∧ s.driver.threads j ≠ .lock := by
        refine ⟨?_, ?_, ?_⟩ <;>
        · intro hpc
          rw [hpc] at hcritical
          cases hcritical
      exact ⟨j, by simp [finishing, hcases.1], henabled j (step_enabled hcases.2.1 hcases.2.2)⟩
  · exact ⟨i, by simp [finishing, htold], henabled i (step_enabled hrunning hlock)⟩

theorem Unloading.stuck (hu : Unloading s increments) (hstuck : ∀ a, finishing s a = true → s.step a = none) :
    s.exit = .returned := by
  have hexit : mutex_driver_clean s = none := hstuck .exit rfl
  cases hpc : s.exit with
  | returned => rfl
  | join i rest =>
    have hrunning : s.driver.threads i ≠ .returned := by
      intro hreturned
      simp [mutex_driver_clean, hpc, hreturned] at hexit
    obtain ⟨j, hj, hne⟩ := hu.goes_on (hu.told i rest hpc) hrunning
    exact absurd (hstuck (.thread j) hj) hne
  | stop i rest => simp [mutex_driver_clean, hpc, MutexDriver.step] at hexit
  | _ => simp [mutex_driver_clean, hpc] at hexit

/-- What is left once `mutex_driver_clean` has returned. -/
theorem Unloading.returned (hu : Unloading s increments) (hexit : s.exit = .returned) :
    (∀ i, s.driver.threads i = .returned) ∧ s.driver.shared.kernel_mutex_lock.owner = none ∧
      s.driver.logged = counts increments.length ∧
      ∃ k ≤ increments.length, s.printed = [⟨"counter_Value %d", BitVec.ofNat 32 k⟩] := by
  have hreturned : ∀ i, s.driver.threads i = .returned := by
    intro i
    apply hu.joined
    rw [hexit]
    exact nofun
  have hfree : s.driver.shared.kernel_mutex_lock.owner = none := by
    by_contra howned
    obtain ⟨i, howner⟩ := Option.ne_none_iff_exists'.mp howned
    have hcritical := (hu.counting.held i).mp howner
    simp only [hreturned i] at hcritical
    cases hcritical
  obtain ⟨k, hk, hreports⟩ := hu.reports
  rw [hexit] at hreports
  refine ⟨hreturned, hfree, ?_, k, hk, hreports⟩
  rw [hu.counting.free hfree]
  exact hu.counting.logged

/-- However far the threads are, `rmmod` cannot hang: once no thread begins an iteration unless it has been told to stop,
there are at most `remaining` moves, and if none of them is left `mutex_driver_clean` has returned. No thread is then
left, the mutex is free and the log counts every increment; the value printed is that of an earlier moment. -/
theorem mutex_driver_clean_returns (c : Config) (s t : Module c) (moves : List (Move c)) (hs : (unload c).Reachable s)
    (hrun : ((unload c).checked finishing).run s moves = some t) :
    moves.length + t.remaining ≤ s.remaining ∧
      ((∀ a, finishing t a = true → t.step a = none) → t.exit = .returned) ∧
      (t.exit = .returned → (∀ i, t.driver.threads i = .returned) ∧ t.driver.shared.kernel_mutex_lock.owner = none ∧
        ∃ n, t.driver.shared.counter = BitVec.ofNat 32 n ∧ t.driver.logged = counts n ∧
          ∃ k ≤ n, t.printed = [⟨"counter_Value %d", BitVec.ofNat 32 k⟩]) := by
  have hstep : ∀ s a t, True → ((unload c).checked finishing).step s a = some t → True ∧ t.remaining < s.remaining := by
    intro s a t _ h
    obtain ⟨ha, h⟩ := Option.ite_none_right_eq_some.mp h
    exact ⟨trivial, finishing_remaining ha h⟩
  have hsteps : (unload c).Steps System.Any s t := .of_checked (fun _ _ _ => trivial) hrun
  obtain ⟨increments, hu⟩ := unloading_of_reachable (hs.steps hsteps)
  refine ⟨(System.length_add_le_of_run Module.remaining hstep trivial hrun).2, hu.stuck, fun hexit => ?_⟩
  obtain ⟨hreturned, hfree, hlogged, hprinted⟩ := hu.returned hexit
  exact ⟨hreturned, hfree, _, hu.counting.counter, hlogged, hprinted⟩

/-- `func_1` has stored its first increment and `func_2` waits for the mutex when `mutex_driver_clean` loads `counter`. -/
def early : List (Move driver) :=
  let thread_1 : Fin driver.threads := ⟨0, Nat.two_pos⟩
  let thread_2 : Fin driver.threads := ⟨1, Nat.one_lt_two⟩
  List.replicate 5 (.thread thread_1) ++ [.thread thread_2, .exit, .exit]

/-- The rest of the unload, with one more increment. -/
def late : List (Move driver) :=
  let thread_1 : Fin driver.threads := ⟨0, Nat.two_pos⟩
  let thread_2 : Fin driver.threads := ⟨1, Nat.one_lt_two⟩
  [.exit, .exit] ++ List.replicate 5 (.thread thread_1) ++ List.replicate 8 (.thread thread_2) ++
    [.exit, .exit, .thread thread_2, .exit]

theorem late_returns : ∃ s t, (unload driver).run ⟨initial driver, .notCalled, []⟩ early = some s ∧
    ((unload driver).checked finishing).run s late = some t ∧ t.printed = [⟨"counter_Value %d", 1⟩] ∧
      t.driver.logged = [1, 2] ∧
      ∀ i, t.driver.threads i = .returned := by
  have hearly : (unload driver).run ⟨initial driver, .notCalled, []⟩ early =
      some (((unload driver).run ⟨initial driver, .notCalled, []⟩ early).get rfl) := (Option.some_get _).symm
  have hs := System.ReachableUnder.of_run (M := unload driver) rfl (fun _ _ s => trivial) hearly
  refine ⟨_, _, hearly, rfl, rfl, rfl, ?_⟩
  exact ((mutex_driver_clean_returns driver _ _ late hs rfl).2.2 rfl).1

end Armv8Driver.MutexDriver
