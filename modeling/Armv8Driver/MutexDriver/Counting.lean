import Armv8Driver.MutexDriver.Model

/-!
# The counter and the log

Only the thread that holds the mutex has a register that counts, and its register is worth what the
variable holds. The log is behind the increments by the one that this thread has stored and not yet
printed.
-/

namespace Armv8Driver.MutexDriver

open Kernel Transition

variable {c : Config} {s t : State c} {m m' : Shared c} {pc pc' : Pc} {i j : Fin c.threads} {n incs : Nat}

/-- The first `n` values of a counter that is printed after each increment. -/
def counts (n : Nat) : List Word := (List.range n).map fun k => BitVec.ofNat 32 (k + 1)

theorem counts_succ (n : Nat) : counts (n + 1) = counts n ++ [BitVec.ofNat 32 (n + 1)] := by
  rw [counts, List.range_succ, List.map_append]
  rfl

/-! ### What a thread holds at a program counter -/

def Pc.critical : Pc → Bool
  | .load | .add _ | .store _ | .loadInfo | .info _ | .unlock => true
  | _ => false

/-- The register fits the variable. -/
def Pc.Fresh (counter : Word) : Pc → Prop
  | .add reg => reg = counter
  | .store reg => reg = counter + 1
  | .info reg => reg = counter
  | _ => True

/-- The increments of the thread that it has not printed. -/
def Pc.unlogged : Pc → Nat
  | .loadInfo | .info _ => 1
  | _ => 0

theorem Pc.fresh_of_not_critical (h : pc.critical = false) (counter : Word) : pc.Fresh counter := by
  cases pc with
  | add | store | info => cases h
  | _ => trivial

theorem Pc.unlogged_of_not_critical (h : pc.critical = false) : pc.unlogged = 0 := by
  cases pc with
  | loadInfo | info => cases h
  | _ => rfl

/-! ### The invariant -/

structure Inv (s : State c) (incs : Nat) : Prop where
  held : s.shared.kernel_mutex_lock.Held fun i => (s.threads i).critical
  fresh : ∀ i, (s.threads i).Fresh s.shared.counter
  counter : s.shared.counter = BitVec.ofNat 32 incs
  logged : s.logged = counts s.logged.length
  inside : ∀ i, (s.threads i).critical = true → incs = s.logged.length + (s.threads i).unlogged
  free : s.shared.kernel_mutex_lock.owner = none → incs = s.logged.length

theorem Inv.initial : Inv (initial c) 0 := by
  refine ⟨fun i => ?_, fun _ => trivial, rfl, rfl, nofun, fun _ => rfl⟩
  exact iff_of_false nofun nofun

/-- The other threads are outside while one is inside. -/
theorem Inv.outside (hi : Inv s incs) (hin : (s.threads i).critical = true) (hj : j ≠ i) :
    (s.threads j).critical = false := by
  rw [Bool.eq_false_iff]
  intro hin'
  exact hj (hi.held.unique hin' hin)

/-- A step that writes neither the variable nor the log. -/
theorem Inv.quiet {l : Mutex (Fin c.threads)} (hi : Inv s incs)
    (hlock : Mutex.Moves i s.shared.kernel_mutex_lock l (s.threads i).critical pc.critical)
    (hfresh : pc.Fresh s.shared.counter) (hunlogged : pc.unlogged = (s.threads i).unlogged) :
    Inv { s with shared := { s.shared with kernel_mutex_lock := l }, threads := Function.update s.threads i pc } incs := by
  have hself : (Function.update s.threads i pc) i = pc := Function.update_self ..
  refine ⟨?_, fun j => ?_, hi.counter, hi.logged, fun j hin => ?_, fun hfree => ?_⟩
  · apply hi.held.step (t := i)
    · intro j hj
      simp only [Function.update_of_ne hj]
    · simpa only [hself] using hlock
  · by_cases hj : j = i
    · subst hj
      simpa only [hself] using hfresh
    · simpa only [Function.update_of_ne hj] using hi.fresh j
  · by_cases hj : j = i
    · subst hj
      simp only [hself] at hin ⊢
      rcases hlock with ⟨-, hsame⟩ | ⟨hfree, -, -⟩ | ⟨-, -, hout⟩
      · rw [hunlogged]
        exact hi.inside j (hsame ▸ hin)
      · have hout : (s.threads j).critical = false := by
          rw [Bool.eq_false_iff]
          intro hin'
          rw [(hi.held j).mpr hin'] at hfree
          cases hfree
        rw [hunlogged, Pc.unlogged_of_not_critical hout]
        exact hi.free hfree
      · rw [hin] at hout
        cases hout
    · simp only [Function.update_of_ne hj] at hin ⊢
      exact hi.inside j hin
  · rcases hlock with ⟨hsame, -⟩ | ⟨-, howner, -⟩ | ⟨-, hin, hout⟩
    · exact hi.free (hsame ▸ hfree)
    · rw [howner] at hfree
      cases hfree
    · have hincs := hi.inside i hin
      rw [← hunlogged, Pc.unlogged_of_not_critical hout] at hincs
      exact hincs

/-- A step of the thread that is inside, and stays there. -/
theorem Inv.within {m : Shared c} {incs' : Nat} (hi : Inv s incs) (hin : (s.threads i).critical = true)
    (hstays : pc.critical = true) (hlock : m.kernel_mutex_lock = s.shared.kernel_mutex_lock) (hfresh : pc.Fresh m.counter)
    (hcounter : m.counter = BitVec.ofNat 32 incs')
    (hlogged : m.dmesg.map Line.arg = counts (m.dmesg.map Line.arg).length)
    (hincs : incs' = (m.dmesg.map Line.arg).length + pc.unlogged) :
    Inv { s with shared := m, threads := Function.update s.threads i pc } incs' := by
  have hself : (Function.update s.threads i pc) i = pc := Function.update_self ..
  have howner := (hi.held i).mpr hin
  refine ⟨?_, fun j => ?_, hcounter, hlogged, fun j hj => ?_, fun hfree => ?_⟩
  · apply hi.held.step (t := i)
    · intro j hj
      simp only [Function.update_of_ne hj]
    · refine .inl ⟨hlock, ?_⟩
      simp only [hself, hin, hstays]
  · by_cases hji : j = i
    · subst hji
      simpa only [hself] using hfresh
    · simp only [Function.update_of_ne hji]
      exact Pc.fresh_of_not_critical (hi.outside hin hji) _
  · by_cases hji : j = i
    · subst hji
      simpa only [hself, State.logged] using hincs
    · simp only [Function.update_of_ne hji, hi.outside hin hji] at hj
      cases hj
  · simp only [hlock, howner] at hfree
    cases hfree

theorem Inv.store {reg : Word} (hi : Inv s incs) (hpc : s.threads i = .store reg) :
    Inv { s with shared := { s.shared with counter := reg }, threads := Function.update s.threads i .loadInfo }
      (incs + 1) := by
  have hfresh := hi.fresh i
  have hinside := hi.inside i
  rw [hpc] at hfresh hinside
  have hreg : reg = s.shared.counter + 1 := hfresh
  have hincs : incs = s.logged.length := hinside rfl
  apply hi.within
  · rw [hpc]
    rfl
  · rfl
  · rfl
  · trivial
  · show reg = _
    rw [hreg, hi.counter, BitVec.ofNat_add]
    rfl
  · exact hi.logged
  · exact congrArg (· + 1) hincs

theorem Inv.info {reg : Word} {format : String} (hi : Inv s incs) (hpc : s.threads i = .info reg) :
    Inv { s with shared := pr_info s.shared format reg, threads := Function.update s.threads i .unlock } incs := by
  have hfresh := hi.fresh i
  have hinside := hi.inside i
  rw [hpc] at hfresh hinside
  have hreg : reg = s.shared.counter := hfresh
  have hincs : incs = s.logged.length + 1 := hinside rfl
  have hlogged : (pr_info s.shared format reg).dmesg.map Line.arg = s.logged ++ [reg] := List.map_append
  have hlength : (s.logged ++ [reg]).length = incs := by
    rw [List.length_append, List.length_singleton, hincs]
  apply hi.within
  · rw [hpc]
    rfl
  · rfl
  · rfl
  · trivial
  · exact hi.counter
  · rw [hlogged, hlength, hincs, counts_succ, ← hi.logged, hreg, hi.counter, hincs]
  · rw [hlogged, hlength]
    rfl

/-- A step of a thread that executes no increment. -/
theorem Inv.other {format : String} (hi : Inv s incs) (hstore : ∀ reg, s.threads i ≠ .store reg)
    (h : body format (s.should_stop i) i s.shared (s.threads i) = some (m, pc)) :
    Inv { s with shared := m, threads := Function.update s.threads i pc } incs := by
  have hfresh := hi.fresh i
  cases hpc : s.threads i with
  | store reg => exact absurd hpc (hstore reg)
  | info reg =>
    rw [hpc] at h
    cases h
    exact hi.info hpc
  | returned =>
    rw [hpc] at h
    cases h
  | shouldStop =>
    rw [hpc] at h
    cases h
    cases s.should_stop i <;> exact hi.quiet (.inl ⟨rfl, by rw [hpc]; rfl⟩) trivial (by rw [hpc]; rfl)
  | lock =>
    rw [hpc] at h
    obtain ⟨l, hl, hs⟩ := Option.bind_eq_some_iff.mp h
    cases hs
    obtain ⟨hfree, howner⟩ := Mutex.mutex_lock_eq_some.mp hl
    exact hi.quiet (.inr (.inl ⟨hfree, howner, rfl⟩)) trivial (by rw [hpc]; rfl)
  | load =>
    rw [hpc] at h
    cases h
    exact hi.quiet (.inl ⟨rfl, by rw [hpc]; rfl⟩) rfl (by rw [hpc]; rfl)
  | add reg =>
    rw [hpc] at h hfresh
    cases h
    exact hi.quiet (.inl ⟨rfl, by rw [hpc]; rfl⟩) (congrArg (· + 1) hfresh) (by rw [hpc]; rfl)
  | loadInfo =>
    rw [hpc] at h
    cases h
    exact hi.quiet (.inl ⟨rfl, by rw [hpc]; rfl⟩) rfl (by rw [hpc]; rfl)
  | unlock =>
    rw [hpc] at h
    cases h
    exact hi.quiet (.inr (.inr ⟨rfl, by rw [hpc]; rfl, rfl⟩)) trivial (by rw [hpc]; rfl)
  | sleep =>
    rw [hpc] at h
    cases h
    exact hi.quiet (.inl ⟨rfl, by rw [hpc]; rfl⟩) trivial (by rw [hpc]; rfl)

theorem increment_store {reg : Word} (hpc : s.threads i = .store reg) : increment s (.thread i) = some i := by
  simp only [increment, hpc]

theorem increment_other (hstore : ∀ reg, s.threads i ≠ .store reg) : increment s (.thread i) = none := by
  cases hpc : s.threads i with
  | store reg => exact absurd hpc (hstore reg)
  | _ => simp only [increment, hpc]

theorem Inv.step {a : Action c} {by_threads : List (Fin c.threads)} (hi : Inv s by_threads.length)
    (h : step s a = some t) : Inv t (by_threads ++ (increment s a).toList).length := by
  cases a with
  | stop i =>
    cases h
    rw [show increment s (.stop i) = none from rfl, Option.toList_none, List.append_nil]
    exact ⟨hi.held, hi.fresh, hi.counter, hi.logged, hi.inside, hi.free⟩
  | thread i =>
    obtain ⟨⟨m, pc⟩, hrun, hs⟩ := Option.bind_eq_some_iff.mp h
    obtain ⟨format, hbody⟩ := runFunc_body (s.should_stop i) i s.shared (s.threads i)
    cases hs
    rw [hbody] at hrun
    by_cases hstore : ∃ reg, s.threads i = .store reg
    · obtain ⟨reg, hpc⟩ := hstore
      rw [increment_store hpc, Option.toList_some, List.length_append, List.length_singleton]
      rw [hpc] at hrun
      cases hrun
      exact hi.store hpc
    · rw [not_exists] at hstore
      rw [increment_other hstore, Option.toList_none, List.append_nil]
      exact hi.other hstore hrun

theorem Inv.unlogged_le (hi : Inv s incs) : s.logged.length ≤ incs ∧ incs ≤ s.logged.length + 1 := by
  cases howner : s.shared.kernel_mutex_lock.owner with
  | none =>
    have hincs := hi.free howner
    omega
  | some i =>
    have hincs := hi.inside i ((hi.held i).mp howner)
    have hone : (s.threads i).unlogged ≤ 1 := by
      unfold Pc.unlogged
      split <;> omega
    omega

/-- Whatever the threads do, `counter` is the number of the increments, of which the last may not yet be
in the log, and the log counts 1, 2, 3 and so on. -/
theorem counter_exact (c : Config) (s : State c) (increments : List (Fin c.threads))
    (h : ((system c).logged increment).Reachable (s, increments)) :
    s.shared.counter = BitVec.ofNat 32 increments.length ∧ s.logged = counts s.logged.length ∧
      s.logged.length ≤ increments.length ∧ increments.length ≤ s.logged.length + 1 := by
  have hi : Inv s increments.length := by
    have hinv : ∀ x, ((system c).logged increment).Reachable x → Inv x.1 x.2.length := by
      intro x hx
      refine hx.invariant (I := fun x => Inv x.1 x.2.length) ?_ ?_
      · rintro ⟨s, log⟩ ⟨hs, hlog⟩
        cases hs
        cases hlog
        exact .initial
      · intro x a y hi hstep
        obtain ⟨hy, hlog⟩ := System.logged_step.mp hstep
        rw [hlog]
        exact hi.step hy
    exact hinv _ h
  exact ⟨hi.counter, hi.logged, hi.unlogged_le⟩

/-- The two threads of the driver. -/
def driver : Config := ⟨2, fun i => if i = 0 then .func_1 else .func_2⟩

/-- `func_1` counts while `func_2` waits for the mutex, and then `func_2` counts. -/
def bothCount : List (Action driver) :=
  let thread_1 : Fin driver.threads := ⟨0, by decide⟩
  let thread_2 : Fin driver.threads := ⟨1, by decide⟩
  .thread thread_2 :: List.replicate 8 (.thread thread_1) ++ List.replicate 7 (.thread thread_2)

theorem bothCount_exact :
    ∃ s incs, ((system driver).logged increment).run (initial driver, []) bothCount = some (s, incs) ∧
      s.shared.dmesg = [⟨"From Func_1 = %d \n", 1⟩, ⟨"From Func_2 = %d \n", 2⟩] ∧
      s.shared.counter = BitVec.ofNat 32 incs.length ∧ s.logged = counts s.logged.length ∧
      s.logged.length ≤ incs.length ∧ incs.length ≤ s.logged.length + 1 := by
  have hrun : ((system driver).logged increment).run (initial driver, []) bothCount =
      some ((((system driver).logged increment).run (initial driver, []) bothCount).get rfl) := (Option.some_get _).symm
  have hinit : ((system driver).logged increment).init (initial driver, []) := ⟨rfl, rfl⟩
  exact ⟨_, _, hrun, rfl, counter_exact driver _ _ (.of_run hinit (fun _ _ _ => trivial) hrun)⟩

end Armv8Driver.MutexDriver
