import Armv8Driver.MutexUserSpace.Run

/-!
# The value printed with the mutex

Only the thread between `pthread_mutex_lock` and `pthread_mutex_unlock` has a register that counts, and there
the register is worth what `counter` holds, so each iteration of each thread counts.
-/

namespace Armv8Driver.MutexUserSpace

open Kernel Transition

variable {c : Config} {s t : State c} {m : Shared c} {pc : Pc} {p : Fin c.threads}

/-- The register fits the variable. -/
def Pc.Fresh (counter : Word) : Pc → Prop
  | .add _ eax => eax = counter
  | .store _ eax => eax = counter + 1
  | _ => True

theorem Pc.fresh_of_idle (h : pc.idle = true) (counter : Word) : pc.Fresh counter := by
  cases pc with
  | add | store => cases h
  | _ => trivial

theorem Pc.fresh_of_not_critical (hmutex : c.ENABLE_MUTEX = true) (h : pc.critical c = false) (counter : Word) :
    pc.Fresh counter := by
  cases pc with
  | add | store =>
    simp only [Pc.critical, hmutex] at h
    cases h
  | _ => trivial

structure Locked (s : State c) : Prop where
  inv : Inv s
  fresh : ∀ p, (s.threads p).Fresh s.shared.counter
  counter : s.shared.counter = BitVec.ofNat 32 (Threads.total (Pc.stores c) s.threads)

theorem Locked.initial (c : Config) : Locked (initial c) := by
  refine ⟨Inv.initial c, fun _ => trivial, ?_⟩
  have hnone : Threads.total (Pc.stores c) (MutexUserSpace.initial c).threads = 0 := Threads.total_eq_zero.mpr fun _ => rfl
  rw [hnone]
  rfl

/-- While a thread is in its critical section the others have no register that counts. -/
theorem Locked.others (hmutex : c.ENABLE_MUTEX = true) (hl : Locked s) (hin : (s.threads p).critical c = true)
    {q : Fin c.threads} (hq : q ≠ p) (counter : Word) : (s.threads q).Fresh counter := by
  apply Pc.fresh_of_not_critical hmutex
  rw [Bool.eq_false_iff]
  intro hin'
  exact hq (hl.inv.held.unique hin' hin)

theorem Locked.thread (hmutex : c.ENABLE_MUTEX = true) (hl : Locked s)
    (h : func p s.shared (s.threads p) = some (m, pc)) :
    Locked { s with shared := m, threads := Function.update s.threads p pc } := by
  have htotal := Threads.total_update (Pc.stores c) s.threads p pc
  have heffect := func_effect (hl.inv.fits p) h
  have hold := hl.fresh p
  -- Every instruction but the store leaves `counter` and the number of the stores as they are.
  have hquiet : m.counter = s.shared.counter → pc.stores c = (s.threads p).stores c → pc.Fresh s.shared.counter →
      Locked { s with shared := m, threads := Function.update s.threads p pc } := by
    intro hcounter hstores hfresh
    refine ⟨hl.inv.thread h, fun q => ?_, ?_⟩
    · simp only [hcounter]
      exact (Function.forall_update_iff s.threads fun _ pc => pc.Fresh s.shared.counter).mpr
        ⟨hfresh, fun q _ => hl.fresh q⟩ q
    · simp only [hcounter, hl.counter]
      congr 1
      omega
  generalize hpc : s.threads p = old at heffect hold htotal hquiet
  cases heffect with
  | quiet l hidle hstores => exact hquiet rfl hstores (Pc.fresh_of_idle hidle _)
  | load i => exact hquiet rfl rfl rfl
  | add i eax => exact hquiet rfl rfl (congrArg (· + 1) hold)
  | store i eax hidle hstores =>
    have hin : (s.threads p).critical c = true := by
      rw [hpc]
      exact hmutex
    have heax : eax = s.shared.counter + 1 := hold
    refine ⟨hl.inv.thread h, fun q => ?_, ?_⟩
    · exact (Function.forall_update_iff s.threads fun _ pc => pc.Fresh eax).mpr
        ⟨Pc.fresh_of_idle hidle _, fun q hq => hl.others hmutex hin hq _⟩ q
    · have hsum : Threads.total (Pc.stores c) (Function.update s.threads p pc) =
          Threads.total (Pc.stores c) s.threads + 1 := by
        have hbefore : Pc.stores c (.store i eax) = i := rfl
        omega
      simp only [hsum, heax, hl.counter, BitVec.ofNat_add]
      rfl

theorem Locked.stmt {stmt : Stmt c} {rest : List (Stmt c)} (hl : Locked s) (hmain : s.main = stmt :: rest)
    (h : main { s with main := rest } stmt = some t) : Locked t := by
  have hinv := (hl.inv.stmt hmain h).1
  obtain ⟨hshared, hsame | ⟨p, rfl, hthreads⟩⟩ := main_threads h
  · refine ⟨hinv, fun q => ?_, ?_⟩
    · rw [hsame, hshared]
      exact hl.fresh q
    · rw [hsame, hshared]
      exact hl.counter
  · have hnew : s.threads p = .notCreated := by
      rw [hl.inv.created, hmain]
      exact List.mem_cons_self
    refine ⟨hinv, fun q => ?_, ?_⟩
    · rw [hthreads, hshared]
      exact (Function.forall_update_iff (b := Pc.test 0) s.threads fun _ pc => pc.Fresh s.shared.counter).mpr
        ⟨trivial, fun q _ => hl.fresh q⟩ q
    · have htotal := Threads.total_update (Pc.stores c) s.threads p (.test 0)
      rw [hnew] at htotal
      have hsame : Threads.total (Pc.stores c) t.threads = Threads.total (Pc.stores c) s.threads := hthreads ▸ htotal
      rw [hsame, hshared]
      exact hl.counter

theorem Locked.step (hmutex : c.ENABLE_MUTEX = true) {a : Action c} (hl : Locked s)
    (h : MutexUserSpace.step s a = some t) : Locked t := by
  rcases step_cases h with ⟨stmt, rest, hmain, hstmt⟩ | ⟨p, m, pc, hfunc, rfl⟩
  · exact hl.stmt hmain hstmt
  · exact hl.thread hmutex hfunc

/-- With the mutex, no schedule of the threads runs for ever or hangs, and each of them prints the number of all the
increments: a run has at most `steps c` steps, and when none is left to take that is what `main` has printed. -/
theorem mutex_prints_all (c : Config) (hmutex : c.ENABLE_MUTEX = true) (acts : List (Action c)) (s : State c)
    (hrun : (system c).run (initial c) acts = some s) :
    acts.length ≤ steps c ∧
      ((∀ a, step s a = none) → s.printed = [BitVec.ofNat 32 (c.threads * c.MAX_INCREMENT_COUNT)]) := by
  obtain ⟨hi, hlength⟩ := of_run hrun
  refine ⟨Nat.le_of_add_right_le hlength, fun hstuck => ?_⟩
  have hsteps : (system c).Steps System.Any (initial c) s := .of_run (fun _ _ _ => trivial) hrun
  have hl : Locked s := hsteps.invariant (Locked.initial c) fun _ _ _ hl _ h => hl.step hmutex h
  obtain ⟨hprinted, hreturned⟩ := hi.printed_eq (hi.stuck hstuck)
  rw [hprinted, hl.counter, total_returned hreturned]

theorem once_isInt : 1 < 2 ^ 31 := by decide

/-- Two threads of one iteration each. -/
def once : Config := ⟨true, 1, 2, once_isInt⟩

/-- The second thread waits for the mutex. -/
def contended : List (Action once) :=
  let p1 : Fin 2 := ⟨0, Nat.two_pos⟩
  let p2 : Fin 2 := ⟨1, Nat.one_lt_two⟩
  [.main, .main, .thread p1, .thread p2, .thread p1, .thread p1, .thread p1, .thread p1, .thread p1, .thread p2, .thread p2,
    .thread p1, .thread p1, .thread p2, .thread p2, .thread p2, .thread p2, .thread p2, .main, .main, .main, .main]

theorem contended_prints_all : ∃ s, (system once).run (initial once) contended = some s ∧
    contended.length ≤ steps once ∧ ((∀ a, step s a = none) → s.printed = [2]) :=
  ⟨_, rfl, mutex_prints_all once rfl contended _ rfl⟩

end Armv8Driver.MutexUserSpace
