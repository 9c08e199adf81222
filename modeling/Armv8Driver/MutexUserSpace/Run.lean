import Armv8Driver.MutexUserSpace.Model
import Mathlib.Data.Fin.Basic

/-!
# The runs of `race.c`

What `main` has done so far, and where the threads can be, in either build of the program. A measure of what is
left falls with each step, and while `main` has something left some step is enabled, so no schedule hangs.
-/

namespace Armv8Driver.MutexUserSpace

open Kernel Transition

variable {c : Config} {s t : State c} {m m' : Shared c} {pc pc' : Pc} {p : Fin c.threads}

/-! ### One instruction of a thread -/

/-- The thread is between `pthread_mutex_lock` and `pthread_mutex_unlock`. -/
def Pc.critical (c : Config) : Pc → Bool
  | .load _ | .add _ _ | .store _ _ | .unlock _ => c.ENABLE_MUTEX
  | _ => false

/-- The values that `i` can have at a program counter, and the program counters of the build. -/
def Pc.Fits (c : Config) : Pc → Prop
  | .test i => i ≤ c.MAX_INCREMENT_COUNT
  | .lock i | .unlock i => i < c.MAX_INCREMENT_COUNT ∧ c.ENABLE_MUTEX = true
  | .load i | .add i _ | .store i _ | .next i => i < c.MAX_INCREMENT_COUNT
  | .notCreated | .returned => True

/-- How often the thread has stored `counter`. -/
def Pc.stores (c : Config) : Pc → Nat
  | .notCreated => 0
  | .test i | .lock i | .load i | .add i _ | .store i _ => i
  | .unlock i | .next i => i + 1
  | .returned => c.MAX_INCREMENT_COUNT

/-- A bound on the steps that the thread has left. -/
def Pc.remaining (c : Config) : Pc → Nat
  | .notCreated => 7 * c.MAX_INCREMENT_COUNT + 1
  | .test i => 7 * (c.MAX_INCREMENT_COUNT - i) + 1
  | .lock i => 7 * (c.MAX_INCREMENT_COUNT - i)
  | .load i => 7 * (c.MAX_INCREMENT_COUNT - i) - 1
  | .add i _ => 7 * (c.MAX_INCREMENT_COUNT - i) - 2
  | .store i _ => 7 * (c.MAX_INCREMENT_COUNT - i) - 3
  | .unlock i => 7 * (c.MAX_INCREMENT_COUNT - i) - 4
  | .next i => 7 * (c.MAX_INCREMENT_COUNT - i) - 5
  | .returned => 0

/-- What an instruction of a thread does whatever the value of `counter`. -/
structure Ran (p : Fin c.threads) (m : Shared c) (pc : Pc) (m' : Shared c) (pc' : Pc) : Prop where
  started : pc ≠ .notCreated
  running : pc ≠ .returned
  created : pc' ≠ .notCreated
  fits : pc'.Fits c
  remaining : pc'.remaining c < pc.remaining c
  lock : Mutex.Moves p m.lock m'.lock (pc.critical c) (pc'.critical c)

theorem func_ran (hfits : pc.Fits c) (h : func p m pc = some (m', pc')) : Ran p m pc m' pc' := by
  cases pc with
  | notCreated => cases h
  | returned => cases h
  | test i =>
    rw [func_test] at h
    split_ifs at h with hi hmutex
    · cases h
      exact ⟨nofun, nofun, nofun, ⟨hi, hmutex⟩, by simp only [Pc.remaining]; omega, .inl ⟨rfl, rfl⟩⟩
    · cases h
      refine ⟨nofun, nofun, nofun, hi, by simp only [Pc.remaining]; omega, .inl ⟨rfl, ?_⟩⟩
      exact (Bool.not_eq_true _).mp hmutex
    · cases h
      exact ⟨nofun, nofun, nofun, trivial, by simp only [Pc.remaining]; omega, .inl ⟨rfl, rfl⟩⟩
  | lock i =>
    obtain ⟨l, hl, hs⟩ := Option.bind_eq_some_iff.mp h
    cases hs
    obtain ⟨hfree, howner⟩ := Mutex.mutex_lock_eq_some.mp hl
    have hi : i < c.MAX_INCREMENT_COUNT := hfits.1
    exact ⟨nofun, nofun, nofun, hi, by simp only [Pc.remaining]; omega, .inr (.inl ⟨hfree, howner, hfits.2⟩)⟩
  | load i =>
    cases h
    have hi : i < c.MAX_INCREMENT_COUNT := hfits
    exact ⟨nofun, nofun, nofun, hi, by simp only [Pc.remaining]; omega, .inl ⟨rfl, rfl⟩⟩
  | add i eax =>
    cases h
    have hi : i < c.MAX_INCREMENT_COUNT := hfits
    exact ⟨nofun, nofun, nofun, hi, by simp only [Pc.remaining]; omega, .inl ⟨rfl, rfl⟩⟩
  | store i eax =>
    have hi : i < c.MAX_INCREMENT_COUNT := hfits
    rw [func_store] at h
    split_ifs at h with hmutex
    · cases h
      exact ⟨nofun, nofun, nofun, ⟨hi, hmutex⟩, by simp only [Pc.remaining]; omega, .inl ⟨rfl, rfl⟩⟩
    · cases h
      refine ⟨nofun, nofun, nofun, hi, by simp only [Pc.remaining]; omega, .inl ⟨rfl, ?_⟩⟩
      exact ((Bool.not_eq_true _).mp hmutex).symm
  | unlock i =>
    cases h
    have hi : i < c.MAX_INCREMENT_COUNT := hfits.1
    exact ⟨nofun, nofun, nofun, hi, by simp only [Pc.remaining]; omega, .inr (.inr ⟨rfl, hfits.2, rfl⟩)⟩
  | next i =>
    cases h
    have hi : i < c.MAX_INCREMENT_COUNT := hfits
    exact ⟨nofun, nofun, nofun, hi, by simp only [Pc.remaining]; omega, .inl ⟨rfl, rfl⟩⟩

/-- The register of the thread holds no value of `counter`. -/
def Pc.idle : Pc → Bool
  | .add _ _ | .store _ _ => false
  | _ => true

/-- What an instruction of a thread does to `counter`, and how often the thread has then stored it. -/
inductive Effect (m : Shared c) : Pc → Shared c → Pc → Prop where
  | quiet {pc pc' : Pc} (l : Mutex (Fin c.threads)) (hidle : pc'.idle = true) (hstores : pc'.stores c = pc.stores c) :
    Effect m pc { m with lock := l } pc'
  | load (i : Nat) : Effect m (.load i) m (.add i m.counter)
  | add (i : Nat) (eax : Word) : Effect m (.add i eax) m (.store i (eax + 1))
  | store {pc' : Pc} (i : Nat) (eax : Word) (hidle : pc'.idle = true) (hstores : pc'.stores c = i + 1) :
    Effect m (.store i eax) { m with counter := eax } pc'

theorem func_effect (hfits : pc.Fits c) (h : func p m pc = some (m', pc')) : Effect m pc m' pc' := by
  cases pc with
  | notCreated => cases h
  | returned => cases h
  | test i =>
    rw [func_test] at h
    split_ifs at h with hi hmutex
    · cases h
      exact .quiet m.lock rfl rfl
    · cases h
      exact .quiet m.lock rfl rfl
    · cases h
      exact .quiet m.lock rfl (Nat.le_antisymm (Nat.not_lt.mp hi) hfits)
  | lock i =>
    obtain ⟨l, -, hs⟩ := Option.bind_eq_some_iff.mp h
    cases hs
    exact .quiet l rfl rfl
  | load i =>
    cases h
    exact .load i
  | add i eax =>
    cases h
    exact .add i eax
  | store i eax =>
    rw [func_store] at h
    split_ifs at h
    · cases h
      exact .store i eax rfl rfl
    · cases h
      exact .store i eax rfl rfl
  | unlock i =>
    cases h
    exact .quiet _ rfl rfl
  | next i =>
    cases h
    exact .quiet m.lock rfl rfl

/-- A thread that waits for nothing can go on. -/
theorem func_enabled (hcreated : pc ≠ .notCreated) (hrunning : pc ≠ .returned) (hlock : ∀ i, pc ≠ .lock i) :
    func p m pc ≠ none := by
  cases pc with
  | notCreated => exact absurd rfl hcreated
  | returned => exact absurd rfl hrunning
  | lock i => exact absurd rfl (hlock i)
  | test i =>
    rw [func_test]
    split_ifs <;> exact nofun
  | _ => exact nofun

/-- A step is a statement of `main` or an instruction of a thread. -/
theorem step_cases {a : Action c} (h : step s a = some t) :
    (∃ stmt rest, s.main = stmt :: rest ∧ main { s with main := rest } stmt = some t) ∨
      ∃ p m pc, func p s.shared (s.threads p) = some (m, pc) ∧
        t = { s with shared := m, threads := Function.update s.threads p pc } := by
  cases a with
  | main =>
    cases hmain : s.main with
    | nil => simp [step, hmain] at h
    | cons stmt rest =>
      simp only [step, hmain] at h
      exact .inl ⟨stmt, rest, rfl, h⟩
  | thread p =>
    obtain ⟨⟨m, pc⟩, hfunc, hs⟩ := Option.bind_eq_some_iff.mp h
    exact .inr ⟨p, m, pc, hfunc, (Option.some.inj hs).symm⟩

/-- To the threads and what they share, `main` does nothing but create threads. -/
theorem main_threads {stmt : Stmt c} {rest : List (Stmt c)} (h : main { s with main := rest } stmt = some t) :
    t.shared = s.shared ∧
      (t.threads = s.threads ∨ ∃ p, stmt = .pthread_create p ∧ t.threads = Function.update s.threads p (.test 0)) := by
  cases stmt with
  | pthread_create p =>
    cases h
    exact ⟨rfl, .inr ⟨p, rfl, rfl⟩⟩
  | pthread_join p =>
    rw [main_pthread_join] at h
    split_ifs at h
    cases h
    exact ⟨rfl, .inl rfl⟩
  | load =>
    cases h
    exact ⟨rfl, .inl rfl⟩
  | printf =>
    cases h
    exact ⟨rfl, .inl rfl⟩

/-! ### The order of `main` -/

def Stmt.rank : Stmt c → Nat
  | .pthread_create _ => 0
  | .pthread_join _ => 1
  | .load => 2
  | .printf => 3

/-- The first statement comes before the second in `main`, which repeats none. -/
def Stmt.Before (x y : Stmt c) : Prop := x.rank ≤ y.rank ∧ x ≠ y

theorem body_ordered (c : Config) : (body c).Pairwise Stmt.Before := by
  have hcreates : ((List.finRange c.threads).map (Stmt.pthread_create (c := c))).Pairwise Stmt.Before := by
    rw [List.pairwise_map]
    apply (List.nodup_finRange c.threads).imp
    intro p q hne
    exact ⟨Nat.le_refl _, fun h => hne (Stmt.pthread_create.inj h)⟩
  have hjoins : ((List.finRange c.threads).map (Stmt.pthread_join (c := c))).Pairwise Stmt.Before := by
    rw [List.pairwise_map]
    apply (List.nodup_finRange c.threads).imp
    intro p q hne
    exact ⟨Nat.le_refl _, fun h => hne (Stmt.pthread_join.inj h)⟩
  have hend : [Stmt.load (c := c), .printf].Pairwise Stmt.Before := by
    simp [Stmt.Before, Stmt.rank]
  refine List.pairwise_append.mpr ⟨hcreates, List.pairwise_append.mpr ⟨hjoins, hend, ?_⟩, ?_⟩
  · intro x hx y hy
    obtain ⟨p, -, rfl⟩ := List.mem_map.mp hx
    simp only [List.mem_cons, List.not_mem_nil, or_false] at hy
    rcases hy with rfl | rfl
    · exact ⟨Nat.le_succ 1, nofun⟩
    · exact ⟨Nat.le_add_right 1 2, nofun⟩
  · intro x hx y hy
    obtain ⟨p, -, rfl⟩ := List.mem_map.mp hx
    refine ⟨Nat.zero_le _, ?_⟩
    rintro rfl
    simp at hy

/-! ### The invariant -/

structure Inv (s : State c) : Prop where
  ordered : s.main.Pairwise Stmt.Before
  created : ∀ p, s.threads p = .notCreated ↔ .pthread_create p ∈ s.main
  joined : ∀ p, .pthread_join p ∈ s.main ∨ s.threads p = .returned
  loaded : .load ∈ s.main ∨ (∀ p, s.threads p = .returned) ∧ s.esi = s.shared.counter
  printed : .printf ∈ s.main ∧ s.printed = [] ∨ s.main = [] ∧ s.printed = [s.esi]
  fits : ∀ p, (s.threads p).Fits c
  held : s.shared.lock.Held fun p => (s.threads p).critical c

theorem Inv.initial (c : Config) : Inv (initial c) where
  ordered := body_ordered c
  created p := by simp [MutexUserSpace.initial, body]
  joined p := .inl (by simp [MutexUserSpace.initial, body])
  loaded := .inl (by simp [MutexUserSpace.initial, body])
  printed := .inl ⟨by simp [MutexUserSpace.initial, body], rfl⟩
  fits _ := trivial
  held _ := iff_of_false nofun nofun

/-- The steps that something has left. -/
def State.remaining (s : State c) : Nat := s.main.length + Threads.total (Pc.remaining c) s.threads

theorem Inv.thread (hi : Inv s) (h : func p s.shared (s.threads p) = some (m, pc)) :
    Inv { s with shared := m, threads := Function.update s.threads p pc } := by
  have hran := func_ran (hi.fits p) h
  have hself : Function.update s.threads p pc p = pc := Function.update_self ..
  refine ⟨hi.ordered, fun q => ?_, fun q => ?_, ?_, hi.printed, fun q => ?_, ?_⟩
  · by_cases hq : q = p
    · subst hq
      simp only [hself, hran.created, false_iff]
      exact fun hmem => hran.started ((hi.created q).mpr hmem)
    · simp only [Function.update_of_ne hq]
      exact hi.created q
  · by_cases hq : q = p
    · subst hq
      exact (hi.joined q).imp_right fun hret => absurd hret hran.running
    · simp only [Function.update_of_ne hq]
      exact hi.joined q
  · exact .inl (hi.loaded.resolve_right fun hall => hran.running (hall.1 p))
  · exact (Function.forall_update_iff s.threads fun _ pc => pc.Fits c).mpr ⟨hran.fits, fun q _ => hi.fits q⟩ q
  · apply hi.held.step (t := p)
    · intro q hq
      simp only [Function.update_of_ne hq]
    · simpa only [hself] using hran.lock

theorem Inv.stmt {stmt : Stmt c} {rest : List (Stmt c)} (hi : Inv s) (hmain : s.main = stmt :: rest)
    (h : main { s with main := rest } stmt = some t) : Inv t ∧ t.remaining < s.remaining := by
  obtain ⟨hord, hcre, hjoin, hload, hprint, hfits, hheld⟩ := hi
  rw [hmain] at hord hcre hjoin hload hprint
  obtain ⟨hafter, hrest⟩ := List.pairwise_cons.mp hord
  have hprint' : stmt ≠ .printf → Stmt.printf ∈ rest ∧ s.printed = [] := by
    intro hne
    obtain ⟨hmem, hnone⟩ := hprint.resolve_right nofun
    exact ⟨(List.mem_cons.mp hmem).resolve_left hne.symm, hnone⟩
  have hmem_rest : ∀ x, x ∈ stmt :: rest → x ≠ stmt → x ∈ rest :=
    fun x hx hne => (List.mem_cons.mp hx).resolve_left hne
  cases stmt with
  | pthread_create p =>
    cases h
    have hself : Function.update s.threads p (.test 0) p = .test 0 := Function.update_self ..
    have hnew : s.threads p = .notCreated := (hcre p).mpr List.mem_cons_self
    refine ⟨⟨hrest, fun q => ?_, fun q => ?_, ?_, .inl (hprint' nofun), fun q => ?_, ?_⟩, ?_⟩
    · by_cases hq : q = p
      · subst hq
        simp only [hself]
        exact iff_of_false nofun fun hmem => (hafter _ hmem).2 rfl
      · simp only [Function.update_of_ne hq, hcre q, List.mem_cons]
        exact or_iff_right fun heq => hq (Stmt.pthread_create.inj heq)
    · by_cases hq : q = p
      · subst hq
        refine .inl (hmem_rest _ ((hjoin q).resolve_right ?_) nofun)
        rw [hnew]
        exact nofun
      · simp only [Function.update_of_ne hq]
        exact (hjoin q).imp_left fun hmem => hmem_rest _ hmem nofun
    · refine .inl (hmem_rest _ (hload.resolve_right fun hall => ?_) nofun)
      rw [hall.1 p] at hnew
      cases hnew
    · exact (Function.forall_update_iff s.threads fun _ pc => pc.Fits c).mpr ⟨Nat.zero_le _, fun q _ => hfits q⟩ q
    · apply hheld.step (t := p)
      · intro q hq
        simp only [Function.update_of_ne hq]
      · refine .inl ⟨rfl, ?_⟩
        simp only [hself, hnew]
        rfl
    · have htotal := Threads.total_update (Pc.remaining c) s.threads p (.test 0)
      simp only [State.remaining, hmain, List.length_cons]
      simp only [hnew, Pc.remaining] at htotal
      omega
  | pthread_join p =>
    rw [main_pthread_join] at h
    split_ifs at h with hret
    cases h
    refine ⟨⟨hrest, fun q => ?_, fun q => ?_, ?_, .inl (hprint' nofun), hfits, hheld⟩, ?_⟩
    · simp only [hcre q, List.mem_cons, reduceCtorEq, false_or]
    · by_cases hq : q = p
      · exact .inr (hq ▸ hret)
      · exact (hjoin q).imp_left fun hmem => hmem_rest _ hmem fun heq => hq (Stmt.pthread_join.inj heq)
    · exact hload.imp_left fun hmem => hmem_rest _ hmem nofun
    · simp only [State.remaining, hmain, List.length_cons]
      omega
  | load =>
    cases h
    have hreturned : ∀ q, s.threads q = .returned := by
      intro q
      refine (hjoin q).resolve_left fun hmem => ?_
      have hrank := (hafter _ (hmem_rest _ hmem nofun)).1
      simp [Stmt.rank] at hrank
    refine ⟨⟨hrest, fun q => ?_, fun q => .inr (hreturned q), .inr ⟨hreturned, rfl⟩, .inl (hprint' nofun), hfits, hheld⟩, ?_⟩
    · simp only [hcre q, List.mem_cons, reduceCtorEq, false_or]
    · simp only [State.remaining, hmain, List.length_cons]
      omega
  | printf =>
    cases h
    have hlast : rest = [] := by
      rw [List.eq_nil_iff_forall_not_mem]
      intro x hx
      obtain ⟨hrank, hne⟩ := hafter x hx
      cases x with
      | printf => exact hne rfl
      | _ => simp [Stmt.rank] at hrank
    obtain ⟨-, hnone⟩ := hprint.resolve_right nofun
    have hload' := hload.resolve_left fun hmem => by simp [hlast] at hmem
    refine ⟨⟨hrest, fun q => ?_, fun q => .inr (hload'.1 q), .inr hload', .inr ⟨hlast, ?_⟩, hfits, hheld⟩, ?_⟩
    · simp only [hcre q, List.mem_cons, reduceCtorEq, false_or]
    · simp only [hnone, List.nil_append]
    · simp only [State.remaining, hmain, List.length_cons]
      omega

theorem Inv.step {a : Action c} (hi : Inv s) (h : step s a = some t) : Inv t ∧ t.remaining < s.remaining := by
  rcases step_cases h with ⟨stmt, rest, hmain, hstmt⟩ | ⟨p, m, pc, hfunc, rfl⟩
  · exact hi.stmt hmain hstmt
  · refine ⟨hi.thread hfunc, ?_⟩
    have hlower := (func_ran (hi.fits p) hfunc).remaining
    have htotal := Threads.total_update (Pc.remaining c) s.threads p pc
    simp only [State.remaining]
    omega

/-! ### No schedule hangs -/

theorem Inv.thread_stuck (hi : Inv s) (hcreated : s.threads p ≠ .notCreated)
    (hstuck : ∀ q, func q s.shared (s.threads q) = none) : s.threads p = .returned := by
  have hlocked : ∀ q, s.threads q ≠ .notCreated → s.threads q ≠ .returned → ∃ i, s.threads q = .lock i := by
    intro q hq hrunning
    by_contra hlock
    exact func_enabled hq hrunning (fun i heq => hlock ⟨i, heq⟩) (hstuck q)
  by_contra hrunning
  obtain ⟨i, hlock⟩ := hlocked p hcreated hrunning
  -- The holder of the mutex is between the calls, where every instruction can run.
  have hblocked := hstuck p
  rw [hlock] at hblocked
  have hbusy := Mutex.mutex_lock_eq_none.mp (System.eq_none_of_bind hblocked fun _ => nofun)
  obtain ⟨q, howner⟩ := Option.ne_none_iff_exists'.mp hbusy
  have hcritical := (hi.held q).mp howner
  have hq : ∃ i, s.threads q = .lock i := by
    apply hlocked
    · intro heq
      simp [heq, Pc.critical] at hcritical
    · intro heq
      simp [heq, Pc.critical] at hcritical
  obtain ⟨j, hj⟩ := hq
  simp [hj, Pc.critical] at hcritical

/-- A state from which nothing goes on is one where `main` has returned. -/
theorem Inv.stuck (hi : Inv s) (hstuck : ∀ a, MutexUserSpace.step s a = none) : s.main = [] := by
  have hthreads : ∀ q, func q s.shared (s.threads q) = none :=
    fun q => System.eq_none_of_bind (hstuck (.thread q)) fun _ => nofun
  have hmain := hstuck .main
  simp only [MutexUserSpace.step] at hmain
  cases hbody : s.main with
  | nil => rfl
  | cons stmt rest =>
    rw [hbody] at hmain
    cases stmt with
    | pthread_join p =>
      have hcreated : s.threads p ≠ .notCreated := by
        intro hnew
        have hmem := (hi.created p).mp hnew
        have hord := hi.ordered
        rw [hbody] at hmem hord
        have hrank := ((List.pairwise_cons.mp hord).1 _ ((List.mem_cons.mp hmem).resolve_left nofun)).1
        simp [Stmt.rank] at hrank
      simp [main_pthread_join, hi.thread_stuck hcreated hthreads] at hmain
    | _ => cases hmain

/-- What `main` prints, once it has returned, is the value of `counter` when every thread has returned. -/
theorem Inv.printed_eq (hi : Inv s) (hend : s.main = []) :
    s.printed = [s.shared.counter] ∧ ∀ p, s.threads p = .returned := by
  have hload := hi.loaded
  have hprint := hi.printed
  rw [hend] at hload hprint
  obtain ⟨hreturned, hesi⟩ := hload.resolve_left nofun
  obtain ⟨-, hprinted⟩ := hprint.resolve_left fun h => nomatch h.1
  rw [hprinted, hesi]
  exact ⟨rfl, hreturned⟩

theorem total_returned (h : ∀ p, s.threads p = .returned) :
    Threads.total (Pc.stores c) s.threads = c.threads * c.MAX_INCREMENT_COUNT := by
  simp [Threads.total, h, Pc.stores]

/-- The steps that a run of the whole program can have: those of `main`, and seven for each iteration. -/
def steps (c : Config) : Nat := 2 * c.threads + 2 + c.threads * (7 * c.MAX_INCREMENT_COUNT + 1)

theorem remaining_initial (c : Config) : (initial c).remaining = steps c := by
  have htotal : Threads.total (Pc.remaining c) (initial c).threads = c.threads * (7 * c.MAX_INCREMENT_COUNT + 1) := by
    simp [Threads.total, initial, Pc.remaining]
  have hlength : (body c).length = 2 * c.threads + 2 := by
    simp only [body, List.length_append, List.length_map, List.length_finRange, List.length_cons, List.length_nil]
    omega
  rw [State.remaining, htotal, steps, ← hlength]
  rfl

theorem of_run {acts : List (Action c)} (hrun : (system c).run (initial c) acts = some s) :
    Inv s ∧ acts.length + s.remaining ≤ steps c := by
  rw [← remaining_initial]
  exact System.length_add_le_of_run State.remaining (fun _ _ _ hi h => hi.step h) (Inv.initial c) hrun

end Armv8Driver.MutexUserSpace
