import Armv8Driver.MutexUserSpace.Race

/-!
# Every value in between

Schedules of the threads that lose a given number of increments. `Advances` runs whole iterations of the threads that
are at the top of their loop, `Losing.lose` does so between the load and the store of one of them. One such pair
loses as many increments as the other threads have, and two lose all but two.
-/

namespace Armv8Driver.MutexUserSpace

open Kernel Transition

variable {c : Config} {s t u : State c} {m m' : Shared c} {pc pc' : Pc} {p q : Fin c.threads} {n l i : Nat}

/-! ### Runs of one thread -/

/-- One instruction of a thread. -/
def Runs (p : Fin c.threads) (x y : Shared c × Pc) : Prop := func p x.1 x.2 = some y

/-- Instructions of one thread in turn. -/
abbrev Instructions (p : Fin c.threads) : Shared c × Pc → Shared c × Pc → Prop := Relation.ReflTransGen (Runs p)

theorem Instructions.steps (h : Instructions p (s.shared, s.threads p) (m, pc)) :
    (system c).Steps System.Any s { s with shared := m, threads := Function.update s.threads p pc } := by
  generalize hy : (m, pc) = y at h
  induction h generalizing m pc with
  | refl =>
    cases hy
    rw [Function.update_eq_self]
    exact .refl
  | @tail x y _ hstep ih =>
    subst hy
    have hnext : step { s with shared := x.1, threads := Function.update s.threads p x.2 } (.thread p) =
        some { s with shared := m, threads := Function.update s.threads p pc } := by
      have hfunc : func p x.1 x.2 = some (m, pc) := hstep
      simp only [step, Function.update_self, hfunc, Option.bind_eq_bind, Option.bind_some, Function.update_idem]
    exact .tail (a := .thread p) (ih rfl) trivial hnext

/-- The thread stops behind its load. -/
theorem pause (hracy : c.ENABLE_MUTEX = false) (hpc : s.threads p = .test i) (hi : i < c.MAX_INCREMENT_COUNT) :
    Instructions p (s.shared, s.threads p) (s.shared, .add i s.shared.counter) := by
  have htest : Runs p (s.shared, .test i) (s.shared, .load i) := by
    simp [Runs, func, hi, hracy]
  have hload : Runs p (s.shared, .load i) (s.shared, .add i s.shared.counter) := rfl
  rw [hpc]
  exact (Relation.ReflTransGen.single htest).tail hload

/-- The thread ends its iteration. -/
theorem resume (hracy : c.ENABLE_MUTEX = false) (m : Shared c) (eax : Word) :
    Instructions p (m, .add i eax) ({ m with counter := eax + 1 }, .test (i + 1)) := by
  have hadd : Runs p (m, .add i eax) (m, .store i (eax + 1)) := rfl
  have hstore : Runs p (m, .store i (eax + 1)) ({ m with counter := eax + 1 }, .next i) := by
    simp [Runs, func, hracy]
  have hnext : Runs p ({ m with counter := eax + 1 }, .next i) ({ m with counter := eax + 1 }, .test (i + 1)) := rfl
  exact ((Relation.ReflTransGen.single hadd).tail hstore).tail hnext

/-! ### Iterations of the threads at the top of the loop -/

/-- The iterations that a thread has left, if it is at the top of the loop. -/
def Pc.left (c : Config) : Pc → Nat
  | .test i => c.MAX_INCREMENT_COUNT - i
  | _ => 0

def State.left (s : State c) : Nat := Threads.total (Pc.left c) s.threads

/-- A run of `l` whole iterations, of threads that were at the top of the loop. -/
structure Advances (l : Nat) (s t : State c) : Prop where
  steps : (system c).Steps System.Any s t
  counter : t.shared.counter = s.shared.counter + BitVec.ofNat 32 l
  left : t.left + l = s.left
  main : t.main = s.main
  printed : t.printed = s.printed
  tested : ∀ q, (∃ i ≤ c.MAX_INCREMENT_COUNT, s.threads q = .test i) →
    ∃ i ≤ c.MAX_INCREMENT_COUNT, t.threads q = .test i
  others : ∀ q, (∀ i, s.threads q ≠ .test i) → t.threads q = s.threads q

theorem advances_one (hracy : c.ENABLE_MUTEX = false) (hleft : 0 < s.left) : ∃ t, Advances 1 s t := by
  have hsome : ∃ p, 0 < (s.threads p).left c := by
    by_contra hnone
    simp only [not_exists, Nat.not_lt, Nat.le_zero] at hnone
    exact absurd (Threads.total_eq_zero.mpr hnone) (Nat.ne_of_gt hleft)
  obtain ⟨p, hp⟩ := hsome
  cases hpc : s.threads p with
  | test i =>
    rw [hpc] at hp
    have hi : i < c.MAX_INCREMENT_COUNT := Nat.lt_of_sub_pos hp
    have htotal := Threads.total_update (Pc.left c) s.threads p (.test (i + 1))
    rw [hpc] at htotal
    simp only [Pc.left] at htotal
    have hiteration := (pause hracy hpc hi).trans (resume hracy s.shared s.shared.counter)
    refine ⟨_, Instructions.steps hiteration, rfl, ?_, rfl, rfl, ?_, fun q hq => ?_⟩
    · simp only [State.left]
      omega
    · intro q hq
      by_cases heq : q = p
      · subst heq
        exact ⟨i + 1, hi, Function.update_self ..⟩
      · simp only [Function.update_of_ne heq]
        exact hq
    · have heq : q ≠ p := fun heq => hq i (heq ▸ hpc)
      exact Function.update_of_ne heq ..
  | _ =>
    rw [hpc] at hp
    cases hp

theorem advances (hracy : c.ENABLE_MUTEX = false) (s : State c) (hl : l ≤ s.left) : ∃ t, Advances l s t := by
  induction l with
  | zero => exact ⟨s, .refl, (BitVec.add_zero _).symm, rfl, rfl, rfl, fun _ h => h, fun _ _ => rfl⟩
  | succ l ih =>
    obtain ⟨t, ht⟩ := ih (Nat.le_of_succ_le hl)
    have hleft := ht.left
    obtain ⟨u, hu⟩ := advances_one hracy (s := t) (by omega)
    refine ⟨u, ht.steps.trans hu.steps, ?_, ?_, hu.main.trans ht.main, hu.printed.trans ht.printed, ?_, ?_⟩
    · rw [hu.counter, ht.counter, BitVec.add_assoc, BitVec.ofNat_add]
    · have hleft' := hu.left
      omega
    · exact fun q hq => hu.tested q (ht.tested q hq)
    · intro q hq
      have hsame := ht.others q hq
      rw [← hsame]
      exact hu.others q fun i => hsame ▸ hq i

/-! ### Losing increments -/

/-- The statements of `main` once the threads are created. -/
def joins (c : Config) : List (Stmt c) := (List.finRange c.threads).map .pthread_join ++ [.load, .printf]

/-- All threads are created and at the top of their loop, and have `left` iterations left. -/
structure Losing (s : State c) (counter left : Nat) : Prop where
  reachable : (system c).Reachable s
  main : s.main = joins c
  printed : s.printed = []
  counter : s.shared.counter = BitVec.ofNat 32 counter
  left : s.left = left
  tested : ∀ q, ∃ i ≤ c.MAX_INCREMENT_COUNT, s.threads q = .test i

theorem Losing.advance {left : Nat} (hs : Losing s n left) (ht : Advances l s t) : Losing t (n + l) (left - l) where
  reachable := hs.reachable.steps ht.steps
  main := ht.main.trans hs.main
  printed := ht.printed.trans hs.printed
  counter := by rw [ht.counter, hs.counter, BitVec.ofNat_add]
  left := by
    have hleft := ht.left
    have hbefore := hs.left
    omega
  tested q := ht.tested q (hs.tested q)

/-- While one thread stands behind its load the others run `l` iterations, which its store undoes. -/
theorem Losing.lose (hracy : c.ENABLE_MUTEX = false) {left : Nat} (hs : Losing s n left) (hpc : s.threads p = .test i)
    (hi : i < c.MAX_INCREMENT_COUNT)
    (hl : l + (c.MAX_INCREMENT_COUNT - i) ≤ left) :
    ∃ t, Losing t (n + 1) (left - l - 1) ∧ t.threads p = .test (i + 1) := by
  have hpaused := (pause hracy hpc hi).steps
  generalize hu : ({ s with threads := Function.update s.threads p (.add i s.shared.counter) } : State c) = u at hpaused
  have hthreads : u.threads = Function.update s.threads p (.add i s.shared.counter) := hu ▸ rfl
  have hbehind : u.threads p = .add i s.shared.counter := hthreads ▸ Function.update_self ..
  have hleft : u.left + (c.MAX_INCREMENT_COUNT - i) = left := by
    have htotal := Threads.total_update (Pc.left c) s.threads p (.add i s.shared.counter)
    rw [hpc, ← hthreads] at htotal
    exact htotal.trans hs.left
  obtain ⟨w, hw⟩ := advances hracy (l := l) u (by omega)
  have hstill : w.threads p = .add i s.shared.counter := by
    rw [hw.others p fun j => hbehind ▸ nofun, hbehind]
  have hback := resume (p := p) (i := i) hracy w.shared s.shared.counter
  rw [← hstill] at hback
  have hresumed := hback.steps
  refine ⟨_, ⟨((hs.reachable.steps hpaused).steps hw.steps).steps hresumed, ?_, ?_, ?_, ?_, fun q => ?_⟩,
    Function.update_self ..⟩
  · exact hw.main.trans (hu ▸ hs.main)
  · exact hw.printed.trans (hu ▸ hs.printed)
  · show s.shared.counter + 1 = _
    rw [hs.counter, BitVec.ofNat_add]
    rfl
  · have htotal := Threads.total_update (Pc.left c) w.threads p (.test (i + 1))
    have hmiddle := hw.left
    rw [hstill] at htotal
    simp only [Pc.left] at htotal
    simp only [State.left] at hmiddle hleft ⊢
    omega
  · by_cases hq : q = p
    · subst hq
      exact ⟨i + 1, hi, Function.update_self ..⟩
    · simp only [Function.update_of_ne hq]
      apply hw.tested q
      rw [hthreads, Function.update_of_ne hq]
      exact hs.tested q

/-! ### The beginning and the end of `main` -/

theorem main_steps {stmt : Stmt c} {rest : List (Stmt c)} (hmain : s.main = stmt :: rest)
    (h : main { s with main := rest } stmt = some t) : (system c).Steps System.Any s t := by
  have hstep : step s .main = some t := by
    simp only [step, hmain, h]
  exact .single (a := .main) trivial hstep

theorem creates_steps (ps : List (Fin c.threads)) {rest : List (Stmt c)}
    (hmain : s.main = ps.map .pthread_create ++ rest) :
    ∃ t, (system c).Steps System.Any s t ∧ t.main = rest ∧ t.shared = s.shared ∧ t.printed = s.printed ∧
      ∀ q, t.threads q = if q ∈ ps then .test 0 else s.threads q := by
  induction ps generalizing s with
  | nil => exact ⟨s, .refl, hmain, rfl, rfl, fun _ => rfl⟩
  | cons p ps ih =>
    have hfirst := main_steps hmain rfl
    obtain ⟨t, hsteps, hrest, hshared, hprinted, hthreads⟩ := ih (s := { s with
      main := ps.map .pthread_create ++ rest, threads := Function.update s.threads p (.test 0) }) rfl
    refine ⟨t, hfirst.trans hsteps, hrest, hshared, hprinted, fun q => ?_⟩
    rw [hthreads]
    by_cases hq : q ∈ ps
    · simp [hq]
    · by_cases heq : q = p
      · subst heq
        simp
      · simp [hq, heq]

theorem joins_steps (ps : List (Fin c.threads)) {rest : List (Stmt c)} (hreturned : ∀ q, s.threads q = .returned)
    (hmain : s.main = ps.map .pthread_join ++ rest) : (system c).Steps System.Any s { s with main := rest } := by
  induction ps generalizing s with
  | nil =>
    rw [List.map_nil, List.nil_append] at hmain
    rw [← hmain]
    exact .refl
  | cons p ps ih =>
    have hjoin : main { s with main := ps.map .pthread_join ++ rest } (.pthread_join p) =
        some { s with main := ps.map .pthread_join ++ rest } := if_pos (hreturned p)
    have hrest := ih (s := { s with main := ps.map .pthread_join ++ rest }) hreturned rfl
    exact (main_steps hmain hjoin).trans hrest

/-- Threads without iterations left return. -/
theorem return_steps (ps : List (Fin c.threads)) (hdone : ∀ q ∈ ps, s.threads q = .test c.MAX_INCREMENT_COUNT) :
    ∃ t, (system c).Steps System.Any s t ∧ t.main = s.main ∧ t.shared = s.shared ∧ t.printed = s.printed ∧
      (∀ q ∈ ps, t.threads q = .returned) ∧ ∀ q ∉ ps, t.threads q = s.threads q := by
  induction ps with
  | nil => exact ⟨s, .refl, rfl, rfl, rfl, nofun, fun _ _ => rfl⟩
  | cons p ps ih =>
    obtain ⟨t, hsteps, hmain, hshared, hprinted, hin, hout⟩ := ih fun q hq => hdone q (List.mem_cons_of_mem _ hq)
    by_cases hp : p ∈ ps
    · refine ⟨t, hsteps, hmain, hshared, hprinted, fun q hq => ?_, fun q hq => ?_⟩
      · rcases List.mem_cons.mp hq with rfl | hq
        · exact hin q hp
        · exact hin q hq
      · exact hout q fun hq' => hq (List.mem_cons_of_mem _ hq')
    · have hpc : t.threads p = .test c.MAX_INCREMENT_COUNT := (hout p hp).trans (hdone p List.mem_cons_self)
      have hreturn : Runs p (t.shared, t.threads p) (t.shared, .returned) := by
        rw [hpc]
        exact if_neg (Nat.lt_irrefl _)
      have hlast : Instructions p (t.shared, t.threads p) (t.shared, .returned) := .single hreturn
      refine ⟨_, hsteps.trans hlast.steps, hmain, hshared, hprinted, fun q hq => ?_, fun q hq => ?_⟩
      · by_cases heq : q = p
        · subst heq
          exact Function.update_self ..
        · simp only [Function.update_of_ne heq]
          exact hin q ((List.mem_cons.mp hq).resolve_left heq)
      · obtain ⟨hne, hq⟩ := not_or.mp (List.mem_cons.not.mp hq)
        simp only [Function.update_of_ne hne]
        exact hout q hq

theorem losing_start (c : Config) :
    ∃ s : State c, Losing s 0 (c.threads * c.MAX_INCREMENT_COUNT) ∧ ∀ q, s.threads q = .test 0 := by
  have hmain₀ : (initial c).main = (List.finRange c.threads).map .pthread_create ++ joins c := rfl
  obtain ⟨t, hsteps, hmain, hshared, hprinted, hthreads⟩ := creates_steps (List.finRange c.threads) hmain₀
  have hall : ∀ q, t.threads q = .test 0 := by
    intro q
    rw [hthreads, if_pos (List.mem_finRange q)]
  refine ⟨t, ⟨(System.Reachable.init rfl).steps hsteps, hmain, hprinted, ?_, ?_, fun q => ⟨0, Nat.zero_le _, hall q⟩⟩, hall⟩
  · rw [hshared]
    rfl
  · simp [State.left, Threads.total, hall, Pc.left]

theorem Losing.prints (hs : Losing s n 0) : ∃ t, (system c).Reachable t ∧ t.printed = [BitVec.ofNat 32 n] := by
  have hdone : ∀ q ∈ List.finRange c.threads, s.threads q = .test c.MAX_INCREMENT_COUNT := by
    intro q _
    obtain ⟨i, hi, hpc⟩ := hs.tested q
    have hzero := Threads.total_eq_zero.mp hs.left q
    rw [hpc] at hzero ⊢
    rw [Nat.le_antisymm hi (Nat.le_of_sub_eq_zero hzero)]
  obtain ⟨t, hsteps, hmain, hshared, hprinted, hin, -⟩ := return_steps (List.finRange c.threads) hdone
  have hreturned : ∀ q, t.threads q = .returned := fun q => hin q (List.mem_finRange q)
  have hmain' : t.main = (List.finRange c.threads).map .pthread_join ++ [.load, .printf] := hmain.trans hs.main
  have hjoined := joins_steps (List.finRange c.threads) hreturned hmain'
  have hload := main_steps (s := { t with main := [.load, .printf] }) rfl rfl
  have hprintf := main_steps (s := { t with main := [.printf], esi := t.shared.counter }) rfl rfl
  refine ⟨_, ((((hs.reachable.steps hsteps).steps hjoined).steps hload).steps hprintf), ?_⟩
  simp only [hprinted, hs.printed, hshared, hs.counter, List.nil_append]

/-! ### How many can be lost -/

/-- One thread behind its load loses what the others have. -/
theorem lose_once (hracy : c.ENABLE_MUTEX = false) (others : Nat) (hthreads : c.threads = others + 1)
    (hcount : 0 < c.MAX_INCREMENT_COUNT) (hl : l ≤ others * c.MAX_INCREMENT_COUNT) :
    ∃ s p, Losing (c := c) s 1 (others * c.MAX_INCREMENT_COUNT + c.MAX_INCREMENT_COUNT - l - 1) ∧
      s.threads p = .test 1 := by
  obtain ⟨s, hs, hall⟩ := losing_start c
  rw [hthreads, Nat.succ_mul] at hs
  have hzero : 0 < c.threads := hthreads ▸ Nat.succ_pos _
  obtain ⟨t, ht, hpc⟩ := hs.lose hracy (l := l) (hall ⟨0, hzero⟩) hcount (by omega)
  exact ⟨t, _, ht, hpc⟩

/-- A second thread, behind a load of the value one, loses what the first still has. -/
theorem lose_twice (hracy : c.ENABLE_MUTEX = false) (others : Nat) (hthreads : c.threads = others + 1)
    (hothers : 0 < others) (hcount : 2 ≤ c.MAX_INCREMENT_COUNT) (hl : l + 1 ≤ c.MAX_INCREMENT_COUNT) :
    ∃ s, Losing (c := c) s 2 (c.MAX_INCREMENT_COUNT - l - 1) := by
  have hpos : 0 < others * c.MAX_INCREMENT_COUNT := Nat.mul_pos hothers (by omega)
  obtain ⟨s, p, hs, hp⟩ := lose_once hracy others hthreads (by omega) (Nat.sub_le (others * c.MAX_INCREMENT_COUNT) 1)
  have hleft : others * c.MAX_INCREMENT_COUNT + c.MAX_INCREMENT_COUNT - (others * c.MAX_INCREMENT_COUNT - 1) - 1 =
      c.MAX_INCREMENT_COUNT := by
    omega
  rw [hleft] at hs
  -- One iteration is left to the threads other than `p`.
  have htotal := Threads.total_update (Pc.left c) s.threads p .returned
  have hone : Threads.total (Pc.left c) (Function.update s.threads p .returned) = 1 := by
    have hall := hs.left
    rw [hp] at htotal
    simp only [Pc.left] at htotal
    simp only [State.left] at hall
    omega
  have hsome : ∃ q, (Pc.left c) (Function.update s.threads p .returned q) ≠ 0 := by
    by_contra hnone
    simp only [not_exists, not_not] at hnone
    rw [Threads.total_eq_zero.mpr hnone] at hone
    cases hone
  obtain ⟨q, hq⟩ := hsome
  have hle := Threads.le_total (Pc.left c) (Function.update s.threads p .returned) q
  by_cases heq : q = p
  · subst heq
    rw [Function.update_self] at hq
    exact absurd rfl hq
  · rw [Function.update_of_ne heq] at hq hle
    obtain ⟨i, -, hpc⟩ := hs.tested q
    rw [hpc] at hq hle
    simp only [Pc.left] at hq hle
    obtain ⟨t, ht, -⟩ := hs.lose hracy (l := l) hpc (by omega) (by omega)
    exact ⟨t, ht⟩

theorem prints_of_bounds (hracy : c.ENABLE_MUTEX = false) (hthreads : 2 ≤ c.threads)
    (hlow : min c.MAX_INCREMENT_COUNT 2 ≤ n) (hhigh : n ≤ c.threads * c.MAX_INCREMENT_COUNT) :
    ∃ s, (system c).Reachable s ∧ s.printed = [BitVec.ofNat 32 n] := by
  obtain ⟨others, hothers⟩ := Nat.exists_eq_add_of_le' (Nat.le_of_succ_le hthreads)
  have hfinish : ∀ s k left, Losing (c := c) s k left → k + left = n →
      ∃ s, (system c).Reachable s ∧ s.printed = [BitVec.ofNat 32 n] := by
    intro s k left hs hsum
    obtain ⟨t, ht⟩ := advances hracy (l := left) s (Nat.le_of_eq hs.left.symm)
    have hend := hs.advance ht
    rw [hsum, Nat.sub_self] at hend
    exact hend.prints
  rw [hothers, Nat.succ_mul] at hhigh
  by_cases hcount : c.MAX_INCREMENT_COUNT = 0
  · obtain ⟨s, hs, -⟩ := losing_start c
    rw [hcount] at hhigh
    rw [hcount, Nat.mul_zero] at hs
    exact hfinish s 0 0 hs (by omega)
  · by_cases honce : c.MAX_INCREMENT_COUNT ≤ n
    · obtain ⟨s, -, hs, -⟩ := lose_once hracy others hothers (Nat.pos_of_ne_zero hcount)
        (l := others * c.MAX_INCREMENT_COUNT + c.MAX_INCREMENT_COUNT - n) (by omega)
      exact hfinish s 1 _ hs (by omega)
    · obtain ⟨s, hs⟩ := lose_twice hracy others hothers (by omega) (by omega)
        (l := c.MAX_INCREMENT_COUNT + 1 - n) (by omega)
      exact hfinish s 2 _ hs (by omega)

/-- Without the mutex, `main` can print exactly the values from two, or one where each thread has a single iteration, up to
the number of all the increments. -/
theorem race_prints_iff (c : Config) (hracy : c.ENABLE_MUTEX = false) (hthreads : 2 ≤ c.threads)
    (hfits : c.threads * c.MAX_INCREMENT_COUNT < 2 ^ 32) (v : Word) :
    (∃ s, (system c).Reachable s ∧ s.printed = [v]) ↔
      min c.MAX_INCREMENT_COUNT 2 ≤ v.toNat ∧ v.toNat ≤ c.threads * c.MAX_INCREMENT_COUNT := by
  constructor
  · rintro ⟨s, hs, hprinted⟩
    have hr := Racing.of_reachable hfits hs
    have hend : s.main = [] := by
      rcases hr.inv.printed with ⟨-, hnone⟩ | ⟨hend, -⟩
      · rw [hnone] at hprinted
        cases hprinted
      · exact hend
    obtain ⟨hvalue, hreturned⟩ := hr.inv.printed_eq hend
    have hv : v = s.shared.counter := (List.singleton_inj.mp (hprinted.symm.trans hvalue))
    rw [hv]
    exact hr.bounds (by omega) hreturned
  · rintro ⟨hlow, hhigh⟩
    have hprints := prints_of_bounds hracy hthreads hlow hhigh
    rwa [BitVec.ofNat_toNat, BitVec.setWidth_eq] at hprints

/-- The 200000 increments of the source can all but two be lost. -/
theorem race_prints_two : ∃ s, (system (race false)).Reachable s ∧ s.printed = [2] := by
  have hiff := race_prints_iff (race false) rfl (Nat.le_refl 2) (by decide) 2
  exact hiff.mpr ⟨by decide, by decide⟩

end Armv8Driver.MutexUserSpace
