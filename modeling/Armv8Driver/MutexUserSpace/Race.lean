import Armv8Driver.MutexUserSpace.Run
import Mathlib.Logic.Relation

/-!
# The values printed without the mutex

A store of `counter` loses the increments of the others since its load, so `counter` can end far below the number
of the increments. It cannot end below two where each thread has two iterations: whichever thread stores last
has loaded a value that is at least the one it stored before. Between the two bounds nothing is missing:
a thread that is preempted between its load and its store loses as many iterations of the others as one likes.
-/

namespace Armv8Driver.MutexUserSpace

open Kernel Transition

variable {c : Config} {s t : State c} {m m' : Shared c} {pc pc' : Pc} {p : Fin c.threads}

/-! ### Bounds on the counter -/

/-- What a register can hold, if the threads have stored `counter` `n` times. -/
def Pc.Bounded (n : Nat) : Pc → Prop
  | .add i eax => min i 1 ≤ eax.toNat ∧ eax.toNat ≤ n
  | .store i eax => min i 1 + 1 ≤ eax.toNat ∧ eax.toNat ≤ n + 1
  | _ => True

theorem Pc.bounded_of_idle (h : pc.idle = true) (n : Nat) : pc.Bounded n := by
  cases pc with
  | add | store => cases h
  | _ => trivial

theorem Pc.Bounded.mono {n n' : Nat} (h : pc.Bounded n) (hle : n ≤ n') : pc.Bounded n' := by
  cases pc with
  | add i eax => exact ⟨h.1, Nat.le_trans h.2 hle⟩
  | store i eax => exact ⟨h.1, Nat.le_trans h.2 (Nat.succ_le_succ hle)⟩
  | _ => trivial

theorem Pc.Fits.stores_le (h : pc.Fits c) : pc.stores c ≤ c.MAX_INCREMENT_COUNT := by
  cases pc with
  | notCreated => exact Nat.zero_le _
  | returned => exact Nat.le_refl _
  | test i => exact h
  | lock i => exact Nat.le_of_lt h.1
  | unlock i => exact h.1
  | next i => exact h
  | load i | add i | store i => exact Nat.le_of_lt h

def State.stores (s : State c) : Nat := Threads.total (Pc.stores c) s.threads

/-- `last` is about the thread that stored last: it has not stored since. -/
structure Racing (s : State c) : Prop where
  inv : Inv s
  counter_le : s.shared.counter.toNat ≤ s.stores
  last : s.stores = 0 ∨
    ∃ p, 1 ≤ (s.threads p).stores c ∧ min ((s.threads p).stores c) 2 ≤ s.shared.counter.toNat
  registers : ∀ p, (s.threads p).Bounded s.stores

theorem Racing.initial (c : Config) : Racing (initial c) where
  inv := Inv.initial c
  counter_le := Nat.zero_le _
  last := .inl (Threads.total_eq_zero.mpr fun _ => rfl)
  registers _ := trivial

theorem total_le (hfits : ∀ p, (s.threads p).Fits c) : s.stores ≤ c.threads * c.MAX_INCREMENT_COUNT := by
  have hsum := Finset.sum_le_card_nsmul Finset.univ (fun p => (s.threads p).stores c) c.MAX_INCREMENT_COUNT
    fun p _ => (hfits p).stores_le
  simpa [State.stores, Threads.total] using hsum

theorem stores_update (s : State c) (p : Fin c.threads) (m : Shared c) (pc : Pc) :
    ({ s with shared := m, threads := Function.update s.threads p pc } : State c).stores + (s.threads p).stores c =
      s.stores + pc.stores c :=
  Threads.total_update ..

/-- A thread in an iteration has its store still to come. -/
theorem Racing.stores_lt (hr : Racing s) (hlt : (s.threads p).stores c < c.MAX_INCREMENT_COUNT) :
    s.stores < c.threads * c.MAX_INCREMENT_COUNT := by
  have htotal := stores_update s p s.shared .returned
  have hle : ({ s with threads := Function.update s.threads p .returned } : State c).stores ≤
      c.threads * c.MAX_INCREMENT_COUNT := by
    apply total_le
    exact (Function.forall_update_iff s.threads fun _ pc => pc.Fits c).mpr ⟨trivial, fun q _ => hr.inv.fits q⟩
  have hreturned : Pc.stores c .returned = c.MAX_INCREMENT_COUNT := rfl
  omega

theorem Racing.counter_pos (hr : Racing s) (hpos : 1 ≤ (s.threads p).stores c) : 1 ≤ s.shared.counter.toNat := by
  have hle := Threads.le_total (Pc.stores c) s.threads p
  rcases hr.last with hnone | ⟨q, hq, hmin⟩
  · simp only [State.stores] at hnone
    omega
  · omega

/-- Every instruction but the store leaves `counter` and the number of the stores as they are. -/
theorem Racing.quiet (hr : Racing s) (hinv : Inv { s with shared := m, threads := Function.update s.threads p pc })
    (hcounter : m.counter = s.shared.counter) (hstores : pc.stores c = (s.threads p).stores c)
    (hbounded : pc.Bounded s.stores) : Racing { s with shared := m, threads := Function.update s.threads p pc } := by
  have hsame : ({ s with shared := m, threads := Function.update s.threads p pc } : State c).stores = s.stores := by
    have htotal := stores_update s p m pc
    omega
  refine ⟨hinv, ?_, ?_, ?_⟩
  · rw [hsame, hcounter]
    exact hr.counter_le
  · rw [hsame, hcounter]
    refine hr.last.imp_right fun ⟨q, hq⟩ => ⟨q, ?_⟩
    by_cases heq : q = p
    · subst heq
      simpa only [Function.update_self, hstores] using hq
    · simpa only [Function.update_of_ne heq] using hq
  · rw [hsame]
    exact (Function.forall_update_iff s.threads fun _ pc => pc.Bounded s.stores).mpr
      ⟨hbounded, fun q _ => hr.registers q⟩

theorem Racing.thread (hfits : c.threads * c.MAX_INCREMENT_COUNT < 2 ^ 32) (hr : Racing s)
    (h : func p s.shared (s.threads p) = some (m, pc)) :
    Racing { s with shared := m, threads := Function.update s.threads p pc } := by
  have hinv := hr.inv.thread h
  have htotal := stores_update s p m pc
  have heffect := func_effect (hr.inv.fits p) h
  have hi := hr.inv.fits p
  have hold := hr.registers p
  have hlt := hr.stores_lt (p := p)
  have hpos := hr.counter_pos (p := p)
  have hquiet := hr.quiet hinv
  generalize hpc : s.threads p = old at heffect hi hold hquiet hlt hpos
  cases heffect with
  | quiet l hidle hstores => exact hquiet rfl hstores (Pc.bounded_of_idle hidle _)
  | load i =>
    refine hquiet rfl rfl ⟨?_, hr.counter_le⟩
    by_cases hzero : i = 0
    · simp [hzero]
    · have hone := hpos (Nat.one_le_iff_ne_zero.mpr hzero)
      omega
  | add i eax =>
    obtain ⟨hlow, hhigh⟩ := hold
    have hroom := hlt hi
    have hsucc : (eax + 1).toNat = eax.toNat + 1 := by
      rw [BitVec.toNat_add]
      apply Nat.mod_eq_of_lt
      show eax.toNat + 1 < 2 ^ 32
      omega
    exact hquiet rfl rfl ⟨hsucc ▸ Nat.succ_le_succ hlow, hsucc ▸ Nat.succ_le_succ hhigh⟩
  | store i eax hidle hstores =>
    obtain ⟨hlow, hhigh⟩ := hold
    have hbefore : Pc.stores c (.store i eax) = i := rfl
    have hmore : ({ s with shared := { s.shared with counter := eax }, threads := Function.update s.threads p pc } :
        State c).stores = s.stores + 1 := by
      rw [hpc, hstores, hbefore] at htotal
      exact Nat.add_right_cancel (htotal.trans (by omega))
    refine ⟨hinv, ?_, .inr ⟨p, ?_⟩, ?_⟩
    · rw [hmore]
      exact hhigh
    · simp only [Function.update_self, hstores]
      omega
    · rw [hmore]
      exact (Function.forall_update_iff s.threads fun _ pc => pc.Bounded (s.stores + 1)).mpr
        ⟨Pc.bounded_of_idle hidle _, fun q _ => (hr.registers q).mono (Nat.le_succ _)⟩

theorem Racing.stmt {stmt : Stmt c} {rest : List (Stmt c)} (hr : Racing s) (hmain : s.main = stmt :: rest)
    (h : main { s with main := rest } stmt = some t) : Racing t := by
  have hinv := (hr.inv.stmt hmain h).1
  obtain ⟨hshared, hsame | ⟨p, rfl, hthreads⟩⟩ := main_threads h
  · refine ⟨hinv, ?_, ?_, fun q => ?_⟩
    · rw [State.stores, hsame, hshared]
      exact hr.counter_le
    · rw [State.stores, hsame, hshared]
      exact hr.last
    · rw [State.stores, hsame]
      exact hr.registers q
  · have hnew : s.threads p = .notCreated := by
      rw [hr.inv.created, hmain]
      exact List.mem_cons_self
    have htotal := Threads.total_update (Pc.stores c) s.threads p (.test 0)
    rw [hnew] at htotal
    have hsame : t.stores = s.stores := by
      rw [State.stores, hthreads]
      exact htotal
    refine ⟨hinv, ?_, ?_, fun q => ?_⟩
    · rw [hsame, hshared]
      exact hr.counter_le
    · rw [hsame, hshared]
      refine hr.last.imp_right fun ⟨q, hone, hmin⟩ => ⟨q, ?_⟩
      have hq : q ≠ p := by
        intro heq
        rw [heq, hnew] at hone
        exact absurd hone (Nat.not_succ_le_zero 0)
      rw [hthreads, Function.update_of_ne hq]
      exact ⟨hone, hmin⟩
    · rw [hsame, hthreads]
      exact (Function.forall_update_iff (b := Pc.test 0) s.threads fun _ pc => pc.Bounded s.stores).mpr
        ⟨trivial, fun q _ => hr.registers q⟩ q

theorem Racing.of_reachable (hfits : c.threads * c.MAX_INCREMENT_COUNT < 2 ^ 32) (h : (system c).Reachable s) :
    Racing s := by
  apply h.invariant
  · intro s hs
    exact hs ▸ Racing.initial c
  · intro s a t hr hstep
    rcases step_cases hstep with ⟨stmt, rest, hmain, hstmt⟩ | ⟨p, m, pc, hfunc, rfl⟩
    · exact hr.stmt hmain hstmt
    · exact hr.thread hfits hfunc

/-- The bounds at the end. -/
theorem Racing.bounds (hr : Racing s) (hthreads : 0 < c.threads) (hreturned : ∀ p, s.threads p = .returned) :
    min c.MAX_INCREMENT_COUNT 2 ≤ s.shared.counter.toNat ∧
      s.shared.counter.toNat ≤ c.threads * c.MAX_INCREMENT_COUNT := by
  have htotal := total_returned hreturned
  refine ⟨?_, htotal ▸ hr.counter_le⟩
  rcases hr.last with hnone | ⟨p, -, hmin⟩
  · have hzero : c.MAX_INCREMENT_COUNT = 0 := by
      rw [State.stores, htotal, Nat.mul_eq_zero] at hnone
      exact hnone.resolve_left (Nat.ne_of_gt hthreads)
    rw [hzero]
    exact Nat.zero_le _
  · rw [hreturned p] at hmin
    exact hmin

end Armv8Driver.MutexUserSpace
