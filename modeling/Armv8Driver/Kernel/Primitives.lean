import Mathlib.Data.Nat.Init
import Mathlib.Tactic.SplitIfs

/-!
# The kernel primitives the drivers block on

`struct completion`, `struct semaphore` and `struct mutex`, as counts and an owner. An operation that
blocks is a partial function: `none` means that the caller sleeps.
-/

namespace Armv8Driver.Kernel

def EFAULT : Int := 14
def ENOMEM : Int := 12
def EEXIST : Int := 17
def EINVAL : Int := 22
def ETIMEDOUT : Int := 110
def ERESTARTSYS : Int := 512

def UINT_MAX : Nat := 4294967295

/-- `struct completion`: the signals given and not yet taken. `UINT_MAX` stands for all of them. -/
@[ext] structure Completion where
  done : Nat
  done_le : done ≤ UINT_MAX
  deriving DecidableEq

namespace Completion

def init_completion : Completion := ⟨0, by decide⟩

def complete (c : Completion) : Completion := ⟨min (c.done + 1) UINT_MAX, Nat.min_le_right _ _⟩

def complete_all (_ : Completion) : Completion := ⟨UINT_MAX, Nat.le_refl _⟩

def wait_for_completion (c : Completion) : Option Completion :=
  if c.done = 0 then none
  else if c.done = UINT_MAX then some c
  else some ⟨c.done - 1, Nat.le_trans (Nat.sub_le _ _) c.done_le⟩

@[simp] theorem init_done : init_completion.done = 0 := rfl

@[simp] theorem complete_done (c : Completion) : c.complete.done = min (c.done + 1) UINT_MAX := rfl

@[simp] theorem complete_all_done (c : Completion) : c.complete_all.done = UINT_MAX := rfl

theorem wait_for_completion_eq_none {c : Completion} : c.wait_for_completion = none ↔ c.done = 0 := by
  unfold wait_for_completion
  split_ifs with hzero hmax
  · simp [hzero]
  · simp [hzero]
  · simp [hzero]

theorem wait_for_completion_eq_some {c c' : Completion} :
    c.wait_for_completion = some c' ↔
      c.done ≠ 0 ∧ c'.done = if c.done = UINT_MAX then UINT_MAX else c.done - 1 := by
  by_cases hzero : c.done = 0
  · simp [wait_for_completion, hzero]
  · by_cases hmax : c.done = UINT_MAX
    · rw [wait_for_completion, if_neg hzero, if_pos hmax, if_pos hmax, Option.some.injEq,
        Completion.ext_iff, hmax, eq_comm, and_iff_right (hmax ▸ hzero)]
    · rw [wait_for_completion, if_neg hzero, if_neg hmax, if_neg hmax, Option.some.injEq,
        Completion.ext_iff, eq_comm, and_iff_right hzero]

end Completion

/-- `struct semaphore`: the permits left. -/
@[ext] structure Semaphore where
  count : Nat
  deriving DecidableEq

namespace Semaphore

def down (s : Semaphore) : Option Semaphore := if s.count = 0 then none else some ⟨s.count - 1⟩

def up (s : Semaphore) : Semaphore := ⟨s.count + 1⟩

@[simp] theorem up_count (s : Semaphore) : s.up.count = s.count + 1 := rfl

theorem down_eq_none {s : Semaphore} : s.down = none ↔ s.count = 0 := by
  unfold down
  split_ifs <;> simp [*]

theorem down_eq_some {s s' : Semaphore} : s.down = some s' ↔ s.count = s'.count + 1 := by
  unfold down
  split_ifs with h
  · simp [h]
  · simp only [Option.some.injEq, Semaphore.ext_iff]
    omega

end Semaphore

/-- `struct mutex`: the thread that holds it. -/
@[ext] structure Mutex (τ : Type) where
  owner : Option τ
  deriving DecidableEq

namespace Mutex

variable {τ : Type}

def mutex_init : Mutex τ := ⟨none⟩

def mutex_lock (m : Mutex τ) (t : τ) : Option (Mutex τ) := if m.owner.isNone then some ⟨some t⟩ else none

def mutex_unlock (_ : Mutex τ) : Mutex τ := ⟨none⟩

@[simp] theorem mutex_init_owner : (mutex_init : Mutex τ).owner = none := rfl

@[simp] theorem mutex_unlock_owner (m : Mutex τ) : m.mutex_unlock.owner = none := rfl

theorem mutex_lock_eq_none {m : Mutex τ} {t : τ} : m.mutex_lock t = none ↔ m.owner ≠ none := by
  cases h : m.owner <;> simp [mutex_lock, h]

theorem mutex_lock_eq_some {m m' : Mutex τ} {t : τ} :
    m.mutex_lock t = some m' ↔ m.owner = none ∧ m'.owner = some t := by
  cases h : m.owner <;> simp [mutex_lock, h, Mutex.ext_iff, eq_comm]

/-- The mutex is held by the thread that is inside its critical section. -/
def Held (m : Mutex τ) (inside : τ → Bool) : Prop := ∀ t, m.owner = some t ↔ inside t = true

/-- What a step of thread `t` does to the mutex and to whether `t` is inside: nothing, enter or leave. -/
def Moves (t : τ) (m m' : Mutex τ) (inside inside' : Bool) : Prop :=
  (m' = m ∧ inside' = inside) ∨
  (m.owner = none ∧ m'.owner = some t ∧ inside' = true) ∨
  (m'.owner = none ∧ inside = true ∧ inside' = false)

/-- Two threads are never inside together. -/
theorem Held.unique {m : Mutex τ} {inside : τ → Bool} {t u : τ} (h : m.Held inside) (ht : inside t = true)
    (hu : inside u = true) : t = u := by
  have hown := (h t).mpr ht
  rw [(h u).mpr hu] at hown
  exact (Option.some.inj hown).symm

theorem Held.step {m m' : Mutex τ} {inside inside' : τ → Bool} {t : τ} (h : m.Held inside)
    (hothers : ∀ u, u ≠ t → inside' u = inside u) (hstep : Moves t m m' (inside t) (inside' t)) : m'.Held inside' := by
  intro u
  by_cases hu : u = t
  · subst hu
    rcases hstep with ⟨hm, hin⟩ | ⟨-, hown, hin⟩ | ⟨hown, -, hin⟩
    · rw [hm, hin]
      exact h u
    · simp [hown, hin]
    · simp [hown, hin]
  · rw [hothers u hu]
    rcases hstep with ⟨hm, -⟩ | ⟨hfree, hown, -⟩ | ⟨hown, hin, -⟩
    · rw [hm]
      exact h u
    · have hout : inside u ≠ true := by
        rw [ne_eq, ← h u, hfree]
        exact nofun
      simp only [hown, Option.some.injEq, hout]
      exact ⟨fun heq => absurd heq.symm hu, fun hf => absurd hf (by simp)⟩
    · have hout : inside u ≠ true := fun hin' => hu (h.unique hin' hin)
      simp [hown, hout]

end Mutex

/-- `spinlock_t`: a mutex whose caller spins instead of sleeping. -/
abbrev Spinlock (τ : Type) := Mutex τ

namespace Spinlock

variable {τ : Type}

abbrev spin_lock_irqsave (l : Spinlock τ) (t : τ) : Option (Spinlock τ) := Mutex.mutex_lock l t

abbrev spin_unlock_irqrestore (l : Spinlock τ) : Spinlock τ := Mutex.mutex_unlock l

end Spinlock

end Armv8Driver.Kernel
