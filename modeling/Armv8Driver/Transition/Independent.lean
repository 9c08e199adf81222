import Armv8Driver.Transition.System
import Mathlib.Data.List.Count
import Mathlib.Data.Set.Basic
import Mathlib.Logic.Function.Basic

/-!
# Threads that share a memory and no place in it

A thread is a system over a state of its own and the memory. If no thread writes where another one reads or writes, then
in every interleaving each of them does what it does alone, on the memory as it was at first, and leaves what it leaves
alone.
-/

namespace Transition

universe u v w x y

variable {κ : Type u} {ι : Type v} {β : Type w} {σ : Type x} {α : Type y}

/-- The thread reads and writes only places of `F`, and writes only places of `W`. -/
structure Confined (T : System (σ × (ι → β)) α) (F W : Set ι) : Prop where
  writes : ∀ {s m a s' m'}, T.step (s, m) a = some (s', m') → ∀ x ∉ W, m' x = m x
  reads : ∀ {s m n a s' m'}, (∀ x ∈ F, m x = n x) → T.step (s, m) a = some (s', m') →
    ∃ n', T.step (s, n) a = some (s', n') ∧ ∀ x ∈ F, m' x = n' x

variable [DecidableEq κ]

def interleave (T : κ → System (σ × (ι → β)) α) : System ((κ → σ) × (ι → β)) (κ × α) where
  init s := ∀ i, (T i).init (s.1 i, s.2)
  step s a := ((T a.1).step (s.1 a.1, s.2) a.2).map fun r => (Function.update s.1 a.1 r.1, r.2)

/-- The steps of one thread. -/
def own (i : κ) (acts : List (κ × α)) : List α := acts.filterMap fun a => if a.1 = i then some a.2 else none

theorem own_cons_self (i : κ) (a : α) (acts : List (κ × α)) : own i ((i, a) :: acts) = a :: own i acts :=
  List.filterMap_cons_some (if_pos rfl)

theorem own_cons_of_ne {i j : κ} (h : j ≠ i) (a : α) (acts : List (κ × α)) : own i ((j, a) :: acts) = own i acts :=
  List.filterMap_cons_none (if_neg h)

/-- Every thread makes the same step, in some order. -/
theorem own_map_eq (i : κ) (a : α) (order : List κ) :
    own i (order.map fun j => (j, a)) = List.replicate (order.count i) a := by
  induction order with
  | nil => rfl
  | cons j order ih =>
    by_cases hj : j = i
    · rw [hj, List.map_cons, own_cons_self, ih, List.count_cons_self, List.replicate_succ]
    · rw [List.map_cons, own_cons_of_ne hj, ih, List.count_cons_of_ne hj]

variable {T : κ → System (σ × (ι → β)) α} {F W : κ → Set ι} {l l' : κ → σ} {m m' n : ι → β} {acts : List (κ × α)}

theorem Confined.run {T : System (σ × (ι → β)) α} {F W : Set ι} (hc : Confined T F W) {acts : List α} {s s' : σ}
    (h : ∀ x ∈ F, m x = n x) (hrun : T.run (s, m) acts = some (s', m')) :
    ∃ n', T.run (s, n) acts = some (s', n') ∧ ∀ x ∈ F, m' x = n' x := by
  induction acts generalizing s m n with
  | nil =>
    cases hrun
    exact ⟨n, rfl, h⟩
  | cons a acts ih =>
    obtain ⟨⟨s₁, m₁⟩, hstep, hrest⟩ := Option.bind_eq_some_iff.mp hrun
    obtain ⟨n₁, hstep', h₁⟩ := hc.reads h hstep
    obtain ⟨n', hrest', h'⟩ := ih h₁ hrest
    exact ⟨n', Option.bind_eq_some_iff.mpr ⟨_, hstep', hrest'⟩, h'⟩

section Independent

variable (hc : ∀ i, Confined (T i) (F i) (W i)) (hrun : (interleave T).run (l, m) acts = some (l', m'))

include hc hrun in
theorem interleave_outside {x : ι} (hx : ∀ i, x ∉ W i) : m' x = m x := by
  induction acts generalizing l m with
  | nil =>
    cases hrun
    rfl
  | cons a acts ih =>
    obtain ⟨y, hstep, hrest⟩ := Option.bind_eq_some_iff.mp hrun
    obtain ⟨⟨s₁, m₁⟩, hown, hy⟩ := Option.map_eq_some_iff.mp hstep
    subst hy
    exact (ih hrest).trans ((hc a.1).writes hown x (hx a.1))

include hc hrun in
/-- What a thread does and leaves is what it does and leaves alone. -/
theorem interleave_alone (hindependent : ∀ i j, i ≠ j → ∀ x ∈ W i, x ∉ F j) (i : κ) :
    ∃ mᵢ, (T i).run (l i, m) (own i acts) = some (l' i, mᵢ) ∧ ∀ x ∈ F i, mᵢ x = m' x := by
  induction acts generalizing l m with
  | nil =>
    cases hrun
    exact ⟨_, rfl, fun _ _ => rfl⟩
  | cons a acts ih =>
    obtain ⟨j, a⟩ := a
    obtain ⟨y, hstep, hrest⟩ := Option.bind_eq_some_iff.mp hrun
    obtain ⟨⟨s₁, m₁⟩, hown, hy⟩ := Option.map_eq_some_iff.mp hstep
    subst hy
    obtain ⟨mᵢ, halone, hsame⟩ := ih hrest
    by_cases hj : j = i
    · subst hj
      rw [Function.update_self] at halone
      rw [own_cons_self]
      exact ⟨mᵢ, Option.bind_eq_some_iff.mpr ⟨_, hown, halone⟩, hsame⟩
    · rw [Function.update_of_ne (Ne.symm hj)] at halone
      have hkept : ∀ x ∈ F i, m₁ x = m x := fun x hx =>
        (hc j).writes hown x fun hw => hindependent j i hj x hw hx
      obtain ⟨n', halone', hsame'⟩ := (hc i).run hkept halone
      rw [own_cons_of_ne hj]
      exact ⟨n', halone', fun x hx => (hsame' x hx).symm.trans (hsame x hx)⟩

end Independent

end Transition
