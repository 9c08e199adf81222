import Mathlib.Data.Nat.Init
import Mathlib.Order.Basic

/-!
# Transition systems with an executable step

A system is a predicate for its initial states and a partial step function: an action that is
disabled in a state gives `none`. A run is a chain of steps. `Steps ok` restricts a run to the steps
whose state and action meet a condition, so "in every run that meets `ok`" is one induction here and a
step lemma at each use.
-/

namespace Transition

universe u v

variable {σ : Type u} {α : Type v}

structure System (σ : Type u) (α : Type v) where
  init : σ → Prop
  step : σ → α → Option σ

namespace System

variable (M : System σ α) {ok ok' : σ → α → Prop} {s t w : σ} {a : α}

/-- Runs from one state to another, each of whose steps meets `ok` in the state before it. -/
inductive Steps (ok : σ → α → Prop) (s : σ) : σ → Prop where
  | refl : Steps ok s s
  | tail {t w : σ} {a : α} : Steps ok s t → ok t a → M.step t a = some w → Steps ok s w

/-- The condition every step meets. -/
def Any : σ → α → Prop := fun _ _ => True

def ReachableUnder (ok : σ → α → Prop) (s : σ) : Prop := ∃ s₀, M.init s₀ ∧ M.Steps ok s₀ s

def Reachable (s : σ) : Prop := M.ReachableUnder Any s

/-- No action that meets `ok` is enabled. -/
def Stuck (ok : σ → α → Prop) (s : σ) : Prop := ∀ a, ok s a → M.step s a = none

/-- The state after a list of actions, if all of them are enabled in turn. -/
def run (s : σ) : List α → Option σ
  | [] => some s
  | a :: rest => (M.step s a).bind fun t => run t rest

/-- Every step of the run along a list of actions meets a condition. -/
def Along (P : σ → α → Prop) (s : σ) : List α → Prop
  | [] => True
  | a :: rest => P s a ∧ ∀ t, M.step s a = some t → Along P t rest

/-- The steps along a list of actions that are counted. -/
def countAlong (p : σ → α → Bool) (s : σ) : List α → ℕ
  | [] => 0
  | a :: rest => (p s a).toNat + (M.step s a).elim 0 fun t => countAlong p t rest

/-- The system cut down to the steps that pass a check. -/
def checked (p : σ → α → Bool) : System σ α where
  init := M.init
  step s a := if p s a then M.step s a else none

variable {M}

/-- A step that always goes on once its first part has succeeded is disabled by that part only. -/
theorem eq_none_of_bind {β γ : Type*} {x : Option β} {f : β → Option γ} (h : x.bind f = none)
    (hf : ∀ b, f b ≠ none) : x = none := by
  by_contra hen
  obtain ⟨b, hb⟩ := Option.ne_none_iff_exists'.mp hen
  rw [hb] at h
  exact hf b h

theorem Steps.single (hok : ok s a) (hstep : M.step s a = some t) : M.Steps ok s t :=
  .tail .refl hok hstep

theorem Steps.trans (hst : M.Steps ok s t) (htw : M.Steps ok t w) : M.Steps ok s w := by
  induction htw with
  | refl => exact hst
  | tail _ hok hstep ih => exact .tail ih hok hstep

theorem Steps.mono (himp : ∀ s a, ok s a → ok' s a) (h : M.Steps ok s t) : M.Steps ok' s t := by
  induction h with
  | refl => exact .refl
  | tail _ hok hstep ih => exact .tail ih (himp _ _ hok) hstep

theorem Steps.any (h : M.Steps ok s t) : M.Steps Any s t := h.mono fun _ _ _ => trivial

/-- What every allowed step preserves holds at the end of a run. -/
theorem Steps.invariant {I : σ → Prop} (h : M.Steps ok s t) (h0 : I s)
    (hstep : ∀ s a t, I s → ok s a → M.step s a = some t → I t) : I t := by
  induction h with
  | refl => exact h0
  | tail _ hok hs ih => exact hstep _ _ _ ih hok hs

theorem Steps.of_run {acts : List α} (hok : ∀ a ∈ acts, ∀ s, ok s a) (hrun : M.run s acts = some t) :
    M.Steps ok s t := by
  induction acts generalizing s with
  | nil =>
    cases hrun
    exact .refl
  | cons a rest ih =>
    obtain ⟨w, hw, hrest⟩ := Option.bind_eq_some_iff.mp hrun
    have hfirst : M.Steps ok s w := .single (hok a List.mem_cons_self s) hw
    exact hfirst.trans (ih (fun b hb => hok b (List.mem_cons_of_mem a hb)) hrest)

theorem Steps.of_checked {p : σ → α → Bool} {acts : List α} (hp : ∀ s a, p s a = true → ok s a)
    (hrun : (M.checked p).run s acts = some t) : M.Steps ok s t := by
  induction acts generalizing s with
  | nil =>
    cases hrun
    exact .refl
  | cons a rest ih =>
    obtain ⟨w, hw, hrest⟩ := Option.bind_eq_some_iff.mp hrun
    obtain ⟨hcheck, hstep⟩ := Option.ite_none_right_eq_some.mp hw
    have hfirst : M.Steps ok s w := .single (hp s a hcheck) hstep
    exact hfirst.trans (ih hrest)

theorem Along.mono {P Q : σ → α → Prop} {acts : List α} (hPQ : ∀ s a, P s a → Q s a) (h : M.Along P s acts) :
    M.Along Q s acts := by
  induction acts generalizing s with
  | nil => trivial
  | cons a rest ih => exact ⟨hPQ s a h.1, fun t ht => ih (h.2 t ht)⟩

/-- What follows from an invariant holds at every step of a run. -/
theorem Along.of_invariant {P : σ → α → Prop} {I : σ → Prop} {acts : List α} (hP : ∀ s a, I s → P s a)
    (hI : ∀ s a t, I s → M.step s a = some t → I t) (hs : I s) : M.Along P s acts := by
  induction acts generalizing s with
  | nil => trivial
  | cons a rest ih => exact ⟨hP s a hs, fun t ht => ih (hI s a t hs ht)⟩

theorem Along.append_iff {P : σ → α → Prop} {first rest : List α} :
    M.Along P s (first ++ rest) ↔ M.Along P s first ∧ ∀ t, M.run s first = some t → M.Along P t rest := by
  induction first generalizing s with
  | nil => simp [Along, run]
  | cons a first ih =>
    have hrun : ∀ t, M.run s (a :: first) = some t ↔ ∃ w, M.step s a = some w ∧ M.run w first = some t := by
      intro t
      exact Option.bind_eq_some_iff
    simp only [List.cons_append, Along, hrun]
    constructor
    · rintro ⟨hp, hrest⟩
      refine ⟨⟨hp, fun w hw => (ih.mp (hrest w hw)).1⟩, ?_⟩
      rintro t ⟨w, hw, ht⟩
      exact (ih.mp (hrest w hw)).2 t ht
    · rintro ⟨⟨hp, hfirst⟩, hrest⟩
      exact ⟨hp, fun w hw => ih.mpr ⟨hfirst w hw, fun t ht => hrest t ⟨w, hw, ht⟩⟩⟩

/-- Two conditions agree along a run if they agree in each state where `I` holds and, where they hold,
the step keeps `I`. -/
theorem Along.congr {P Q : σ → α → Prop} {I : σ → Prop} {acts : List α}
    (hPQ : ∀ s, I s → ∀ a ∈ acts, (P s a ↔ Q s a))
    (hI : ∀ s, I s → ∀ a ∈ acts, Q s a → ∀ t, M.step s a = some t → I t) (hs : I s) :
    M.Along P s acts ↔ M.Along Q s acts := by
  induction acts generalizing s with
  | nil => exact Iff.rfl
  | cons a rest ih =>
    have hmem : a ∈ a :: rest := List.mem_cons_self
    have hrest : ∀ b ∈ rest, b ∈ a :: rest := fun b hb => List.mem_cons_of_mem a hb
    have htail : ∀ t, Q s a → M.step s a = some t → (M.Along P t rest ↔ M.Along Q t rest) := by
      intro t hq ht
      apply ih
      · exact fun s hs b hb => hPQ s hs b (hrest b hb)
      · exact fun s hs b hb => hI s hs b (hrest b hb)
      · exact hI s hs a hmem hq t ht
    constructor
    · rintro ⟨hp, hp'⟩
      have hq := (hPQ s hs a hmem).mp hp
      exact ⟨hq, fun t ht => (htail t hq ht).mp (hp' t ht)⟩
    · rintro ⟨hq, hq'⟩
      exact ⟨(hPQ s hs a hmem).mpr hq, fun t ht => (htail t hq ht).mpr (hq' t ht)⟩

theorem Along.cons_iff {P : σ → α → Prop} {rest : List α} (hstep : M.step s a = some w) :
    M.Along P s (a :: rest) ↔ P s a ∧ M.Along P w rest := by
  have honly : (∀ u, M.step s a = some u → M.Along P u rest) ↔ M.Along P w rest := by
    rw [hstep]
    exact ⟨fun h => h w rfl, fun h u hu => Option.some.inj hu ▸ h⟩
  rw [Along, honly]

/-- A condition on the actions alone. -/
theorem Along.forall_mem_iff {Q : α → Prop} {acts : List α} (hrun : M.run s acts = some t) :
    M.Along (fun _ a => Q a) s acts ↔ ∀ a ∈ acts, Q a := by
  induction acts generalizing s with
  | nil => exact iff_of_true trivial nofun
  | cons a rest ih =>
    obtain ⟨w, hw, hrest⟩ := Option.bind_eq_some_iff.mp hrun
    rw [Along.cons_iff hw, ih hrest, List.forall_mem_cons]

/-- What one step has to meet may show only in a later one: `D` is what is owed in a state. A run meets `P`
and owes nothing exactly if it owed nothing and meets `Q`, if that is so of every single step while `I` holds. -/
theorem Along.deferred {P Q : σ → α → Prop} {I D : σ → Prop} {acts : List α}
    (hstep : ∀ s a t, I s → M.step s a = some t → I t ∧ (P s a ∧ D t ↔ D s ∧ Q s a)) (hs : I s)
    (hrun : M.run s acts = some t) : M.Along P s acts ∧ D t ↔ D s ∧ M.Along Q s acts := by
  induction acts generalizing s with
  | nil =>
    cases hrun
    exact ⟨fun h => ⟨h.2, trivial⟩, fun h => ⟨trivial, h.1⟩⟩
  | cons a rest ih =>
    obtain ⟨w, hw, hrest⟩ := Option.bind_eq_some_iff.mp hrun
    obtain ⟨hiw, hpq⟩ := hstep s a w hs hw
    rw [Along.cons_iff hw, Along.cons_iff hw, and_assoc, ih hiw hrest, ← and_assoc, hpq, and_assoc]

/-- A run ends in `P` exactly if it starts there and each of its steps is allowed, if that is what
every single step does while `I` holds. -/
theorem Along.run_iff {I P : σ → Prop} {acts : List α}
    (hstep : ∀ s a t, I s → M.step s a = some t → I t ∧ (P t ↔ P s ∧ ok s a)) (hs : I s)
    (hrun : M.run s acts = some t) : P t ↔ P s ∧ M.Along ok s acts := by
  have hdeferred := Along.deferred (P := fun _ _ => True) (Q := ok) (D := P)
    (fun s a t hs h => (hstep s a t hs h).imp_right fun hpt => (and_iff_right trivial).trans hpt) hs hrun
  have htrue : M.Along (fun _ _ => True) s acts := (Along.forall_mem_iff hrun).mpr fun _ _ => trivial
  rw [← hdeferred, and_iff_right htrue]

theorem ReachableUnder.init (h : M.init s) : M.ReachableUnder ok s := ⟨s, h, .refl⟩

theorem ReachableUnder.steps (hs : M.ReachableUnder ok s) (hst : M.Steps ok s t) : M.ReachableUnder ok t := by
  obtain ⟨s₀, h0, hrun⟩ := hs
  exact ⟨s₀, h0, hrun.trans hst⟩

theorem ReachableUnder.mono (himp : ∀ s a, ok s a → ok' s a) (hs : M.ReachableUnder ok s) : M.ReachableUnder ok' s := by
  obtain ⟨s₀, h0, hrun⟩ := hs
  exact ⟨s₀, h0, hrun.mono himp⟩

theorem ReachableUnder.step (hs : M.ReachableUnder ok s) (hok : ok s a) (hstep : M.step s a = some t) :
    M.ReachableUnder ok t :=
  hs.steps (.single hok hstep)

theorem ReachableUnder.reachable (hs : M.ReachableUnder ok s) : M.Reachable s := by
  obtain ⟨s₀, h0, hrun⟩ := hs
  exact ⟨s₀, h0, hrun.any⟩

/-- What holds initially and is preserved by every allowed step holds in every state reached. -/
theorem ReachableUnder.invariant {I : σ → Prop} (hs : M.ReachableUnder ok s) (h0 : ∀ s, M.init s → I s)
    (hstep : ∀ s a t, I s → ok s a → M.step s a = some t → I t) : I s := by
  obtain ⟨s₀, hinit, hrun⟩ := hs
  exact hrun.invariant (h0 s₀ hinit) hstep

theorem Reachable.init (h : M.init s) : M.Reachable s := ReachableUnder.init h

theorem Reachable.step (hs : M.Reachable s) (hstep : M.step s a = some t) : M.Reachable t :=
  ReachableUnder.step hs trivial hstep

theorem Reachable.steps (hs : M.Reachable s) (hst : M.Steps ok s t) : M.Reachable t :=
  ReachableUnder.steps hs hst.any

theorem Reachable.invariant {I : σ → Prop} (hs : M.Reachable s) (h0 : ∀ s, M.init s → I s)
    (hstep : ∀ s a t, I s → M.step s a = some t → I t) : I s :=
  ReachableUnder.invariant hs h0 fun s a t hi _ h => hstep s a t hi h

theorem ReachableUnder.of_run {acts : List α} (hs : M.init s) (hok : ∀ a ∈ acts, ∀ s, ok s a)
    (hrun : M.run s acts = some t) : M.ReachableUnder ok t :=
  ⟨s, hs, .of_run hok hrun⟩

/-- A measure that every allowed step lowers, while `I` holds, leads to a state with no allowed step. -/
theorem exists_stuck {I : σ → Prop} (μ : σ → ℕ)
    (hstep : ∀ s a t, I s → ok s a → M.step s a = some t → I t ∧ μ t < μ s) (hs : I s) :
    ∃ t, M.Steps ok s t ∧ I t ∧ M.Stuck ok t := by
  induction hn : μ s using Nat.strong_induction_on generalizing s with
  | _ n ih =>
    by_cases hstuck : M.Stuck ok s
    · exact ⟨s, .refl, hs, hstuck⟩
    · simp only [Stuck, not_forall] at hstuck
      obtain ⟨a, hok, hen⟩ := hstuck
      obtain ⟨w, hw⟩ := Option.ne_none_iff_exists'.mp hen
      obtain ⟨hi, hlt⟩ := hstep s a w hs hok hw
      obtain ⟨t, hrun, ht⟩ := ih (μ w) (hn ▸ hlt) hi rfl
      exact ⟨t, (Steps.single hok hw).trans hrun, ht⟩

/-! ### Steps that a measure counts -/

theorem countAlong_cons {p : σ → α → Bool} (h : M.step s a = some t) (rest : List α) :
    M.countAlong p s (a :: rest) = (p s a).toNat + M.countAlong p t rest := by
  rw [countAlong, h, Option.elim_some]

theorem countAlong_true {acts : List α} (hrun : M.run s acts = some t) :
    M.countAlong (fun _ _ => true) s acts = acts.length := by
  induction acts generalizing s with
  | nil => rfl
  | cons a rest ih =>
    obtain ⟨w, hw, hrest⟩ := Option.bind_eq_some_iff.mp hrun
    rw [countAlong_cons hw, ih hrest, Bool.toNat_true, List.length_cons, Nat.add_comm]

/-- A measure that the counted steps lower, and no step raises, bounds how many there are. -/
theorem count_add_le_of_run {I : σ → Prop} {p : σ → α → Bool} (μ : σ → ℕ) {acts : List α}
    (hstep : ∀ s a t, I s → M.step s a = some t → I t ∧ (p s a).toNat + μ t ≤ μ s) (hs : I s)
    (hrun : M.run s acts = some t) : I t ∧ M.countAlong p s acts + μ t ≤ μ s := by
  induction acts generalizing s with
  | nil =>
    cases hrun
    exact ⟨hs, Nat.le_of_eq (Nat.zero_add _)⟩
  | cons a rest ih =>
    obtain ⟨w, hw, hrest⟩ := Option.bind_eq_some_iff.mp hrun
    obtain ⟨hi, hle⟩ := hstep s a w hs hw
    obtain ⟨hit, hcount⟩ := ih hi hrest
    rw [countAlong_cons hw]
    exact ⟨hit, by omega⟩

/-- A measure that the counted steps lower by one, and the others leave, says how many there are. -/
theorem count_add_eq_of_run {I : σ → Prop} {p : σ → α → Bool} (μ : σ → ℕ) {acts : List α}
    (hstep : ∀ s a t, I s → M.step s a = some t → I t ∧ (p s a).toNat + μ t = μ s) (hs : I s)
    (hrun : M.run s acts = some t) : I t ∧ M.countAlong p s acts + μ t = μ s := by
  induction acts generalizing s with
  | nil =>
    cases hrun
    exact ⟨hs, Nat.zero_add _⟩
  | cons a rest ih =>
    obtain ⟨w, hw, hrest⟩ := Option.bind_eq_some_iff.mp hrun
    obtain ⟨hi, heq⟩ := hstep s a w hs hw
    obtain ⟨hit, hcount⟩ := ih hi hrest
    rw [countAlong_cons hw]
    exact ⟨hit, by omega⟩

/-- A measure that every step lowers, while `I` holds, bounds the length of the runs. -/
theorem length_add_le_of_run {I : σ → Prop} (μ : σ → ℕ) {acts : List α}
    (hstep : ∀ s a t, I s → M.step s a = some t → I t ∧ μ t < μ s) (hs : I s) (hrun : M.run s acts = some t) :
    I t ∧ acts.length + μ t ≤ μ s := by
  rw [← countAlong_true hrun]
  refine count_add_le_of_run μ (fun s a t hi h => ?_) hs hrun
  obtain ⟨ht, hlt⟩ := hstep s a t hi h
  exact ⟨ht, by rw [Bool.toNat_true]; omega⟩

/-- A measure that every step lowers by one counts the steps. -/
theorem length_add_eq_of_run {I : σ → Prop} (μ : σ → ℕ) {acts : List α}
    (hstep : ∀ s a t, I s → M.step s a = some t → I t ∧ μ t + 1 = μ s) (hs : I s) (hrun : M.run s acts = some t) :
    I t ∧ acts.length + μ t = μ s := by
  rw [← countAlong_true hrun]
  refine count_add_eq_of_run μ (fun s a t hi h => ?_) hs hrun
  obtain ⟨ht, heq⟩ := hstep s a t hi h
  exact ⟨ht, by rw [Bool.toNat_true]; omega⟩

end System

end Transition
