import Mathlib.Data.List.Basic
import Armv8Driver.Transition.System

/-!
# Systems with a log

What a run has done so far is not in general a function of the state it has reached. `logged` pairs a
system with the list of the events that its steps report, oldest first; it has the same runs, and each
run has one log.
-/

namespace Transition

namespace System

universe u v w

variable {σ : Type u} {α : Type v} {ε : Type w}

/-- The system with the log of its events. `event` is the event of a step from the state before it. -/
def logged (M : System σ α) (event : σ → α → Option ε) : System (σ × List ε) α where
  init x := M.init x.1 ∧ x.2 = []
  step x a := (M.step x.1 a).map fun t => (t, x.2 ++ (event x.1 a).toList)

variable {M : System σ α} {event : σ → α → Option ε} {ok : σ → α → Prop} {x y : σ × List ε} {s t : σ} {a : α}

theorem logged_step : (M.logged event).step x a = some y ↔
    M.step x.1 a = some y.1 ∧ y.2 = x.2 ++ (event x.1 a).toList := by
  simp only [logged, Option.map_eq_some_iff]
  constructor
  · rintro ⟨w, hw, rfl⟩
    exact ⟨hw, rfl⟩
  · rintro ⟨hstep, hlog⟩
    exact ⟨y.1, hstep, Prod.ext rfl hlog.symm⟩

theorem Steps.forget (h : (M.logged event).Steps (fun x a => ok x.1 a) x y) : M.Steps ok x.1 y.1 := by
  induction h with
  | refl => exact .refl
  | tail _ hok hstep ih => exact .tail ih hok (logged_step.mp hstep).1

/-- Each run has a log. -/
theorem Steps.remember (h : M.Steps ok s t) (log : List ε) :
    ∃ more, (M.logged event).Steps (fun x a => ok x.1 a) (s, log) (t, log ++ more) := by
  induction h with
  | refl => exact ⟨[], by rw [List.append_nil]; exact .refl⟩
  | @tail t w a _ hok hstep ih =>
    obtain ⟨more, hrun⟩ := ih
    refine ⟨more ++ (event t a).toList, .tail hrun hok (logged_step.mpr ⟨hstep, ?_⟩)⟩
    rw [List.append_assoc]

theorem ReachableUnder.forget (h : (M.logged event).ReachableUnder (fun x a => ok x.1 a) x) :
    M.ReachableUnder ok x.1 := by
  obtain ⟨x₀, hinit, hrun⟩ := h
  exact ⟨x₀.1, hinit.1, hrun.forget⟩

theorem ReachableUnder.remember (h : M.ReachableUnder ok s) :
    ∃ log, (M.logged event).ReachableUnder (fun x a => ok x.1 a) (s, log) := by
  obtain ⟨s₀, hinit, hrun⟩ := h
  obtain ⟨log, hlog⟩ : ∃ log, (M.logged event).Steps (fun x a => ok x.1 a) (s₀, []) (s, [] ++ log) :=
    hrun.remember []
  exact ⟨log, (s₀, []), ⟨hinit, rfl⟩, hlog⟩

/-- What holds of an initial state and no events, and what each allowed step of a run keeps together with
its event, holds of every state and its log. -/
theorem ReachableUnder.log_invariant {I : σ → List ε → Prop}
    (h : (M.logged event).ReachableUnder (fun x a => ok x.1 a) x) (h0 : ∀ s, M.init s → I s [])
    (hstep : ∀ s log a t, (M.logged event).ReachableUnder (fun x a => ok x.1 a) (s, log) → I s log → ok s a →
      M.step s a = some t → I t (log ++ (event s a).toList)) : I x.1 x.2 := by
  obtain ⟨x₀, ⟨hinit, hlog⟩, hrun⟩ := h
  have hx₀ : (M.logged event).init x₀ := ⟨hinit, hlog⟩
  induction hrun with
  | refl => exact hlog ▸ h0 _ hinit
  | tail hpre hok hstep' ih =>
    obtain ⟨hy, hlog'⟩ := logged_step.mp hstep'
    exact hlog' ▸ hstep _ _ _ _ ⟨x₀, hx₀, hpre⟩ ih hok hy

theorem Reachable.forget (h : (M.logged event).Reachable x) : M.Reachable x.1 := by
  have hany : (M.logged event).ReachableUnder (fun x a => Any x.1 a) x := h
  exact hany.forget

theorem Reachable.log_invariant {I : σ → List ε → Prop} (h : (M.logged event).Reachable x) (h0 : ∀ s, M.init s → I s [])
    (hstep : ∀ s log a t, (M.logged event).Reachable (s, log) → I s log → M.step s a = some t →
      I t (log ++ (event s a).toList)) : I x.1 x.2 := by
  have hany : (M.logged event).ReachableUnder (fun x a => Any x.1 a) x := h
  exact hany.log_invariant h0 fun s log a t hs hi _ => hstep s log a t hs hi

end System

/-- `zs` is `xs` and `ys` merged, the order of each kept: two sources write to one log, at its end. -/
inductive Shuffle {α : Type*} : List α → List α → List α → Prop where
  | nil : Shuffle [] [] []
  | left {xs ys zs : List α} (x : α) (h : Shuffle xs ys zs) : Shuffle (xs ++ [x]) ys (zs ++ [x])
  | right {xs ys zs : List α} (y : α) (h : Shuffle xs ys zs) : Shuffle xs (ys ++ [y]) (zs ++ [y])

end Transition
