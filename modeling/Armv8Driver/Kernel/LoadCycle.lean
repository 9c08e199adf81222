import Armv8Driver.Kernel.Resource
import Armv8Driver.Transition.System

/-!
# Loading and unloading a module again and again

A module is its initialisation and its exit function, with what they acquire and release. A load that returns an error is
not unloaded. If each load that fails, and each load with the unload behind it, leaves nothing of its own, no number of them
leaves anything.
-/

namespace Armv8Driver.Kernel

open Transition

variable {ρ : Type} [DecidableEq ρ]

/-- What a call of the initialisation does: its return value, the static variables and the resources. -/
structure Load (σ ρ : Type) where
  ret : Int
  statics : σ
  log : List (ResourceEvent ρ)

/-- A module, whose initialisation is given what the kernel answers to its calls. -/
structure LoadableModule (σ κ ρ : Type) where
  init : κ → Load σ ρ
  exit : σ → List (ResourceEvent ρ)

namespace LoadableModule

variable {σ κ : Type} (M : LoadableModule σ κ ρ)

/-- `held` is `none` once an event has not been allowed. -/
structure State (σ ρ : Type) where
  loaded : Option σ
  held : Option (List ρ)

inductive Action (κ : Type) where
  | insmod (answers : κ)
  | rmmod

def step (s : State σ ρ) : Action κ → Option (State σ ρ)
  | .insmod answers =>
    match s.loaded with
    | some _ => none
    | none =>
      let load := M.init answers
      some ⟨if load.ret < 0 then none else some load.statics, s.held.bind fun held => heldAfter held load.log⟩
  | .rmmod =>
    match s.loaded with
    | none => none
    | some statics => some ⟨none, s.held.bind fun held => heldAfter held (M.exit statics)⟩

/-- Nothing is held before the first load. -/
def cycles : System (State σ ρ) (Action κ) where
  init s := s = ⟨none, some []⟩
  step := M.step

structure Balanced : Prop where
  failed : ∀ answers, (M.init answers).ret < 0 → heldAfter [] (M.init answers).log = some []
  unloaded : ∀ answers, ¬ (M.init answers).ret < 0 →
    heldAfter [] ((M.init answers).log ++ M.exit (M.init answers).statics) = some []

variable {M} {s t : State σ ρ}

/-- Between the loads nothing is held, and while the module is loaded what its load has left. -/
def Between (M : LoadableModule σ κ ρ) (s : State σ ρ) : Prop :=
  match s.loaded with
  | none => s.held = some []
  | some statics => ∃ answers, ¬ (M.init answers).ret < 0 ∧ statics = (M.init answers).statics ∧
      s.held = heldAfter [] (M.init answers).log

theorem Between.step (hb : M.Balanced) {a : Action κ} (hs : Between M s) (h : M.step s a = some t) : Between M t := by
  obtain ⟨loaded, held⟩ := s
  cases a with
  | insmod answers =>
    cases loaded with
    | some statics => cases h
    | none =>
      cases h
      have hheld : held = some [] := hs
      rw [hheld]
      by_cases hret : (M.init answers).ret < 0
      · simp only [Between, if_pos hret, Option.bind_some]
        exact hb.failed answers hret
      · simp only [Between, if_neg hret, Option.bind_some]
        exact ⟨answers, hret, rfl, rfl⟩
  | rmmod =>
    cases loaded with
    | none => cases h
    | some statics =>
      cases h
      obtain ⟨answers, hret, rfl, hheld⟩ := hs
      have hunloaded := hb.unloaded answers hret
      rw [heldAfter_append, ← hheld] at hunloaded
      exact hunloaded

/-- Over any loads and unloads nothing is released that is not held or acquired that is, and between them nothing
is held. -/
theorem Balanced.cycles (hb : M.Balanced) (hs : M.cycles.Reachable s) :
    s.held ≠ none ∧ (s.loaded = none → s.held = some []) := by
  have hbetween : Between M s := hs.invariant (fun s h => by rw [h]; rfl) fun _ _ _ hi h => hi.step hb h
  obtain ⟨loaded, held⟩ := s
  cases loaded with
  | none =>
    have hheld : held = some [] := hbetween
    exact ⟨by rw [hheld]; exact nofun, fun _ => hheld⟩
  | some statics =>
    obtain ⟨answers, hret, -, hheld⟩ := hbetween
    refine ⟨fun hnone => ?_, nofun⟩
    have hunloaded := hb.unloaded answers hret
    rw [heldAfter_append, ← hheld, show held = none from hnone] at hunloaded
    cases hunloaded

end LoadableModule

end Armv8Driver.Kernel
