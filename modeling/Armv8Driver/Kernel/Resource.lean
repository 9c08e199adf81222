import Mathlib.Data.List.Nodup
import Mathlib.Data.List.Perm.Basic

/-!
# Resources acquired and released

The log of what a piece of code acquires and releases, in order. What is held after it is defined only if each resource is
acquired while it is not held and released while it is.
-/

namespace Armv8Driver.Kernel

inductive ResourceEvent (ρ : Type) where
  | acquired (r : ρ)
  | released (r : ρ)
  deriving DecidableEq

variable {ρ : Type}

def acquired (log : List (ResourceEvent ρ)) : List ρ :=
  log.filterMap fun
    | .acquired r => some r
    | .released _ => none

def released (log : List (ResourceEvent ρ)) : List ρ :=
  log.filterMap fun
    | .released r => some r
    | .acquired _ => none

/-- Everything acquired has been released exactly once, and nothing else. -/
structure Unwound (log : List (ResourceEvent ρ)) : Prop where
  once : (acquired log).Nodup
  balanced : (released log).Perm (acquired log)

theorem acquired_append (log log' : List (ResourceEvent ρ)) : acquired (log ++ log') = acquired log ++ acquired log' :=
  List.filterMap_append

theorem released_append (log log' : List (ResourceEvent ρ)) : released (log ++ log') = released log ++ released log' :=
  List.filterMap_append

theorem acquired_released (rs : List ρ) : acquired (rs.map .released) = [] := by
  induction rs with
  | nil => rfl
  | cons r rs ih => exact ih

theorem released_released (rs : List ρ) : released (rs.map .released) = rs := by
  induction rs with
  | nil => rfl
  | cons r rs ih => exact congrArg (r :: ·) ih

/-! ### What is held -/

variable [DecidableEq ρ]

def ResourceEvent.apply (held : List ρ) : ResourceEvent ρ → Option (List ρ)
  | .acquired r => if r ∈ held then none else some (r :: held)
  | .released r => if r ∈ held then some (held.erase r) else none

/-- What is held after the events, unless one of them is not allowed. -/
def heldAfter (held : List ρ) : List (ResourceEvent ρ) → Option (List ρ)
  | [] => some held
  | e :: log => (e.apply held).bind fun held => heldAfter held log

theorem heldAfter_append (held : List ρ) (log log' : List (ResourceEvent ρ)) :
    heldAfter held (log ++ log') = (heldAfter held log).bind fun held => heldAfter held log' := by
  induction log generalizing held with
  | nil => rfl
  | cons e log ih =>
    rw [List.cons_append, heldAfter, heldAfter, Option.bind_assoc]
    exact congrArg _ (funext ih)

theorem heldAfter_acquired {rs held : List ρ} (h : (rs.reverse ++ held).Nodup) :
    heldAfter held (rs.map .acquired) = some (rs.reverse ++ held) := by
  induction rs generalizing held with
  | nil => rfl
  | cons r rs ih =>
    rw [List.reverse_cons, List.append_assoc, List.singleton_append] at h ⊢
    have hnew : r ∉ held := (List.nodup_cons.mp (List.nodup_append.mp h).2.1).1
    rw [List.map_cons, heldAfter, ResourceEvent.apply, if_neg hnew, Option.bind_some, ih h]

/-- In whatever order, all that is held can be released. -/
theorem heldAfter_released {rs held : List ρ} (h : rs.Perm held) : heldAfter held (rs.map .released) = some [] := by
  induction rs generalizing held with
  | nil =>
    rw [← h.nil_eq]
    rfl
  | cons r rs ih =>
    have hmem : r ∈ held := h.subset List.mem_cons_self
    have hrest : rs.Perm (held.erase r) := (List.perm_cons r).mp (h.trans (List.perm_cons_erase hmem))
    rw [List.map_cons, heldAfter, ResourceEvent.apply, if_pos hmem, Option.bind_some, ih hrest]

/-- Different resources, all released again. -/
theorem heldAfter_balanced {rs rs' : List ρ} (hrs : rs.Nodup) (h : rs'.Perm rs) :
    heldAfter [] (rs.map .acquired ++ rs'.map .released) = some [] := by
  have hacquired := @heldAfter_acquired ρ _ rs [] (by rwa [List.append_nil, List.nodup_reverse])
  rw [heldAfter_append, hacquired, Option.bind_some, List.append_nil]
  exact heldAfter_released (h.trans (List.reverse_perm rs).symm)

end Armv8Driver.Kernel
