import Armv8Driver.Arm.Translation

/-!
# Address spaces

What translation tables are for, without the tables: a page of the input space has a frame with its attributes, or is
not mapped. Mapping a run of pages replaces whatever they had.
-/

namespace Arm

open Translation

structure Mapping where
  frame : Nat
  attributes : Attributes
  deriving DecidableEq

/-- The mappings of the pages, by their numbers. -/
def AddressSpace : Type := Nat → Option Mapping

namespace AddressSpace

variable {m : AddressSpace} {first first' count count' a : Nat} {f f' : Nat → Option Mapping}

def unmapped : AddressSpace := fun _ => none

/-- Page `k` of the run gets the mapping `f k`. -/
def map (m : AddressSpace) (first count : Nat) (f : Nat → Option Mapping) : AddressSpace := fun p =>
  if first ≤ p ∧ p < first + count then f (p - first) else m p

/-- The output of a mapping for an address in its page. -/
def Mapping.output (p : Mapping) (a : Nat) : Output := ⟨p.frame + a % 4096, p.attributes⟩

def translate (m : AddressSpace) (a : Nat) : Option Output := (m (a / 4096)).map fun p => Mapping.output p a

@[simp] theorem translate_unmapped (a : Nat) : unmapped.translate a = none := rfl

theorem translate_map_inside (h : first ≤ a / 4096 ∧ a / 4096 < first + count) :
    (m.map first count f).translate a = (f (a / 4096 - first)).map fun p => Mapping.output p a := by
  rw [translate, map, if_pos h]

theorem translate_map_outside (h : ¬ (first ≤ a / 4096 ∧ a / 4096 < first + count)) :
    (m.map first count f).translate a = m.translate a := by
  rw [translate, map, if_neg h]
  rfl

/-- Runs with no page in common may be mapped in either order. -/
theorem map_comm (h : ∀ p, ¬ ((first ≤ p ∧ p < first + count) ∧ first' ≤ p ∧ p < first' + count')) :
    (m.map first count f).map first' count' f' = (m.map first' count' f').map first count f := by
  funext p
  have hp := h p
  simp only [map]
  split_ifs with hlast hfirst
  · exact absurd ⟨hfirst, hlast⟩ hp
  · rfl
  · rfl
  · rfl

end AddressSpace

end Arm
