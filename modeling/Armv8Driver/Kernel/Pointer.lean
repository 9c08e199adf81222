import Armv8Driver.Kernel.Primitives
import Mathlib.Data.Nat.Init

/-!
# Pointers that carry errors

What `linux/err.h` says about a pointer: it is null, an error code in disguise, or the address of
something. A test against null does not see the second kind.
-/

namespace Armv8Driver.Kernel

def MAX_ERRNO : Int := 4095

def ENODEV : Int := 19

def EBUSY : Int := 16

/-- What `ERR_PTR` takes. -/
abbrev ErrorCode := { e : Int // -MAX_ERRNO ≤ e ∧ e < 0 }

theorem ENOMEM_isErrno : -MAX_ERRNO ≤ -ENOMEM ∧ -ENOMEM < 0 := by decide

def noMemory : ErrorCode := ⟨-ENOMEM, ENOMEM_isErrno⟩

inductive Pointer (α : Type) where
  | null
  | err (e : ErrorCode)
  | addr (a : α)
  deriving DecidableEq

namespace Pointer

variable {α : Type}

def isNull : Pointer α → Bool
  | .null => true
  | _ => false

def IS_ERR : Pointer α → Bool
  | .err _ => true
  | _ => false

/-- The error code; it is asked of error pointers only. -/
def PTR_ERR : Pointer α → Int
  | .err e => e.val
  | _ => 0

/-- The pointer of a function that reports its errors in it. -/
def ofAnswer : Except ErrorCode α → Pointer α
  | .error e => .err e
  | .ok a => .addr a

@[simp] theorem isNull_ofAnswer (x : Except ErrorCode α) : (ofAnswer x).isNull = false := by cases x <;> rfl

end Pointer

/-- The return value of a function that has nothing but its errors to report. -/
def status : Except ErrorCode Unit → Int
  | .error e => e.val
  | .ok _ => 0

theorem status_error_ne_zero (e : ErrorCode) : status (.error e) ≠ 0 := Int.ne_of_lt e.2.2

end Armv8Driver.Kernel
