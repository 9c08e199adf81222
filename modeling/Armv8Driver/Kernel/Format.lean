/-!
# Formatted text

The conversions of the kernel's `printf` family that the drivers use. Arguments behind those that the
format string asks for are ignored.
-/

namespace Armv8Driver.Kernel

/-- An argument after the format string. -/
inductive Arg where
  | int (x : Int)
  | str (s : List Char)

/-- The conversion `%d`. -/
def decimal (x : Int) : List Char :=
  if x < 0 then '-' :: Nat.toDigits 10 x.natAbs else Nat.toDigits 10 x.natAbs

def format : List Char → List Arg → List Char
  | '%' :: 'd' :: fmt, .int x :: args => decimal x ++ format fmt args
  | '%' :: 's' :: fmt, .str s :: args => s ++ format fmt args
  | c :: fmt, args => c :: format fmt args
  | [], _ => []

/-- What `scnprintf` leaves of a text in a buffer of `size` characters, without the terminator. -/
def scnprintf (size : Nat) (s : List Char) : List Char := s.take (size - 1)

variable {c : Char} {fmt : List Char} {args : List Arg}

theorem format_text (h : c ≠ '%') : format (c :: fmt) args = c :: format fmt args := by
  rw [format]
  · intro _ _ _ _ hc
    exact absurd hc h
  · intro _ _ _ _ hc
    exact absurd hc h

/-- A format string without conversions is its own text, whatever the arguments. -/
theorem format_of_no_conversion (h : '%' ∉ fmt) : format fmt args = fmt := by
  induction fmt with
  | nil => rw [format]
  | cons c fmt ih =>
    rw [List.mem_cons, not_or] at h
    rw [format_text (Ne.symm h.1), ih h.2]

theorem scnprintf_eq {size : Nat} {s : List Char} (h : s.length < size) : scnprintf size s = s :=
  List.take_of_length_le (Nat.le_sub_one_of_lt h)

end Armv8Driver.Kernel
