import Armv8Driver.Kernel.Format
import Mathlib.Algebra.Group.Nat.Defs
import Mathlib.Data.List.TakeWhile

/-!
# Formatted text, read back

A parser that is given the format string a text has been written with: `sscanf` for texts without a character too many. A
number ends at the first character that is no digit, so that the format string has to have one behind each conversion.
-/

namespace Armv8Driver.Kernel

def scanNat (text : List Char) : Option (Nat × List Char) :=
  if text.takeWhile Char.isDigit = [] then none
  else some (Nat.ofDigitChars 10 (text.takeWhile Char.isDigit) 0, text.dropWhile Char.isDigit)

/-- The conversion `%d`. -/
def scanInt : List Char → Option (Int × List Char)
  | '-' :: text => (scanNat text).map fun r => (-(r.1 : Int), r.2)
  | text => (scanNat text).map fun r => ((r.1 : Int), r.2)

def scan : List Char → List Char → Option (List Int)
  | '%' :: 'd' :: fmt, text => (scanInt text).bind fun r => (scan fmt r.2).map (r.1 :: ·)
  | c :: fmt, c' :: text => if c = c' then scan fmt text else none
  | [], [] => some []
  | _, _ => none

/-- A number ends before this text. -/
def EndsNumber (text : List Char) : Prop := ∀ c ∈ text.head?, c.isDigit = false

/-- The only conversions are `%d`, and none is followed by a digit or by another one. -/
def separated : List Char → Bool
  | '%' :: 'd' :: fmt => fmt.head?.all (fun c => !c.isDigit && c ≠ '%') && separated fmt
  | c :: fmt => c ≠ '%' && separated fmt
  | [] => true

/-- The number of the conversions. -/
def conversions : List Char → Nat
  | '%' :: 'd' :: fmt => conversions fmt + 1
  | _ :: fmt => conversions fmt
  | [] => 0

variable {c : Char} {n : Nat} {fmt text : List Char} {xs : List Int}

theorem EndsNumber.takeWhile (h : EndsNumber text) : text.takeWhile Char.isDigit = [] := by
  cases text with
  | nil => rfl
  | cons c text => exact List.takeWhile_cons_of_neg (Bool.eq_false_iff.mp (h c rfl))

theorem EndsNumber.dropWhile (h : EndsNumber text) : text.dropWhile Char.isDigit = text := by
  cases text with
  | nil => rfl
  | cons c text => exact List.dropWhile_cons_of_neg (Bool.eq_false_iff.mp (h c rfl))

theorem scanNat_digits (h : EndsNumber text) : scanNat (Nat.toDigits 10 n ++ text) = some (n, text) := by
  have hdigits : ∀ c ∈ Nat.toDigits 10 n, c.isDigit = true := fun c hc =>
    Nat.isDigit_of_mem_toDigits (by decide) (by decide) hc
  have htake : (Nat.toDigits 10 n ++ text).takeWhile Char.isDigit = Nat.toDigits 10 n := by
    rw [List.takeWhile_append_of_pos hdigits, h.takeWhile, List.append_nil]
  have hdrop : (Nat.toDigits 10 n ++ text).dropWhile Char.isDigit = text := by
    rw [List.dropWhile_append_of_pos hdigits, h.dropWhile]
  rw [scanNat, htake, hdrop, if_neg Nat.toDigits_ne_nil, Nat.ofDigitChars_ten_toDigits]

theorem scanInt_of_ne (h : text.head? ≠ some '-') : scanInt text = (scanNat text).map fun r => ((r.1 : Int), r.2) := by
  cases text with
  | nil => rfl
  | cons c text =>
    rw [scanInt]
    intro rest heq
    cases heq
    exact h rfl

theorem digits_head_ne (n : Nat) (text : List Char) : (Nat.toDigits 10 n ++ text).head? ≠ some '-' := by
  intro heq
  rw [List.head?_append, List.head?_eq_some_head Nat.toDigits_ne_nil, Option.some_or] at heq
  have hmem : '-' ∈ Nat.toDigits 10 n := Option.some.inj heq ▸ List.head_mem Nat.toDigits_ne_nil
  have hdigit := Nat.isDigit_of_mem_toDigits (by decide) (by decide) hmem
  exact absurd hdigit (by decide)

theorem scanInt_decimal (x : Int) (h : EndsNumber text) : scanInt (decimal x ++ text) = some (x, text) := by
  rw [decimal]
  split_ifs with hneg
  · rw [List.cons_append, scanInt, scanNat_digits h, Option.map_some]
    congr 2
    omega
  · rw [scanInt_of_ne (digits_head_ne _ _), scanNat_digits h, Option.map_some]
    congr 2
    omega

theorem scan_text (h : c ≠ '%') : scan (c :: fmt) (c :: text) = scan fmt text := by
  rw [scan, if_pos rfl]
  intro rest hc
  exact absurd hc h

theorem separated_conversion (h : separated ('%' :: 'd' :: fmt) = true) :
    (∀ args, EndsNumber (format fmt args)) ∧ separated fmt = true := by
  rw [separated, Bool.and_eq_true] at h
  refine ⟨fun args => ?_, h.2⟩
  cases fmt with
  | nil =>
    rw [format]
    intro c hc
    cases hc
  | cons c fmt =>
    have hc : c.isDigit = false ∧ c ≠ '%' := by simpa using h.1
    rw [format_text hc.2]
    intro c' hc'
    cases hc'
    exact hc.1

theorem separated_text (hc : ∀ rest, c = '%' → fmt = 'd' :: rest → False) (h : separated (c :: fmt) = true) :
    c ≠ '%' ∧ separated fmt = true := by
  rw [separated.eq_2 c fmt hc, Bool.and_eq_true] at h
  exact ⟨of_decide_eq_true h.1, h.2⟩

/-- What `format` has written with integers is read back. -/
theorem scan_format (h : separated fmt = true) (hxs : xs.length = conversions fmt) :
    scan fmt (format fmt (xs.map .int)) = some xs := by
  induction fmt using conversions.induct generalizing xs with
  | case1 fmt ih =>
    cases xs with
    | nil => cases hxs
    | cons x xs =>
      obtain ⟨hends, hfmt⟩ := separated_conversion h
      have hrest : scan fmt (format fmt (xs.map .int)) = some xs := ih hfmt (Nat.succ.inj hxs)
      rw [List.map_cons, format, scan, scanInt_decimal x (hends _), Option.bind_some, hrest]
      rfl
  | case2 c fmt hc ih =>
    obtain ⟨hne, hfmt⟩ := separated_text hc h
    rw [conversions.eq_2 c fmt hc] at hxs
    rw [format_text hne, scan_text hne]
    exact ih hfmt hxs
  | case3 =>
    rw [List.length_eq_zero_iff.mp hxs]
    rfl

/-! ### Text around the conversions -/

theorem scan_append (h : '%' ∉ text) (fmt rest : List Char) : scan (text ++ fmt) (text ++ rest) = scan fmt rest := by
  induction text with
  | nil => rfl
  | cons c text ih =>
    rw [List.mem_cons, not_or] at h
    rw [List.cons_append, List.cons_append, scan_text (Ne.symm h.1), ih h.2]

/-- One number, with text before and behind it. -/
theorem scan_single {before after rest : List Char} (hbefore : '%' ∉ before) (hrest : EndsNumber rest) (x : Int) :
    scan (before ++ '%' :: 'd' :: after) (before ++ (decimal x ++ rest)) = (scan after rest).map (x :: ·) := by
  rw [scan_append hbefore, scan, scanInt_decimal x hrest, Option.bind_some]

/-! ### Lengths -/

theorem length_decimal_le {x : Int} {k : Nat} (hk : 0 < k) (hx : x.natAbs < 10 ^ k) : (decimal x).length ≤ k + 1 := by
  have hdigits := (Nat.length_toDigits_le_iff (by decide) hk).mpr hx
  rw [decimal]
  split_ifs
  · rw [List.length_cons]
    omega
  · omega

theorem length_format_le {w : Nat} (h : separated fmt = true) (hxs : xs.length = conversions fmt)
    (hw : ∀ x ∈ xs, (decimal x).length ≤ w) :
    (format fmt (xs.map .int)).length ≤ fmt.length + conversions fmt * w := by
  induction fmt using conversions.induct generalizing xs with
  | case1 fmt ih =>
    cases xs with
    | nil => cases hxs
    | cons x xs =>
      have hrest := ih (separated_conversion h).2 (Nat.succ.inj hxs) fun y hy => hw y (List.mem_cons_of_mem x hy)
      have hfirst := hw x List.mem_cons_self
      rw [List.map_cons, format, conversions, List.length_append, List.length_cons, List.length_cons, Nat.succ_mul]
      omega
  | case2 c fmt hc ih =>
    obtain ⟨hne, hfmt⟩ := separated_text hc h
    rw [conversions.eq_2 c fmt hc] at hxs ⊢
    have hrest := ih hfmt hxs hw
    rw [format_text hne, List.length_cons, List.length_cons]
    omega
  | case3 =>
    rw [List.length_eq_zero_iff.mp hxs]
    exact Nat.zero_le _

end Armv8Driver.Kernel
