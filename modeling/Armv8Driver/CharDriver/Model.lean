import Armv8Driver.Kernel.Primitives
import Armv8Driver.Transition.System
import Mathlib.Algebra.Group.Int.Defs
import Mathlib.Algebra.Group.Nat.Defs
import Mathlib.Logic.Function.Basic

/-!
# The character driver of `01_Basic`

`dev_lseek`, `dev_read` and `dev_write`, and the system calls that reach them. Memory is indexed from
`kernel_buffer`: the buffer is the indices from 0 to 255, and the other indices are what the linker
placed around it. A user copy leaves some number of bytes uncopied, which the caller chooses.
-/

namespace Armv8Driver.CharDriver

open Kernel Transition

abbrev Byte := UInt8

def MAX_KERNEL_BUFFER : Int := 256
def MAX_RW_COUNT : Nat := 0x7ffff000

def SEEK_SET : Int := 0
def SEEK_CUR : Int := 1
def SEEK_END : Int := 2

/-- The value of an `unsigned long long`. -/
def u64 (x : Int) : Int := x % 2 ^ 64

/-- The value stored in a `loff_t` or an `ssize_t`. -/
def s64 (x : Int) : Int := (x + 2 ^ 63) % 2 ^ 64 - 2 ^ 63

abbrev Memory := Int → Byte

/-- The return value and the new `f_pos`. -/
def dev_lseek (f_pos offset whence : Int) : Int × Int :=
  if whence = SEEK_SET then
    if offset > MAX_KERNEL_BUFFER ∨ offset < 0 then (-EINVAL, f_pos) else (offset, offset)
  else if whence = SEEK_CUR then
    let temp_pos := s64 (f_pos + offset)
    if temp_pos > MAX_KERNEL_BUFFER ∨ temp_pos < 0 then (-EINVAL, f_pos) else (temp_pos, temp_pos)
  else if whence = SEEK_END then
    let temp_pos := s64 (MAX_KERNEL_BUFFER + offset)
    if temp_pos > MAX_KERNEL_BUFFER ∨ temp_pos < 0 then (-EINVAL, f_pos) else (temp_pos, temp_pos)
  else (-EINVAL, f_pos)

/-- `read_bytes` and `write_bytes` before the copy. The sum is unsigned, because `size_t` is, and is
then stored in an `ssize_t`. In the first branch the value is a length, in the second it is still the
end offset of the transfer. -/
def transfer_bytes (pos : Int) (count : Nat) : Int :=
  let bytes := s64 (u64 (pos + count))
  if bytes > MAX_KERNEL_BUFFER then s64 (MAX_KERNEL_BUFFER - pos) else bytes

/-- What a call leaves behind: the return value, `*pFpos`, the number of bytes of kernel memory at
`*pFpos` that it handed to the user copy, and the bytes that reached the user. -/
structure Transfer where
  ret : Int
  pos : Int
  size : Nat
  data : List Byte
  deriving DecidableEq

def dev_read (mem : Memory) (pos : Int) (count uncopied : Nat) : Transfer :=
  let read_bytes := transfer_bytes pos count
  if read_bytes < 0 ∨ read_bytes = 0 then ⟨-ENOMEM, pos, 0, []⟩
  else
    let ret := min uncopied read_bytes.toNat
    let copied := read_bytes - ret
    ⟨copied, s64 (pos + copied), read_bytes.toNat, (List.range copied.toNat).map fun j : Nat => mem (pos + j)⟩

/-- `copy_from_user` to `kernel_buffer + pos`: the uncopied tail of the destination is filled with zeros. -/
def copy_from_user (mem : Memory) (pos : Int) (buff : Nat → Byte) (n uncopied : Nat) : Memory := fun i =>
  if pos ≤ i ∧ i < pos + n then
    if i < pos + n - uncopied then buff (i - pos).toNat else 0
  else mem i

def dev_write (mem : Memory) (pos : Int) (buff : Nat → Byte) (count uncopied : Nat) : Transfer × Memory :=
  let write_bytes := transfer_bytes pos count
  if write_bytes < 0 ∨ write_bytes = 0 then (⟨-ENOMEM, pos, 0, []⟩, mem)
  else
    let ret := min uncopied write_bytes.toNat
    let copied := write_bytes - ret
    (⟨copied, s64 (pos + copied), write_bytes.toNat, []⟩, copy_from_user mem pos buff write_bytes.toNat ret)

/-! ### System calls -/

/-- The memory and the position of each open file. -/
structure State where
  mem : Memory
  f_pos : Nat → Int

/-- A system call on an open file `f`. `pread` and `pwrite` bring their own position. -/
inductive Call where
  | lseek (f : Nat) (offset whence : Int)
  | read (f count uncopied : Nat)
  | write (f : Nat) (buff : Nat → Byte) (count uncopied : Nat)
  | pread (pos : Int) (count uncopied : Nat)
  | pwrite (pos : Int) (buff : Nat → Byte) (count uncopied : Nat)

/-- The arguments the VFS hands to the driver. -/
def Call.Valid : Call → Prop
  | .lseek _ offset _ => -2 ^ 63 ≤ offset ∧ offset < 2 ^ 63
  | .read _ count _ | .write _ _ count _ => count ≤ MAX_RW_COUNT
  | .pread pos count _ | .pwrite pos _ count _ => 0 ≤ pos ∧ pos < 2 ^ 63 ∧ count ≤ MAX_RW_COUNT

/-- The position at which a call transfers, and its count. -/
def Call.request (s : State) : Call → Option (Int × Nat)
  | .lseek .. => none
  | .read f count _ | .write f _ count _ => some (s.f_pos f, count)
  | .pread pos count _ | .pwrite pos _ count _ => some (pos, count)

/-- `ksys_read` and `ksys_write` store the position only if the call did not fail. -/
def State.advance (s : State) (f : Nat) (r : Transfer) : Nat → Int :=
  if r.ret ≥ 0 then Function.update s.f_pos f r.pos else s.f_pos

/-- One call: what it returns and the state after it. -/
def syscall (s : State) : Call → Transfer × State
  | .lseek f offset whence =>
    let (ret, pos) := dev_lseek (s.f_pos f) offset whence
    (⟨ret, pos, 0, []⟩, { s with f_pos := Function.update s.f_pos f pos })
  | .read f count uncopied =>
    let r := dev_read s.mem (s.f_pos f) count uncopied
    (r, { s with f_pos := s.advance f r })
  | .write f buff count uncopied =>
    let (r, mem) := dev_write s.mem (s.f_pos f) buff count uncopied
    (r, { mem := mem, f_pos := s.advance f r })
  | .pread pos count uncopied => (dev_read s.mem pos count uncopied, s)
  | .pwrite pos buff count uncopied =>
    let (r, mem) := dev_write s.mem pos buff count uncopied
    (r, { s with mem := mem })

/-- Every open file has its position in the buffer or at its end. -/
def State.PositionsIn (s : State) : Prop := ∀ f, 0 ≤ s.f_pos f ∧ s.f_pos f ≤ MAX_KERNEL_BUFFER

/-- `kernel_buffer` is a static array, so it starts with zeros. -/
def State.Initial (s : State) : Prop :=
  s.PositionsIn ∧ ∀ i, 0 ≤ i → i < MAX_KERNEL_BUFFER → s.mem i = 0

def driver : System State Call where
  init := State.Initial
  step s c := some (syscall s c).2

end Armv8Driver.CharDriver
