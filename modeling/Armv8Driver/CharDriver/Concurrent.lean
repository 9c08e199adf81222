import Armv8Driver.CharDriver.Model
import Armv8Driver.Transition.Independent
import Mathlib.Data.List.FinRange

/-!
# Calls that run at the same time

The driver has no lock, and a user copy is no single access: here it is one byte a step, `copy_from_user` with the
zeros it leaves at the end. Calls that do not touch each other's bytes are atomic all the same.
-/

namespace Armv8Driver.CharDriver

open Kernel Transition

inductive Direction where
  | read
  | write (buff : Nat → Byte)

/-- A call of `dev_read` or `dev_write`. The kernel hands a call a copy `pos` of the position. -/
structure Io where
  direction : Direction
  pos : Int
  count : Nat
  uncopied : Nat

/-- Where a call is: `copying data j` has copied `j` bytes, and `data` to the user. -/
inductive IoPc where
  | called
  | copying (data : List Byte) (j : Nat)
  | returned (r : Transfer)

namespace Io

variable {io : Io} {mem : Memory} {data : List Byte} {j : Nat}

def bytes (io : Io) : Int := transfer_bytes io.pos io.count

/-- What the driver hands to the user copy. -/
def size (io : Io) : Nat := io.bytes.toNat

/-- The return value of the user copy. -/
def left (io : Io) : Nat := min io.uncopied io.size

/-- The bytes of the buffer that the copy accesses. -/
def extent (io : Io) : Nat :=
  match io.direction with
  | .read => io.size - io.left
  | .write _ => io.size

def copyByte (io : Io) (mem : Memory) (data : List Byte) (j : Nat) : List Byte × Memory :=
  match io.direction with
  | .read => (data ++ [mem (io.pos + j)], mem)
  | .write buff => (data, Function.update mem (io.pos + j) (if j < io.size - io.left then buff j else 0))

/-- What the call leaves once the copy is over. -/
def finished (io : Io) (data : List Byte) : Transfer :=
  ⟨io.bytes - io.left, s64 (io.pos + (io.bytes - io.left)), io.size, data⟩

def stepwise (io : Io) : System (IoPc × Memory) Unit where
  init s := s.1 = .called
  step s _ :=
    match s.1 with
    | .called =>
      some (if io.bytes < 0 ∨ io.bytes = 0 then .returned ⟨-ENOMEM, io.pos, 0, []⟩ else .copying [] 0, s.2)
    | .copying data j =>
      if j < io.extent then some (.copying (io.copyByte s.2 data j).1 (j + 1), (io.copyByte s.2 data j).2)
      else some (.returned (io.finished data), s.2)
    | .returned _ => none

/-- The call as one step. -/
def call (io : Io) (mem : Memory) : Transfer × Memory :=
  match io.direction with
  | .read => (dev_read mem io.pos io.count io.uncopied, mem)
  | .write buff => dev_write mem io.pos buff io.count io.uncopied

def atomic (io : Io) : System (Option Transfer × Memory) Unit where
  init s := s.1 = none
  step s _ := some (some (io.call s.2).1, (io.call s.2).2)

/-- The bytes that the driver hands to the user copy, past the end of the request as well. -/
def range (io : Io) : Set Int := {x | io.pos ≤ x ∧ x < io.pos + io.size}

def written (io : Io) : Set Int :=
  match io.direction with
  | .read => ∅
  | .write _ => io.range

theorem extent_le (io : Io) : io.extent ≤ io.size := by
  unfold extent
  split
  · exact Nat.sub_le _ _
  · exact Nat.le_refl _

theorem mem_range (hj : j < io.extent) : io.pos + j ∈ io.range := by
  have hle := io.extent_le
  exact ⟨by omega, by omega⟩

theorem written_subset (io : Io) : io.written ⊆ io.range := by
  intro x hx
  unfold written at hx
  cases hdir : io.direction with
  | read =>
    simp only [hdir] at hx
    cases hx
  | write buff =>
    simp only [hdir] at hx
    exact hx

/-! ### The bytes of a call -/

theorem copyByte_writes (hj : j < io.extent) {x : Int} (hx : x ∉ io.written) : (io.copyByte mem data j).2 x = mem x := by
  have hin := mem_range hj
  unfold copyByte
  unfold written at hx
  cases hdir : io.direction with
  | read => rfl
  | write buff =>
    simp only [hdir] at hx
    apply Function.update_of_ne
    intro heq
    exact hx (heq ▸ hin)

theorem copyByte_reads {mem' : Memory} (hj : j < io.extent) (h : ∀ x ∈ io.range, mem x = mem' x) :
    (io.copyByte mem data j).1 = (io.copyByte mem' data j).1 ∧
      ∀ x ∈ io.range, (io.copyByte mem data j).2 x = (io.copyByte mem' data j).2 x := by
  have hbyte := h _ (mem_range hj)
  unfold copyByte
  cases io.direction with
  | read => exact ⟨by rw [hbyte], h⟩
  | write buff =>
    refine ⟨rfl, fun x hx => ?_⟩
    dsimp only
    by_cases heq : x = io.pos + j
    · rw [heq, Function.update_self, Function.update_self]
    · rw [Function.update_of_ne heq, Function.update_of_ne heq]
      exact h x hx

theorem stepwise_confined (io : Io) : Confined io.stepwise io.range io.written where
  writes := by
    intro s m a s' m' h x hx
    cases s with
    | called =>
      cases h
      rfl
    | copying data j =>
      simp only [stepwise] at h
      split_ifs at h with hj
      · cases h
        exact copyByte_writes hj hx
      · cases h
        rfl
    | returned r => cases h
  reads := by
    intro s m n a s' m' hsame h
    cases s with
    | called =>
      cases h
      exact ⟨n, rfl, hsame⟩
    | copying data j =>
      simp only [stepwise] at h ⊢
      split_ifs at h ⊢ with hj
      · cases h
        obtain ⟨hdata, hmem⟩ := @copyByte_reads io m data j n hj hsame
        exact ⟨_, by rw [hdata], hmem⟩
      · cases h
        exact ⟨n, rfl, hsame⟩
    | returned r => cases h

theorem call_writes {x : Int} (hx : x ∉ io.written) : (io.call mem).2 x = mem x := by
  unfold call
  unfold written at hx
  cases hdir : io.direction with
  | read => rfl
  | write buff =>
    simp only [hdir] at hx
    simp only [dev_write]
    split_ifs with hbytes
    · rfl
    · exact if_neg hx

theorem call_reads {mem' : Memory} (h : ∀ x ∈ io.range, mem x = mem' x) :
    (io.call mem).1 = (io.call mem').1 ∧ ∀ x ∈ io.range, (io.call mem).2 x = (io.call mem').2 x := by
  unfold call
  cases io.direction with
  | read =>
    refine ⟨?_, h⟩
    simp only [dev_read]
    split_ifs with hbytes
    · rfl
    · congr 1
      apply List.map_congr_left
      intro k hk
      have hlt := List.mem_range.mp hk
      apply h
      change k < (io.bytes - _).toNat at hlt
      change ¬ (io.bytes < 0 ∨ io.bytes = 0) at hbytes
      exact ⟨by omega, by unfold size; omega⟩
  | write buff =>
    simp only [dev_write]
    split_ifs with hbytes
    · exact ⟨rfl, h⟩
    · refine ⟨rfl, fun x hx => ?_⟩
      have hin : io.pos ≤ x ∧ x < io.pos + (transfer_bytes io.pos io.count).toNat := hx
      simp only [copy_from_user, if_pos hin]

theorem atomic_confined (io : Io) : Confined io.atomic io.range io.written where
  writes := by
    intro s m a s' m' h x hx
    cases h
    exact call_writes hx
  reads := by
    intro s m n a s' m' hsame h
    cases h
    obtain ⟨hresult, hmem⟩ := @call_reads io m n hsame
    exact ⟨(io.call n).2, by rw [hresult]; rfl, hmem⟩

/-! ### A call alone -/

/-- What `j` bytes of the copy leave. -/
def partly (io : Io) (mem : Memory) (j : Nat) : List Byte × Memory :=
  match io.direction with
  | .read => ((List.range j).map fun k : Nat => mem (io.pos + k), mem)
  | .write buff => ([], fun x =>
      if io.pos ≤ x ∧ x < io.pos + j then if x < io.pos + io.size - io.left then buff (x - io.pos).toNat else 0 else mem x)

theorem partly_zero : io.partly mem 0 = ([], mem) := by
  unfold partly
  cases io.direction with
  | read => rfl
  | write buff =>
    apply congrArg (Prod.mk [])
    funext x
    exact if_neg (by omega)

theorem partly_succ : io.copyByte (io.partly mem j).2 (io.partly mem j).1 j = io.partly mem (j + 1) := by
  unfold copyByte partly
  cases io.direction with
  | read =>
    dsimp only
    rw [List.range_succ, List.map_append]
    rfl
  | write buff =>
    apply congrArg (Prod.mk [])
    funext x
    by_cases heq : x = io.pos + j
    · have hin : io.pos ≤ x ∧ x < io.pos + ((j + 1 : Nat) : Int) := by omega
      have hindex : (x - io.pos).toNat = j := by omega
      have hle : io.left ≤ io.size := Nat.min_le_right _ _
      rw [if_pos hin, hindex, heq, Function.update_self]
      exact if_congr (by omega) rfl rfl
    · rw [Function.update_of_ne heq]
      exact if_congr (by omega) rfl rfl

theorem partly_extent (h : ¬ (io.bytes < 0 ∨ io.bytes = 0)) :
    (io.finished (io.partly mem io.extent).1, (io.partly mem io.extent).2) = io.call mem := by
  have hle : io.left ≤ io.size := Nat.min_le_right _ _
  unfold partly extent call
  cases io.direction with
  | read =>
    have hread : dev_read mem io.pos io.count io.uncopied =
        ⟨io.bytes - io.left, s64 (io.pos + (io.bytes - io.left)), io.size,
          (List.range (io.bytes - io.left).toNat).map fun k : Nat => mem (io.pos + k)⟩ := if_neg h
    have hcopied : (io.bytes - io.left).toNat = io.size - io.left := by
      unfold size at *
      omega
    rw [hcopied] at hread
    exact congrArg (Prod.mk · mem) hread.symm
  | write buff =>
    have hwrite : dev_write mem io.pos buff io.count io.uncopied =
        (⟨io.bytes - io.left, s64 (io.pos + (io.bytes - io.left)), io.size, []⟩,
          copy_from_user mem io.pos buff io.size io.left) := if_neg h
    exact hwrite.symm

/-- The states of a call that nobody disturbs. -/
def Reached (io : Io) (mem : Memory) (s : IoPc × Memory) : Prop :=
  match s.1 with
  | .called => s.2 = mem
  | .copying data j => ¬ (io.bytes < 0 ∨ io.bytes = 0) ∧ j ≤ io.extent ∧ (data, s.2) = io.partly mem j
  | .returned r => (r, s.2) = io.call mem

theorem call_refused (h : io.bytes < 0 ∨ io.bytes = 0) : io.call mem = (⟨-ENOMEM, io.pos, 0, []⟩, mem) := by
  unfold call
  cases io.direction with
  | read => exact congrArg (Prod.mk · mem) (if_pos h)
  | write buff => exact if_pos h

theorem Reached.step {s t : IoPc × Memory} {a : Unit} (hs : io.Reached mem s) (h : io.stepwise.step s a = some t) :
    io.Reached mem t := by
  obtain ⟨pc, m⟩ := s
  cases pc with
  | called =>
    cases h
    have hmem : m = mem := hs
    rw [hmem]
    split_ifs with hbytes
    · exact (call_refused hbytes).symm
    · exact ⟨hbytes, Nat.zero_le _, partly_zero.symm⟩
  | copying data j =>
    obtain ⟨hbytes, hj, hpartly⟩ := hs
    obtain ⟨hdata, hmem⟩ := Prod.mk.inj hpartly
    simp only at hmem
    simp only [stepwise] at h
    split_ifs at h with hlt
    · cases h
      refine ⟨hbytes, hlt, ?_⟩
      rw [hdata, hmem]
      exact partly_succ
    · cases h
      have hend : j = io.extent := by omega
      show (io.finished data, m) = io.call mem
      rw [hdata, hmem, hend]
      exact partly_extent hbytes
  | returned r => cases h

/-- The steps to come. -/
def remaining (io : Io) : IoPc → Nat
  | .called => if io.bytes < 0 ∨ io.bytes = 0 then 1 else io.extent + 2
  | .copying _ j => io.extent - j + 1
  | .returned _ => 0

theorem remaining_step {s t : IoPc × Memory} {a : Unit} (h : io.stepwise.step s a = some t) :
    io.remaining t.1 + 1 = io.remaining s.1 := by
  obtain ⟨pc, m⟩ := s
  cases pc with
  | called =>
    cases h
    simp only [remaining]
    split_ifs <;> rfl
  | copying data j =>
    simp only [stepwise] at h
    split_ifs at h with hlt
    · cases h
      simp only [remaining]
      omega
    · cases h
      simp only [remaining]
      omega
  | returned r => cases h

theorem stepwise_stuck {s : IoPc × Memory} {a : Unit} (h : io.remaining s.1 = 0) : io.stepwise.step s a = none := by
  obtain ⟨pc, m⟩ := s
  cases pc with
  | called =>
    simp only [remaining] at h
    split_ifs at h
  | copying data j =>
    simp only [remaining] at h
    omega
  | returned r => rfl

/-- A call that nobody disturbs does what `dev_read` and `dev_write` do, in the steps that are to come. -/
theorem run_alone {acts : List Unit} {pc : IoPc} {m : Memory}
    (hrun : io.stepwise.run (.called, mem) acts = some (pc, m)) :
    io.Reached mem (pc, m) ∧ acts.length + io.remaining pc = io.remaining .called := by
  apply System.length_add_eq_of_run (fun s => io.remaining s.1) ?_ (show io.Reached mem (.called, mem) from rfl) hrun
  intro s a t hs h
  exact ⟨hs.step h, remaining_step h⟩

end Io

/-! ### Calls at the same time -/

/-- No call writes a byte that another one touches. -/
def Separate {n : Nat} (calls : Fin n → Io) : Prop := ∀ i j, i ≠ j → ∀ x ∈ (calls i).written, x ∉ (calls j).range

/-- The calls, a byte a step. -/
def concurrent {n : Nat} (calls : Fin n → Io) : System ((Fin n → IoPc) × Memory) (Fin n × Unit) :=
  interleave fun i => (calls i).stepwise

/-- The calls, one after another. -/
def sequential {n : Nat} (calls : Fin n → Io) : System ((Fin n → Option Transfer) × Memory) (Fin n × Unit) :=
  interleave fun i => (calls i).atomic

variable {n : Nat} {calls : Fin n → Io} {mem : Memory}

theorem sequential_runs (acts : List (Fin n × Unit)) (s : (Fin n → Option Transfer) × Memory) :
    ∃ t, (sequential calls).run s acts = some t := by
  induction acts generalizing s with
  | nil => exact ⟨s, rfl⟩
  | cons a acts ih => exact ih _

/-- A call in its place of the order finds what it would find first. -/
theorem sequential_call {order : List (Fin n)} {results : Fin n → Option Transfer} {m : Memory}
    (hseparate : Separate calls) (horder : order.Perm (List.finRange n))
    (hrun : (sequential calls).run (fun _ => none, mem) (order.map fun i => (i, ())) = some (results, m)) (i : Fin n) :
    results i = some ((calls i).call mem).1 ∧ ∀ x ∈ (calls i).range, m x = ((calls i).call mem).2 x := by
  obtain ⟨mᵢ, halone, hsame⟩ := interleave_alone (fun i => (calls i).atomic_confined) hrun hseparate i
  have honce : order.count i = 1 := by
    rw [horder.count_eq]
    exact List.count_eq_one_of_mem (List.nodup_finRange n) (List.mem_finRange i)
  rw [own_map_eq, honce] at halone
  obtain ⟨hresult, hmem⟩ := Prod.mk.inj (Option.some.inj halone)
  refine ⟨hresult.symm, fun x hx => ?_⟩
  rw [← hsame x hx, ← hmem]

/-- However the copies of calls that do not touch each other's bytes interleave, each call takes its own number of steps,
and when none is left all have returned what they return, and left the memory that they leave, one after another: in any
order. -/
theorem disjoint_calls_atomic {n : Nat} (calls : Fin n → Io) (hseparate : Separate calls) (mem : Memory)
    (moves : List (Fin n × Unit)) (t : (Fin n → IoPc) × Memory)
    (hrun : (concurrent calls).run (fun _ => .called, mem) moves = some t) :
    (∀ i, (own i moves).length + (calls i).remaining (t.1 i) = (calls i).remaining .called) ∧
      ((∀ a, (concurrent calls).step t a = none) → ∀ order : List (Fin n), order.Perm (List.finRange n) →
        ∃ results, (sequential calls).run (fun _ => none, mem) (order.map fun i => (i, ())) = some (results, t.2) ∧
          ∀ i, ∃ r, results i = some r ∧ t.1 i = .returned r) := by
  have halone : ∀ i, ∃ mᵢ, (calls i).Reached mem (t.1 i, mᵢ) ∧
      (own i moves).length + (calls i).remaining (t.1 i) = (calls i).remaining .called ∧
        ∀ x ∈ (calls i).range, mᵢ x = t.2 x := by
    intro i
    obtain ⟨mᵢ, hown, hsame⟩ := interleave_alone (fun i => (calls i).stepwise_confined) hrun hseparate i
    obtain ⟨hreached, hlength⟩ := Io.run_alone hown
    exact ⟨mᵢ, hreached, hlength, hsame⟩
  refine ⟨fun i => (halone i).choose_spec.2.1, fun hstuck order horder => ?_⟩
  obtain ⟨⟨results, m⟩, hsequential⟩ := @sequential_runs n calls (order.map fun i => (i, ())) (fun _ => none, mem)
  have hcall := sequential_call hseparate horder hsequential
  have hreturned : ∀ i, t.1 i = .returned ((calls i).call mem).1 ∧
      ∀ x ∈ (calls i).range, t.2 x = ((calls i).call mem).2 x := by
    intro i
    obtain ⟨mᵢ, hreached, -, hsame⟩ := halone i
    have hnone := hstuck (i, ())
    cases hpc : t.1 i with
    | called => simp [concurrent, interleave, Io.stepwise, hpc] at hnone
    | copying data j =>
      simp only [concurrent, interleave, Io.stepwise, hpc, Option.map_eq_none_iff] at hnone
      split_ifs at hnone
    | returned r =>
      rw [hpc] at hreached
      have hcalled : (r, mᵢ) = (calls i).call mem := hreached
      rw [← hcalled]
      exact ⟨rfl, fun x hx => (hsame x hx).symm⟩
  have hmemory : m = t.2 := by
    funext x
    by_cases hx : ∃ i, x ∈ (calls i).range
    · obtain ⟨i, hi⟩ := hx
      rw [(hcall i).2 x hi, (hreturned i).2 x hi]
    · have hout : ∀ i, x ∉ (calls i).written := fun i hw => hx ⟨i, (calls i).written_subset hw⟩
      rw [interleave_outside (fun i => (calls i).atomic_confined) hsequential hout,
        interleave_outside (fun i => (calls i).stepwise_confined) hrun hout]
  rw [hmemory] at hsequential
  exact ⟨results, hsequential, fun i => ⟨_, (hcall i).1, (hreturned i).1⟩⟩

def writer : Fin 2 := ⟨0, Nat.two_pos⟩

def reader : Fin 2 := ⟨1, Nat.one_lt_two⟩

/-- A write of two bytes of which one faults, and a read at 4, of five bytes because the driver takes the end for the
length. -/
def writeAndRead : Fin 2 → Io := fun i =>
  if i.val = 0 then ⟨.write fun j => UInt8.ofNat (j + 1), 0, 2, 1⟩ else ⟨.read, 4, 1, 0⟩

theorem writeAndRead_separate : Separate writeAndRead := by
  intro i j hij x hx hrange
  match i, j with
  | ⟨0, _⟩, ⟨0, _⟩ => exact hij rfl
  | ⟨0, _⟩, ⟨1, _⟩ =>
    have hsizes : (writeAndRead writer).size = 2 ∧ (writeAndRead reader).size = 5 := by decide +kernel
    have hwritten : 0 ≤ x ∧ x < 0 + ((writeAndRead writer).size : Int) := hx
    have hread : 4 ≤ x ∧ x < 4 + ((writeAndRead reader).size : Int) := hrange
    omega
  | ⟨1, _⟩, _ => exact hx

def alternating : List (Fin 2 × Unit) :=
  [reader, writer, writer, reader, writer, reader, writer, reader, reader, reader, reader].map fun i => (i, ())

theorem writeAndRead_atomic :
    ∃ t, (concurrent writeAndRead).run (fun _ => .called, fun _ => 9) alternating = some t ∧
      ∃ results,
        (sequential writeAndRead).run (fun _ => none, fun _ => 9) [(reader, ()), (writer, ())] = some (results, t.2) ∧
          ∀ i, ∃ r, results i = some r ∧ t.1 i = .returned r := by
  have hsome : ((concurrent writeAndRead).run (fun _ => .called, fun _ => 9) alternating).isSome := by decide +kernel
  obtain ⟨t, ht⟩ := Option.isSome_iff_exists.mp hsome
  have hatomic := disjoint_calls_atomic writeAndRead writeAndRead_separate (fun _ => 9) alternating t ht
  have hlength : ∀ i, (own i alternating).length = (writeAndRead i).remaining .called := by decide +kernel
  refine ⟨t, ht, hatomic.2 (fun a => ?_) [reader, writer] (by decide)⟩
  apply Option.map_eq_none_iff.mpr
  apply Io.stepwise_stuck
  have hleft := hatomic.1 a.1
  rw [hlength] at hleft
  exact Nat.add_eq_left.mp hleft

end Armv8Driver.CharDriver
