import Armv8Driver.Arm.Frame
import Armv8Driver.Transition.System

/-!
# Code with calls

Instructions at consecutive addresses, with a program counter. A function is called by a branch and
runs as one step: it returns to the address that `x30` holds at the branch, whichever branch it is. So
after `bl` it returns to the next instruction, and after `b` to where the caller of this code wanted to
return. The code is left at its `eret`, or when the program counter leaves it.
-/

namespace Arm

open Transition

variable {φ : Type}

inductive Op (φ : Type) where
  | instr (i : Instr)
  | b (f : φ)
  | bl (f : φ)
  | eret
  deriving DecidableEq

structure Cpu where
  pc : Word
  machine : Machine

/-- The instruction at an address, for code that starts at `base`. -/
def fetch (code : List (Op φ)) (base pc : Word) : Option (Op φ) :=
  if (pc - base).toNat % 4 = 0 then code[(pc - base).toNat / 4]? else none

/-- Where the `k`-th instruction is. -/
def addr (base : Word) (k : Nat) : Word := base + .ofNat 64 (4 * k)

/-- One instruction; `call` says what the functions do. -/
def Cpu.step (code : List (Op φ)) (base : Word) (call : φ → Machine → Machine) (c : Cpu) : Option Cpu :=
  match fetch code base c.pc with
  | some (.instr i) => some ⟨c.pc + 4, c.machine.exec i⟩
  | some (.b f) => some ⟨c.machine.x (Fin.last 30), call f c.machine⟩
  | some (.bl f) =>
    let m := c.machine.bl (c.pc + 4)
    some ⟨m.x (Fin.last 30), call f m⟩
  | some .eret => none
  | none => none

/-- The runs through a piece of code. -/
def Code (code : List (Op φ)) (base : Word) (call : φ → Machine → Machine) : System Cpu Unit where
  init c := c.pc = base
  step c _ := c.step code base call

/-- Entered at its first instruction, the code is left through an `eret`, with the machine `m'`. -/
def LeavesByEret (code : List (Op φ)) (base : Word) (call : φ → Machine → Machine) (m m' : Machine) : Prop :=
  ∃ pc, (Code code base call).Steps System.Any ⟨base, m⟩ ⟨pc, m'⟩ ∧ fetch code base pc = some .eret

/-- A function as the procedure call standard allows it: it is free with `x0` to `x18` and `x30`, and what
is at or above the stack pointer it was called with belongs to its callers. -/
structure AAPCS64 (above : Word → Word → Prop) (f : Machine → Machine) : Prop where
  x : ∀ (m : Machine) (i : Fin 31), 19 ≤ i.val → i.val ≤ 29 → (f m).x i = m.x i
  sp : ∀ m, (f m).sp = m.sp
  mem : ∀ m a, above m.sp a → (f m).mem a = m.mem a

/-- The stub as it is in the code, with the function that it calls. -/
def FrameStub.code (f : FrameStub) (handler : φ) : List (Op φ) :=
  f.save.map .instr ++ .bl handler :: (f.restore.map .instr ++ [.eret])

/-- The interrupted program goes on unharmed: control leaves the code through its `eret`, and the general
registers and the stack pointer are what they were at the entry. -/
def Resumes (code : List (Op φ)) (base : Word) (call : φ → Machine → Machine) (m : Machine) : Prop :=
  ∃ m', LeavesByEret code base call m m' ∧ m'.x = m.x ∧ m'.sp = m.sp

variable {code before after : List (Op φ)} {base : Word} {call : φ → Machine → Machine} {m : Machine} {op : Op φ}
  {k slots : Nat} {word : Machine → Nat → Word} {f : FrameStub} {handler : φ}

theorem addr_zero (base : Word) : addr base 0 = base := by simp [addr]

theorem addr_succ (base : Word) (k : Nat) : addr base k + 4 = addr base (k + 1) := by
  have hsize : BitVec.ofNat 64 (4 * (k + 1)) = BitVec.ofNat 64 (4 * k) + 4 := by
    rw [Nat.mul_succ, BitVec.ofNat_add]
    rfl
  rw [addr, addr, hsize, BitVec.add_assoc]

theorem fetch_addr (hk : 4 * k < 2 ^ 64) : fetch code base (addr base k) = code[k]? := by
  have hdist : (addr base k - base).toNat = 4 * k := by
    rw [addr, Memory.add_sub_self, BitVec.toNat_ofNat, Nat.mod_eq_of_lt hk]
  rw [fetch, hdist, if_pos (by omega), Nat.mul_div_cancel_left k (by decide)]

theorem fetch_middle (hlen : 4 * before.length < 2 ^ 64) :
    fetch (before ++ op :: after) base (addr base before.length) = some op := by
  rw [fetch_addr hlen, List.getElem?_append_right (Nat.le_refl _), Nat.sub_self, List.getElem?_cons_zero]

/-- Instructions without a branch run through. -/
theorem steps_instrs : ∀ (is : List Instr) (before : List (Op φ)) (m : Machine),
    code = before ++ is.map .instr ++ after → 4 * code.length ≤ 2 ^ 64 →
    (Code code base call).Steps System.Any ⟨addr base before.length, m⟩ ⟨addr base (before.length + is.length), m.run is⟩ := by
  intro is
  induction is with
  | nil =>
    intro before m _ _
    exact .refl
  | cons i is ih =>
    intro before m hcode hlen
    have hat : fetch code base (addr base before.length) = some (.instr i) := by
      rw [hcode, List.map_cons, List.append_assoc, List.cons_append]
      apply fetch_middle
      rw [hcode] at hlen
      simp only [List.length_append, List.map_cons, List.length_cons] at hlen
      omega
    have hstep : (Code code base call).step ⟨addr base before.length, m⟩ () = some ⟨addr base (before.length + 1), m.exec i⟩ := by
      simp only [Code, Cpu.step, hat, addr_succ]
    have hrest := ih (before ++ [.instr i]) (m.exec i) (by simp [hcode]) hlen
    rw [List.length_append, List.length_singleton, Nat.add_assoc, Nat.add_comm 1] at hrest
    exact (System.Steps.single trivial hstep).trans hrest

/-- A stub calls its handler on the frame that it has saved, and leaves through its `eret`. -/
theorem FrameStub.leaves (f : FrameStub) (handler : φ) (base : Word) (call : φ → Machine → Machine) (m : Machine)
    (hlen : 4 * (f.code handler).length ≤ 2 ^ 64) :
    LeavesByEret (f.code handler) base call m
      (f.eret (call handler (f.called m (addr base (f.save.length + 1))))) := by
  have hsize : (f.code handler).length = f.save.length + 1 + f.restore.length + 1 := by
    simp only [FrameStub.code, List.length_append, List.length_cons, List.length_map, List.length_nil]
    omega
  have hsave := @steps_instrs φ (f.code handler) (.bl handler :: (f.restore.map .instr ++ [.eret])) base call f.save [] m
    (by simp [FrameStub.code]) hlen
  have hat : fetch (f.code handler) base (addr base f.save.length) = some (.bl handler) := by
    rw [fetch_addr (by omega), FrameStub.code, List.getElem?_append_right (by simp), List.length_map, Nat.sub_self,
      List.getElem?_cons_zero]
  have hcall : (Code (f.code handler) base call).step ⟨addr base f.save.length, m.run f.save⟩ () =
      some ⟨addr base (f.save.length + 1), call handler (f.called m (addr base (f.save.length + 1)))⟩ := by
    simp only [Code, Cpu.step, hat, addr_succ]
    rfl
  have hrestore := @steps_instrs φ (f.code handler) [.eret] base call f.restore (f.save.map .instr ++ [.bl handler])
    (call handler (f.called m (addr base (f.save.length + 1)))) (by simp [FrameStub.code]) hlen
  have heret : fetch (f.code handler) base (addr base (f.save.length + 1 + f.restore.length)) = some .eret := by
    rw [fetch_addr (by omega), FrameStub.code, List.getElem?_append_right (by simp; omega), List.length_map]
    simp [Nat.add_assoc, Nat.add_comm 1]
  simp only [List.length_nil, Nat.zero_add, addr_zero] at hsave
  simp only [List.length_append, List.length_map, List.length_singleton] at hrestore
  exact ⟨_, (hsave.trans (.single trivial hcall)).trans hrestore, heret⟩

/-- A stub with a frame resumes the interrupted program, whatever the handler does within the standard. -/
theorem FrameStub.Holds.resumes (hf : f.Holds slots word) (hcall : AAPCS64 f.AtOrAbove (call handler))
    (hlen : 4 * (f.code handler).length ≤ 2 ^ 64) : Resumes (f.code handler) base call m := by
  have hmem := hcall.mem (f.called m (addr base (f.save.length + 1)))
  have hsp := hcall.sp (f.called m (addr base (f.save.length + 1)))
  exact ⟨_, f.leaves handler base call m hlen, hf.eret_x hmem hsp, hf.eret_sp hsp⟩

/-! ### Stubs without a frame -/

/-- A function that leaves `v` in `x1` and changes nothing else. -/
def setX1 (v : Word) (m : Machine) : Machine := m.setX 1 v

theorem setX1_x1 (v : Word) (m : Machine) : (setX1 v m).x 1 = v := by
  simp only [setX1, Machine.setX, Function.update_self]

theorem setX1_aapcs64 (above : Word → Word → Prop) (v : Word) : AAPCS64 above (setX1 v) where
  x m i hlo _ := by
    have hne : i ≠ 1 := by
      rintro rfl
      exact absurd hlo (by decide)
    exact Function.update_of_ne hne _ _
  sp _ := rfl
  mem _ _ _ := rfl

theorem fetch_mem {o : Op φ} {pc : Word} (h : fetch code base pc = some o) : o ∈ code :=
  List.mem_of_getElem? (Option.ite_none_right_eq_some.mp h).2

/-- What a branch to such a function has once changed stays changed, wherever it returns to. -/
theorem not_resumes_of_bare {v : Word} (hop : op = .b handler ∨ op = .bl handler) (hv : v ≠ m.x 1) :
    ¬ Resumes [op, .eret] base (fun _ => setX1 v) m := by
  rintro ⟨m', ⟨pc, hrun, heret⟩, hx, -⟩
  have hstart : fetch [op, .eret] base base = some op := by
    simp [fetch]
  have hkept : (Cpu.mk pc m' = ⟨base, m⟩) ∨ m'.x 1 = v := by
    apply hrun.invariant (I := fun c => c = ⟨base, m⟩ ∨ c.machine.x 1 = v) (.inl rfl)
    intro c _ c' _ _ hstep
    right
    simp only [Code, Cpu.step] at hstep
    cases hfetch : fetch [op, .eret] base c.pc with
    | none =>
      rw [hfetch] at hstep
      cases hstep
    | some o =>
      rw [hfetch] at hstep
      rcases List.mem_cons.mp (fetch_mem hfetch) with rfl | hlast
      · rcases hop with rfl | rfl
        · cases hstep
          exact setX1_x1 v _
        · cases hstep
          exact setX1_x1 v _
      · rw [List.mem_singleton.mp hlast] at hstep
        cases hstep
  rcases hkept with hsame | hval
  · -- at the start there is no `eret` yet
    rw [(Cpu.mk.inj hsame).1, hstart, Option.some.injEq] at heret
    rw [heret] at hop
    rcases hop with hb | hbl
    · cases hb
    · cases hbl
  · rw [hx] at hval
    exact hv hval.symm

end Arm
