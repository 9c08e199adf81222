import Armv8Driver.Arm.Frame
import Mathlib.Data.Set.Basic
import Mathlib.Logic.Relation

/-!
# Programs that take exceptions

An exception is taken at an instruction and, if its stub restores the return address from the frame, it ends there, with
everything that the program can depend on as it was. So an instruction that faults is executed again, and faults again; and
an interrupt, which is taken between two instructions, cannot be seen by the program at all.
-/

namespace Arm

open Relation

/-- The machine with its program counter and its `PSTATE`. -/
structure Processor where
  pc : Word
  pstate : Word
  m : Machine

namespace Processor

/-- An exception is taken, with the syndrome that the processor gives. -/
def take (s : Processor) (esr far : Word) : Machine :=
  s.m.take fun
    | .ELR_EL1 => s.pc
    | .SPSR_EL1 => s.pstate
    | .ESR_EL1 => esr
    | .FAR_EL1 => far

/-- The two differ in nothing but the system registers and the memory outside `live`. -/
structure Agree (live : Set Word) (s t : Processor) : Prop where
  pc : t.pc = s.pc
  pstate : t.pstate = s.pstate
  x : t.m.x = s.m.x
  sp : t.m.sp = s.m.sp
  mem : ∀ a ∈ live, t.m.mem a = s.m.mem a

variable {live : Set Word} {s t u : Processor}

theorem Agree.refl (live : Set Word) (s : Processor) : s.Agree live s := ⟨rfl, rfl, rfl, rfl, fun _ _ => rfl⟩

theorem Agree.trans (h : s.Agree live t) (h' : t.Agree live u) : s.Agree live u where
  pc := h'.pc.trans h.pc
  pstate := h'.pstate.trans h.pstate
  x := h'.x.trans h.x
  sp := h'.sp.trans h.sp
  mem a ha := (h'.mem a ha).trans (h.mem a ha)

theorem Agree.symm (h : s.Agree live t) : t.Agree live s where
  pc := h.pc.symm
  pstate := h.pstate.symm
  x := h.x.symm
  sp := h.sp.symm
  mem a ha := (h.mem a ha).symm

end Processor

/-- What a handler leaves that does nothing but spoil the registers. -/
def Machine.spoil (m : Machine) : Machine := { m with x := fun _ => 0 }

theorem Machine.spoil_sp (m : Machine) : m.spoil.sp = m.sp := rfl

namespace FrameStub

/-- The handler has returned, and the stub executes its `eret`. -/
def resume (f : FrameStub) (m : Machine) : Processor := ⟨(f.eret m).sys .ELR_EL1, (f.eret m).sys .SPSR_EL1, f.eret m⟩

/-- The stub returns to where the exception was taken. -/
structure Returns (f : FrameStub) : Prop where
  elr : ∀ {m m₁ link}, (∀ a, f.AtOrAbove (f.called m link).sp a → m₁.mem a = (f.called m link).mem a) →
    m₁.sp = (f.called m link).sp → (f.eret m₁).sys .ELR_EL1 = m.sys .ELR_EL1
  spsr : ∀ {m m₁ link}, (∀ a, f.AtOrAbove (f.called m link).sp a → m₁.mem a = (f.called m link).mem a) →
    m₁.sp = (f.called m link).sp → (f.eret m₁).sys .SPSR_EL1 = m.sys .SPSR_EL1

/-- An exception, from where it is taken to its `eret`. Its frame has no byte of `live`, and its handler, which can take
further exceptions, writes to none. -/
inductive Exception (f : FrameStub) (live : Set Word) (s : Processor) : Processor → Prop where
  | returned {m₁ : Machine} (esr far link : Word) (hframe : ∀ k < f.size, s.m.sp - .ofNat 64 f.size + .ofNat 64 k ∉ live)
      (hbody : f.Body (fun a => a ∈ live ∨ f.AtOrAbove (f.called (s.take esr far) link).sp a)
        (f.called (s.take esr far) link) m₁)
      (hsp : m₁.sp = (f.called (s.take esr far) link).sp) :
      Exception f live s (f.resume m₁)

variable {f : FrameStub} {slots : Nat} {word : Machine → Nat → Word} {live : Set Word} {s t : Processor}

theorem Exception.spoil (esr far link : Word) (hframe : ∀ k < f.size, s.m.sp - .ofNat 64 f.size + .ofNat 64 k ∉ live) :
    f.Exception live s (f.resume (f.called (s.take esr far) link).spoil) := by
  have hmem : ∀ a, a ∈ live ∨ f.AtOrAbove (f.called (s.take esr far) link).sp a →
      (f.called (s.take esr far) link).spoil.mem a = (f.called (s.take esr far) link).mem a := fun _ _ => rfl
  exact .returned esr far link hframe (.code hmem .done) (Machine.spoil_sp _)

theorem Exception.agree (h : f.Exception live s t) (hf : f.Holds slots word) (hr : f.Returns) : s.Agree live t := by
  obtain @⟨m₁, esr, far, link, hframe, hbody, hsp⟩ := h
  have hkept := hf.preserves hbody
  have hmem : ∀ a, f.AtOrAbove (f.called (s.take esr far) link).sp a →
      m₁.mem a = (f.called (s.take esr far) link).mem a := fun a ha => hkept a (.inr ha)
  have hx : (f.eret m₁).x = (s.take esr far).x := hf.eret_x hmem hsp
  have hsp' : (f.eret m₁).sp = (s.take esr far).sp := hf.eret_sp hsp
  refine ⟨hr.elr hmem hsp, hr.spsr hmem hsp, hx, hsp', fun a ha => ?_⟩
  calc (f.eret m₁).mem a = m₁.mem a := congrFun (hf.restore_mem m₁) a
    _ = (f.called (s.take esr far) link).mem a := hkept a (.inl ha)
    _ = (s.take esr far).mem a := hf.save_outside (outside_frame hframe ha)
    _ = s.m.mem a := rfl

end FrameStub

/-! ### Faults -/

/-- A step of a program: what its instruction does, or, where `exec` has nothing for it, the exception that it takes. -/
inductive Step (f : FrameStub) (live : Set Word) (exec : Processor → Option Processor) (s : Processor) : Processor → Prop where
  | instruction {t : Processor} (h : exec s = some t) : Step f live exec s t
  | fault {t : Processor} (h : exec s = none) (hfault : f.Exception live s t) : Step f live exec s t

variable {f : FrameStub} {slots : Nat} {word : Machine → Nat → Word} {live : Set Word}
  {exec : Processor → Option Processor} {s t u : Processor}

/-- An instruction that faults wherever the program can see no difference is retried for ever. -/
theorem agree_of_faults (hf : f.Holds slots word) (hr : f.Returns) (hfault : ∀ u, s.Agree live u → exec u = none)
    (h : ReflTransGen (Step f live exec) s t) : s.Agree live t := by
  induction h with
  | refl => exact .refl live s
  | tail _ hstep ih =>
    cases hstep with
    | instruction h => exact nomatch (hfault _ ih).symm.trans h
    | fault _ h => exact ih.trans (h.agree hf hr)

/-! ### Interrupts -/

/-- A program that reads nothing but its registers and, at a program counter and a stack pointer, the memory that is live
there. -/
structure Program where
  exec : Processor → Option Processor
  live : Word → Word → Set Word
  reads_live : ∀ {s t s'}, s.Agree (live s.pc s.m.sp) t → exec s = some s' →
    ∃ t', exec t = some t' ∧ s'.Agree (live s'.pc s'.m.sp) t'

namespace Program

abbrev Agree (p : Program) (s t : Processor) : Prop := s.Agree (p.live s.pc s.m.sp) t

/-- The program alone, `n` instructions from `s`. -/
def after (p : Program) (s : Processor) : Nat → Option Processor
  | 0 => some s
  | n + 1 => (p.after s n).bind p.exec

/-- The program after `n` of its instructions, with interrupts between them. -/
inductive Interrupted (p : Program) (f : FrameStub) (s : Processor) : Nat → Processor → Prop where
  | start : Interrupted p f s 0 s
  | instruction {n : Nat} {t u : Processor} (ht : Interrupted p f s n t) (h : p.exec t = some u) :
      Interrupted p f s (n + 1) u
  | interrupt {n : Nat} {t u : Processor} (ht : Interrupted p f s n t) (h : f.Exception (p.live t.pc t.m.sp) t u) :
      Interrupted p f s n u

variable {p : Program} {n : Nat}

theorem Agree.symm (h : p.Agree s t) : p.Agree t s := by
  have hback := Processor.Agree.symm h
  rwa [← h.pc, ← h.sp] at hback

theorem Agree.interrupt (h : p.Agree u s) (he : f.Exception (p.live s.pc s.m.sp) s t) (hf : f.Holds slots word)
    (hr : f.Returns) : p.Agree u t := by
  rw [h.pc, h.sp] at he
  exact h.trans (he.agree hf hr)

/-- They go on together. -/
theorem Agree.isSome_exec (h : p.Agree s t) : (p.exec s).isSome = (p.exec t).isSome := by
  rw [Bool.eq_iff_iff, Option.isSome_iff_exists, Option.isSome_iff_exists]
  constructor
  · intro hs
    obtain ⟨s', hs'⟩ := hs
    obtain ⟨t', ht', -⟩ := p.reads_live h hs'
    exact ⟨t', ht'⟩
  · intro ht
    obtain ⟨t', ht'⟩ := ht
    obtain ⟨s', hs', -⟩ := p.reads_live h.symm ht'
    exact ⟨s', hs'⟩

/-- Whatever the program does with interrupts, it does alone. -/
theorem Interrupted.agree (h : p.Interrupted f s n t) (hf : f.Holds slots word) (hr : f.Returns) :
    ∃ u, p.after s n = some u ∧ p.Agree u t := by
  induction h with
  | start => exact ⟨s, rfl, .refl _ s⟩
  | instruction _ h ih =>
    obtain ⟨u, hu, hagree⟩ := ih
    obtain ⟨u', hu', hagree'⟩ := p.reads_live (Agree.symm hagree) h
    exact ⟨u', Option.bind_eq_some_iff.mpr ⟨u, hu, hu'⟩, Agree.symm hagree'⟩
  | interrupt _ h ih =>
    obtain ⟨u, hu, hagree⟩ := ih
    exact ⟨u, hu, hagree.interrupt h hf hr⟩

end Program

end Arm
