import Armv8Driver.Arm.Machine

/-!
# Frames around a handler

A stub makes room on the stack, saves words there, calls a handler, reads the words back and returns.
A handler may do anything but write at or above the stack pointer it was called with, which is where
the frame is. That includes taking further exceptions through the same stub, whose handlers are bound
by their own entry as well. The induction is on how the body was put together: nothing in it, at any
depth, reaches the frame.
-/

namespace Arm

/-- The exception is taken: the processor has set the system registers. -/
def Machine.take (m : Machine) (sys : SysReg → Word) : Machine := { m with sys := sys }

@[simp] theorem Machine.take_sp (m : Machine) (sys : SysReg → Word) : (m.take sys).sp = m.sp := rfl

/-- Code that saves a frame of `size` bytes, and code that restores from it after the call between them. -/
structure FrameStub where
  size : Nat
  save : List Instr
  restore : List Instr

namespace FrameStub

/-- The machine when the handler starts; `link` is the address after the `bl`. -/
def called (f : FrameStub) (m : Machine) (link : Word) : Machine := (m.run f.save).bl link

/-- The machine at the `eret`, once the handler has returned. -/
def eret (f : FrameStub) (m : Machine) : Machine := m.run f.restore

/-- The byte is at or above a stack pointer. A frame at the stack pointer counts as above it also where
it wraps around the address space. -/
def AtOrAbove (f : FrameStub) (sp a : Word) : Prop := sp ≤ a ∨ (a - sp).toNat < f.size

/-- The frame has `word m i` at offset `8 * i`, with the general registers in front, and these are read
back from there. -/
structure Holds (f : FrameStub) (slots : Nat) (word : Machine → Nat → Word) : Prop where
  fits : 8 * slots ≤ f.size
  size_lt : f.size < 2 ^ 64
  save_sp : ∀ m : Machine, (m.run f.save).sp = m.sp - .ofNat 64 f.size
  save_mem : ∀ m : Machine,
    (m.run f.save).mem = m.mem.storeAll (m.sp - .ofNat 64 f.size) (Memory.words (word m) slots)
  restore_sp : ∀ m : Machine, (m.run f.restore).sp = m.sp + .ofNat 64 f.size
  restore_mem : ∀ m : Machine, (m.run f.restore).mem = m.mem
  registers : 31 ≤ slots
  word_x : ∀ (m : Machine) (i : Fin 31), word m i = m.x i
  restore_x : ∀ m : Machine, (m.run f.restore).x = fun i : Fin 31 => m.mem.load64 (m.sp + .ofNat 64 (8 * i))

/-- What a handler body can do without a write to a byte in `P`: nothing, run code of its own that is free
with everything else, or take an exception through the stub and go on after its `eret`. -/
inductive Body (f : FrameStub) : (Word → Prop) → Machine → Machine → Prop where
  | done {P : Word → Prop} {m : Machine} : Body f P m m
  | code {P : Word → Prop} {m m₁ m₂ : Machine} : (∀ a, P a → m₁.mem a = m.mem a) → Body f P m₁ m₂ → Body f P m m₂
  | exception {P : Word → Prop} {m m₁ m₂ : Machine} (sys : SysReg → Word) (link : Word) :
      (∀ k < f.size, ¬ P (m.sp - .ofNat 64 f.size + .ofNat 64 k)) →
      Body f (fun a => P a ∨ f.AtOrAbove (f.called (m.take sys) link).sp a) (f.called (m.take sys) link) m₁ →
      m₁.sp = (f.called (m.take sys) link).sp →
      Body f P (f.eret m₁) m₂ → Body f P m m₂

/-- A body that only knows its own entry: its code does not write at or above the stack pointer `sp` it was
called with, and exceptions find the stack pointer at or below it, with room for a frame. -/
inductive Nested (f : FrameStub) : Word → Machine → Machine → Prop where
  | done {sp : Word} {m : Machine} : Nested f sp m m
  | code {sp : Word} {m m₁ m₂ : Machine} :
      (∀ a, f.AtOrAbove sp a → m₁.mem a = m.mem a) → Nested f sp m₁ m₂ → Nested f sp m m₂
  | exception {sp : Word} {m m₁ m₂ : Machine} (sys : SysReg → Word) (link : Word) : m.sp ≤ sp → f.size ≤ m.sp.toNat →
      Nested f (m.sp - .ofNat 64 f.size) (f.called (m.take sys) link) m₁ →
      m₁.sp = m.sp - .ofNat 64 f.size →
      Nested f sp (f.eret m₁) m₂ → Nested f sp m m₂

variable {f : FrameStub} {slots i : Nat} {word : Machine → Nat → Word} {m m' m₁ : Machine} {P Q : Word → Prop}
  {a sp link : Word}

/-- A body that stays away from more bytes stays away from fewer. -/
theorem Body.mono (h : f.Body P m m') (hPQ : ∀ a, Q a → P a) : f.Body Q m m' := by
  induction h generalizing Q with
  | done => exact .done
  | code hmem _ ih => exact .code (fun a ha => hmem a (hPQ a ha)) (ih hPQ)
  | exception sys link hframe _ hsp _ ih ih' =>
    apply Body.exception sys link (fun k hk hq => hframe k hk (hPQ _ hq)) _ hsp (ih' hPQ)
    apply ih
    rintro a (ha | ha)
    · exact .inl (hPQ a ha)
    · exact .inr ha

/-- The bytes of a frame that holds no byte of `P`, seen from `P`. -/
theorem outside_frame {b : Word} (hframe : ∀ k < f.size, ¬ P (b + .ofNat 64 k)) (ha : P a) : f.size ≤ (a - b).toNat := by
  by_contra hlt
  have hbyte : b + .ofNat 64 (a - b).toNat = a := by
    rw [BitVec.ofNat_toNat, BitVec.setWidth_eq, BitVec.add_comm, BitVec.sub_add_cancel]
  have hnot := hframe _ (Nat.not_le.mp hlt)
  rw [hbyte] at hnot
  exact hnot ha

/-! ### What the frame keeps -/

namespace Holds

theorem called_sp (hf : f.Holds slots word) (m : Machine) (link : Word) : (f.called m link).sp = m.sp - .ofNat 64 f.size :=
  hf.save_sp m

/-- Memory outside the frame is as before. -/
theorem save_outside (hf : f.Holds slots word) (ha : f.size ≤ (a - (m.sp - .ofNat 64 f.size)).toNat) :
    (m.run f.save).mem a = m.mem a := by
  have hfits := hf.fits
  have hsize := hf.size_lt
  rw [hf.save_mem]
  exact Memory.words_outside (by omega) (by omega)

theorem load_save (hf : f.Holds slots word) (hi : i < slots) :
    (m.run f.save).mem.load64 (m.sp - .ofNat 64 f.size + .ofNat 64 (8 * i)) = word m i := by
  have hfits := hf.fits
  have hsize := hf.size_lt
  rw [hf.save_mem]
  exact Memory.load64_words (by omega) hi

/-- No body writes to `P`, whatever exceptions it takes. -/
theorem preserves (hf : f.Holds slots word) (h : f.Body P m m') : ∀ a, P a → m'.mem a = m.mem a := by
  induction h with
  | done => exact fun _ _ => rfl
  | code hmem _ ih =>
    intro a ha
    rw [ih a ha, hmem a ha]
  | @exception P m m₁ m₂ sys link hframe _ _ _ ih ih' =>
    intro a ha
    calc m₂.mem a = (f.eret m₁).mem a := ih' a ha
      _ = m₁.mem a := congrFun (hf.restore_mem m₁) a
      _ = (f.called (m.take sys) link).mem a := ih a (.inl ha)
      _ = ((m.take sys).run f.save).mem a := rfl
      _ = (m.take sys).mem a := hf.save_outside (outside_frame hframe ha)
      _ = m.mem a := rfl

variable (hf : f.Holds slots word)
  (hmem : ∀ a, f.AtOrAbove (f.called m link).sp a → m₁.mem a = (f.called m link).mem a)
  (hsp : m₁.sp = (f.called m link).sp)

include hf hmem hsp in
/-- If nothing at or above the stack pointer has changed, the frame holds what was saved. -/
theorem load_after (hi : i < slots) : m₁.mem.load64 (m₁.sp + .ofNat 64 (8 * i)) = word m i := by
  have hfits := hf.fits
  have hsize := hf.size_lt
  have hentry := hf.called_sp m link
  rw [hsp, hentry, ← hf.load_save hi]
  apply Memory.load64_congr
  intro j hj
  have hbyte : m.sp - .ofNat 64 f.size + .ofNat 64 (8 * i) + .ofNat 64 j = m.sp - .ofNat 64 f.size + .ofNat 64 (8 * i + j) := by
    rw [BitVec.add_assoc, ← BitVec.ofNat_add]
  rw [hbyte]
  apply hmem
  right
  rw [hentry, Memory.add_sub_self, BitVec.toNat_ofNat]
  omega

include hf hsp in
theorem eret_sp : (f.eret m₁).sp = m.sp := by
  have hentry := hf.called_sp m link
  rw [eret, hf.restore_sp, hsp, hentry, BitVec.sub_add_cancel]

include hf hmem hsp in
theorem eret_x : (f.eret m₁).x = m.x := by
  rw [eret, hf.restore_x]
  funext i
  have hi : i.val < slots := Nat.lt_of_lt_of_le i.isLt hf.registers
  rw [hf.load_after hmem hsp hi, hf.word_x]

end Holds

/-! ### Handlers that keep to their part of the stack -/

/-- What is at or above a stack pointer is at or above any lower one. -/
theorem AtOrAbove.lower {b : Word} (h : f.AtOrAbove sp a) (hfit : sp.toNat + f.size ≤ 2 ^ 64) (hle : b.toNat ≤ sp.toNat) :
    f.AtOrAbove b a := by
  left
  rw [BitVec.le_def]
  rcases h with h | h
  · rw [BitVec.le_def] at h
    omega
  · rw [BitVec.toNat_sub] at h
    have ha := a.isLt
    omega

theorem toNat_sub_size (h : f.size ≤ sp.toNat) : (sp - .ofNat 64 f.size).toNat = sp.toNat - f.size := by
  have hlt := sp.isLt
  rw [BitVec.toNat_sub, BitVec.toNat_ofNat]
  omega

/-- Each handler only has to respect its own entry: the frames nest, so it respects the outer ones too. -/
theorem Nested.body (h : f.Nested sp m m') (hf : f.Holds slots word) (hfit : sp.toNat + f.size ≤ 2 ^ 64) :
    f.Body (f.AtOrAbove sp) m m' := by
  induction h with
  | done => exact .done
  | code hmem _ ih => exact .code hmem (ih hfit)
  | @exception sp m m₁ m₂ sys link hle hroom _ hsp _ ih ih' =>
    have hentry : (f.called (m.take sys) link).sp = m.sp - .ofNat 64 f.size := hf.called_sp _ _
    have hbase := toNat_sub_size hroom
    have hlt := m.sp.isLt
    rw [BitVec.le_def] at hle
    apply Body.exception sys link _ _ (hsp.trans hentry.symm) (ih' hfit)
    · intro k hk habove
      have hbyte : (m.sp - .ofNat 64 f.size + .ofNat 64 k).toNat = m.sp.toNat - f.size + k := by
        rw [BitVec.toNat_add, hbase, BitVec.toNat_ofNat]
        omega
      rcases habove with habove | habove
      · rw [BitVec.le_def, hbyte] at habove
        omega
      · rw [BitVec.toNat_sub, hbyte] at habove
        omega
    · apply Body.mono (ih (by omega))
      rw [hentry]
      rintro a (ha | ha)
      · exact ha.lower hfit (by omega)
      · exact ha

end FrameStub

end Arm
