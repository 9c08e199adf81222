import Armv8Driver.Gic.Ticks

/-!
# The timer's drift

`timer_reload` counts a period from where the counter is, and not from where it has expired, so that each interrupt's
latency stays in the tick count. If none is more than `d`, a tick takes at most `d` more than a period.
-/

namespace Armv8Driver.Gic

open Transition
open Uart (IrqPc Config)

/-- The counter is reloaded at most `d` after it has reached the compare value. -/
def Prompt (d : Nat) (s : Machine) (a : Act) : Prop := a = .tick → s.main.Programmed → s.now < s.cntp_cval_el0 + d

def Timely (d : Nat) (s : Machine) (a : Act) : Prop := Honest s a ∧ Prompt d s a

instance (pc : MainPc) : Decidable pc.Programmed := inferInstanceAs (Decidable (_ ∧ _))

instance (d : Nat) (s : Machine) (a : Act) : Decidable (Prompt d s a) := inferInstanceAs (Decidable (_ → _ → _))

instance (d : Nat) (s : Machine) (a : Act) : Decidable (Timely d s a) := inferInstanceAs (Decidable (_ ∧ _))

/-- The ticks are where they should be, but for the latencies, and none is missing. -/
structure InStep (f d : Nat) (s : Machine) (log : List Event) : Prop where
  early : ∀ t₀ k t, .programmed t₀ ∈ log → (increments log)[k]? = some t → t₀ + (k + 1) * f ≤ t
  late : ∀ t₀ k t, .programmed t₀ ∈ log → (increments log)[k]? = some t → t ≤ t₀ + (k + 1) * (f + d)
  next : ∀ t₀, .programmed t₀ ∈ log → s.now ≤ t₀ + ((increments log).length + 1) * (f + d)

/-! ### The invariant -/

/-- The reload to come, once the handler has counted. -/
def owed (f d : Nat) (pc : IrqPc) : Nat := if Reloading pc then f + d else 0

@[simp] theorem owed_countTimer (f d : Nat) (irq : Uart.Reg) : owed f d (.countTimer irq) = 0 := rfl

@[simp] theorem owed_reloadTimer (f d : Nat) (irq : Uart.Reg) : owed f d (.reloadTimer irq) = f + d := rfl

@[simp] theorem owed_afterTimer (f d : Nat) (irq : Uart.Reg) : owed f d (.afterTimer irq) = 0 := by
  rw [owed, reloading_afterTimer]
  rfl

structure Close (f d : Nat) (s : Machine) (t₀ : Nat) (ticks : List Nat) : Prop where
  cval : s.cntp_cval_el0 + owed f d s.cpu.pc ≤ t₀ + f + (ticks.length * (f + d) : Nat)
  now : s.now ≤ s.cntp_cval_el0 + d
  late : ∀ k t, ticks[k]? = some t → t ≤ t₀ + (k + 1) * (f + d)

variable {c : Config} {f : BitVec 64} {d t₀ : Nat} {s t : Machine} {a : Act} {ticks : List Nat}

theorem Close.keep (h : Close f.toNat d s t₀ ticks) (hnow : t.now = s.now) (hcval : t.cntp_cval_el0 = s.cntp_cval_el0)
    (hreload : Reloading t.cpu.pc = Reloading s.cpu.pc) : Close f.toNat d t t₀ ticks where
  cval := by
    rw [hcval, owed, hreload]
    exact h.cval
  now := by
    rw [hcval, hnow]
    exact h.now
  late := h.late

/-- The handler counts before the interrupt is `d` late. -/
theorem Close.concat (h : Close f.toNat d s t₀ ticks) : s.now ≤ t₀ + (ticks.length + 1) * (f.toNat + d) := by
  have hcval := h.cval
  have hnow := h.now
  rw [Nat.succ_mul]
  omega

theorem Close.step (h : Close f.toNat d s t₀ ticks) (hprog : Programmed f s t₀ ticks) (hf : f.toNat < 2 ^ 31)
    (hok : Prompt d s a) (hstep : Moves f s a t) {more : List Nat} (hmore : (event s a).toList = more.map .increment) :
    Close f.toNat d t t₀ (ticks ++ more) := by
  have hkeep : Close f.toNat d t t₀ ticks → event s a = none → Close f.toNat d t t₀ (ticks ++ more) := by
    intro ht hquiet
    rw [hquiet] at hmore
    rwa [List.map_eq_nil_iff.mp hmore.symm, List.append_nil]
  cases hstep with
  | tick =>
    refine hkeep ⟨h.cval, ?_, h.late⟩ rfl
    have hsoon := hok rfl hprog.main
    push_cast
    omega
  | readFrequency hmain => exact absurd hmain hprog.main.1
  | writeTval hmain => exact absurd hmain hprog.main.2
  | boot ctl dev pc hmain hpc => exact hkeep (h.keep rfl rfl rfl) (if_neg hmain.2)
  | irq hmain hpc => exact hkeep (h.keep rfl rfl (by rw [hpc]; rfl)) rfl
  | acknowledge id hpc => exact hkeep (h.keep rfl rfl (by rw [hpc]; rfl)) rfl
  | storeLast irq hpc =>
    have hquiet : event s .handler = none := by simp [event, hpc]
    refine hkeep (h.keep rfl rfl ?_) hquiet
    dsimp only
    rw [hpc]
    split_ifs
    · rfl
    · exact reloading_afterTimer irq
  | countTimer irq hpc =>
    have hevent : event s .handler = some (.increment s.now) := by simp [event, hpc]
    have hone : more.map Event.increment = [s.now].map .increment := by
      rw [← hmore, hevent]
      rfl
    rw [List.map_injective_iff.mpr (fun _ _ => Event.increment.inj) hone]
    have hcval := h.cval
    rw [hpc, owed_countTimer] at hcval
    refine ⟨?_, h.now, fun k t hk => ?_⟩
    · rw [List.length_append, List.length_singleton, Nat.succ_mul]
      dsimp only
      rw [owed_reloadTimer]
      omega
    · rcases Nat.lt_trichotomy k ticks.length with hlt | rfl | hgt
      · rw [List.getElem?_append_left hlt] at hk
        exact h.late k t hk
      · rw [List.getElem?_concat_length] at hk
        cases hk
        exact h.concat
      · rw [List.getElem?_eq_none (by rw [List.length_append, List.length_singleton]; omega)] at hk
        cases hk
  | reloadTimer irq hpc =>
    have hquiet : event s .handler = none := by simp [event, hpc]
    have htval := writeTval_cval hf s
    have hcval := h.cval
    have hnow := h.now
    rw [hpc, owed_reloadTimer] at hcval
    refine hkeep ⟨?_, ?_, h.late⟩ hquiet
    · rw [hprog.freq]
      dsimp only
      rw [owed_afterTimer]
      omega
    · rw [hprog.freq]
      dsimp only [Machine.writeTval] at htval ⊢
      omega
  | uart _ _ _ _ hpc | uartReturns _ _ hpc | endInterrupt _ hpc =>
    have hquiet : event s .handler = none := by simp [event, hpc]
    exact hkeep (h.keep rfl rfl (by rw [hpc]; rfl)) hquiet
  | line b dev => exact hkeep (h.keep rfl rfl rfl) rfl

def DriftInv (f : BitVec 64) (d : Nat) (s : Machine) (log : List Event) : Prop :=
  Unprogrammed f s ∧ log = [] ∨
    ∃ t₀ ticks, Programmed f s t₀ ticks ∧ Close f.toNat d s t₀ ticks ∧ log = .programmed t₀ :: ticks.map .increment

theorem event_programmed (h : event s a = some (.programmed t₀)) : a = .main ∧ s.main = .writeTval ∧ s.now = t₀ := by
  cases a with
  | main =>
    obtain ⟨hmain, htime⟩ := Option.ite_none_right_eq_some.mp h
    cases htime
    exact ⟨rfl, hmain, rfl⟩
  | handler =>
    simp only [event] at h
    split at h
    · cases h
    · cases h
  | _ => cases h

/-- `timer_init` programs a full period. -/
theorem Unprogrammed.close (h : Unprogrammed f s) (hf : f.toNat < 2 ^ 31) (hstep : Moves f s a t)
    (hevent : event s a = some (.programmed t₀)) : Close f.toNat d t t₀ [] := by
  obtain ⟨rfl, hmain, rfl⟩ := event_programmed hevent
  have htval := writeTval_cval hf s
  cases hstep with
  | readFrequency hread => exact nomatch hmain.symm.trans hread
  | boot _ _ _ hnot _ => exact absurd hmain hnot.2
  | writeTval _ =>
    have hfreq : s.cpu.timer_freq = f := h.main.elim (fun hread => nomatch hmain.symm.trans hread) And.right
    rw [hfreq]
    refine ⟨?_, ?_, nofun⟩
    · dsimp only
      rw [h.pc, htval, List.length_nil, Nat.zero_mul]
      exact Int.le_refl _
    · dsimp only [Machine.writeTval] at htval ⊢
      omega

theorem DriftInv.step {log : List Event} (h : DriftInv f d s log) (hf : f.toNat < 2 ^ 31) (hok : Timely d s a)
    (hstep : Moves f s a t) : DriftInv f d t (log ++ (event s a).toList) := by
  obtain ⟨hnot, rfl⟩ | ⟨t₀, ticks, hprog, hclose, rfl⟩ := h
  · obtain ⟨ht, hlog⟩ | ⟨t₀, ticks, hprog, hlog⟩ := hnot.step hf hstep
    · exact .inl ⟨ht, by rw [List.nil_append, hlog]⟩
    · have hevent : event s a = some (.programmed t₀) := by
        rw [← Option.mem_toList, hlog]
        exact List.mem_cons_self
      rw [hevent] at hlog
      obtain rfl : ticks = [] := List.map_eq_nil_iff.mp (List.cons.inj hlog).2.symm
      exact .inr ⟨t₀, [], hprog, hnot.close hf hstep hevent, by rw [hevent]; rfl⟩
  · obtain ⟨more, ht, hevent⟩ := hprog.step hf hok.1 hstep
    refine .inr ⟨t₀, ticks ++ more, ht, hclose.step hprog hf hok.2 hstep hevent, ?_⟩
    rw [hevent, List.map_append, List.cons_append]

theorem DriftInv.inStep {log : List Event} (h : DriftInv f d s log) : InStep f.toNat d s log := by
  obtain ⟨-, rfl⟩ | ⟨t₀, ticks, hprog, hclose, rfl⟩ := h
  · exact ⟨nofun, nofun, nofun⟩
  · have hfirst : ∀ t, .programmed t ∈ Event.programmed t₀ :: ticks.map .increment → t = t₀ := by
      intro t ht
      simpa using ht
    constructor
    · intro t k b ht hk
      rw [increments_programmed] at hk
      rw [hfirst t ht]
      exact hprog.spaced.le_getElem hk
    · intro t k b ht hk
      rw [increments_programmed] at hk
      rw [hfirst t ht]
      exact hclose.late k b hk
    · intro t ht
      rw [increments_programmed, hfirst t ht]
      exact hclose.concat

/-- For every frequency of 31 bits, in every run in which the handler is at most `d` late with the reload: the `k`-th tick
is `k` periods behind `timer_init`, and at most `k` times `d` more, and no tick is missing. -/
theorem ticks_inStep (hf : f.toNat < 2 ^ 31) {x : Machine × List Event}
    (h : ((system c f).logged event).ReachableUnder (fun x a => Timely d x.1 a) x) :
    InStep f.toNat d x.1 x.2 := by
  refine DriftInv.inStep (f := f) ?_
  refine System.ReachableUnder.log_invariant (I := DriftInv f d) h ?_ ?_
  · intro s hinit
    obtain ⟨hmain, hpc, -, hcount⟩ := hinit
    exact .inl ⟨⟨.inl hmain, hpc, hcount⟩, rfl⟩
  · intro s log a t _ hinv hok hstep
    exact hinv.step hf hok (step_moves hstep)

/-- Two periods of three, each interrupt a tick late, and a tick between the count and the reload. -/
def lateTicks : Machine × List Event :=
  ((((system Uart.qemu 3).logged event).checked fun x a => decide (Timely 2 x.1 a)).run (started, [])
    (List.replicate 6 .main ++ .tick :: period ++ List.replicate 4 .tick ++
      [.irq, .acknowledge 30, .handler, .handler, .tick, .handler, .handler])).get rfl

theorem lateTicks_inStep : increments lateTicks.2 = [9, 13] ∧ InStep 3 2 lateTicks.1 lateTicks.2 :=
  ⟨rfl, ticks_inStep (c := Uart.qemu) (f := 3) (by decide)
    ⟨(started, []), ⟨⟨rfl, rfl, rfl, rfl⟩, rfl⟩, .of_checked (fun _ _ h => of_decide_eq_true h) (Option.some_get _).symm⟩⟩

end Armv8Driver.Gic
