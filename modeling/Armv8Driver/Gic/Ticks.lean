import Mathlib.Algebra.Group.Nat.Defs
import Mathlib.Data.List.Basic
import Armv8Driver.Gic.Machine
import Armv8Driver.Transition.Spaced
import Armv8Driver.Uart.Stranded

/-!
# The timer's ticks are not counted early

The compare value is at least one period behind the last increment, except between an increment and the
reload that follows it; there the interrupt has not ended, so that nothing is acknowledged.
-/

namespace Armv8Driver.Gic

open Transition
open Uart (IrqPc Config TIMER_IRQ UART_IRQ)

/-- The timer's interrupt is pending exactly while the counter has reached the compare value. -/
def Honest (s : Machine) (a : Act) : Prop := a = .acknowledge 30 → s.cntp_cval_el0 ≤ s.now

instance (s : Machine) (a : Act) : Decidable (Honest s a) := inferInstanceAs (Decidable (_ → _))

/-- `timer_init` programs the timer, or the handler counts. -/
inductive Event where
  | programmed (now : Nat)
  | increment (now : Nat)
  deriving DecidableEq

def event (s : Machine) : Act → Option Event
  | .main => if s.main = .writeTval then some (.programmed s.now) else none
  | .handler =>
    match s.cpu.pc with
    | .countTimer _ => some (.increment s.now)
    | _ => none
  | _ => none

def Event.incrementTime : Event → Option Nat
  | .programmed _ => none
  | .increment t => some t

def increments (log : List Event) : List Nat := log.filterMap Event.incrementTime

/-- No tick is counted before its time, and none twice. -/
structure OnTime (f : Nat) (s : Machine) (log : List Event) : Prop where
  counted : s.cpu.timer_irq_count = BitVec.ofNat 64 (increments log).length
  due : ∀ t₀, .programmed t₀ ∈ log → t₀ + s.cpu.timer_irq_count.toNat * f ≤ s.now
  apart : (increments log).IsChain fun a b => a + f ≤ b

/-! ### The invariant -/

/-- The handler has counted and not yet reloaded. -/
def Reloading : IrqPc → Bool
  | .reloadTimer _ => true
  | _ => false

/-- The handler will count. -/
def Counting : IrqPc → Bool
  | .storeLast irq => irq = TIMER_IRQ
  | .countTimer _ => true
  | _ => false

theorem reloading_afterTimer (irq : Uart.Reg) : Reloading (.afterTimer irq) = false := by
  unfold IrqPc.afterTimer
  split_ifs <;> rfl

theorem counting_afterTimer (irq : Uart.Reg) : Counting (.afterTimer irq) = false := by
  unfold IrqPc.afterTimer
  split_ifs <;> rfl

structure Unprogrammed (f : BitVec 64) (s : Machine) : Prop where
  main : s.main = .readFrequency ∨ s.main = .writeTval ∧ s.cpu.timer_freq = f
  pc : s.cpu.pc = .returned
  count : s.cpu.timer_irq_count = 0

structure Programmed (f : BitVec 64) (s : Machine) (t₀ : Nat) (ticks : List Nat) : Prop where
  main : s.main.Programmed
  freq : s.cpu.timer_freq = f
  count : s.cpu.timer_irq_count = BitVec.ofNat 64 ticks.length
  spaced : Spaced f.toNat t₀ ticks
  past : ticks.getLastD t₀ ≤ s.now
  ahead : Reloading s.cpu.pc = false → (ticks.getLastD t₀ : Int) + f.toNat ≤ s.cntp_cval_el0
  expired : Counting s.cpu.pc = true → s.cntp_cval_el0 ≤ s.now

def TimerInv (f : BitVec 64) (s : Machine) (log : List Event) : Prop :=
  Unprogrammed f s ∧ log = [] ∨
    ∃ t₀ ticks, Programmed f s t₀ ticks ∧ log = .programmed t₀ :: ticks.map .increment

variable {c : Config} {f : BitVec 64} {s t : Machine} {a : Act} {t₀ : Nat} {ticks : List Nat}

theorem increments_programmed (t₀ : Nat) (ticks : List Nat) :
    increments (.programmed t₀ :: ticks.map .increment) = ticks := by
  have hsome : Event.incrementTime ∘ Event.increment = some := rfl
  rw [increments, List.filterMap_cons_none rfl, List.filterMap_map, hsome, List.filterMap_some]

theorem TimerInv.onTime {log : List Event} (h : TimerInv f s log) : OnTime f.toNat s log := by
  obtain ⟨hnot, rfl⟩ | ⟨t₀, ticks, hprog, rfl⟩ := h
  · exact ⟨hnot.count, nofun, List.isChain_nil⟩
  · refine ⟨?_, ?_, ?_⟩
    · rw [increments_programmed]
      exact hprog.count
    · intro t ht
      have hfirst : t = t₀ := by simpa using ht
      have hmul := hprog.spaced.length_mul_le
      have hpast := hprog.past
      have hwrap : s.cpu.timer_irq_count.toNat ≤ ticks.length := by
        rw [hprog.count, BitVec.toNat_ofNat]
        exact Nat.mod_le _ _
      have hcount := Nat.mul_le_mul_right f.toNat hwrap
      omega
    · rw [increments_programmed]
      exact hprog.spaced.tail

/-- A frequency of 31 bits is the distance that the register takes. -/
theorem writeTval_cval (hf : f.toNat < 2 ^ 31) (s : Machine) :
    (s.writeTval f).cntp_cval_el0 = s.now + (f.toNat : Int) := by
  have hwidth : (f.setWidth 32).toNat = f.toNat := by
    rw [BitVec.toNat_setWidth]
    exact Nat.mod_eq_of_lt (by omega)
  have hsign : (f.setWidth 32).toInt = f.toNat := by
    rw [BitVec.toInt_eq_toNat_of_lt (by omega), hwidth]
  rw [Machine.writeTval, hsign]

/-- A step that leaves the timer and the phase of the handler. -/
theorem Programmed.keep (h : Programmed f s t₀ ticks) (hmain : t.main.Programmed)
    (hfreq : t.cpu.timer_freq = s.cpu.timer_freq) (hcount : t.cpu.timer_irq_count = s.cpu.timer_irq_count)
    (hnow : s.now ≤ t.now) (hcval : t.cntp_cval_el0 = s.cntp_cval_el0)
    (hreload : Reloading t.cpu.pc = Reloading s.cpu.pc)
    (hcounting : Counting t.cpu.pc = true → t.cntp_cval_el0 ≤ t.now) : Programmed f t t₀ ticks where
  main := hmain
  freq := hfreq.trans h.freq
  count := hcount.trans h.count
  spaced := h.spaced
  past := h.past.trans hnow
  ahead hr := by
    rw [hcval]
    exact h.ahead (hreload ▸ hr)
  expired := hcounting

/-- The handler acknowledges the timer only where the counter has reached the compare value. -/
theorem counting_acknowledge {id : Intid} (h : Counting (.storeLast (id.setWidth 32)) = true) : id = 30 := by
  have heq : id.setWidth 32 = TIMER_IRQ := by simpa [Counting] using h
  have hnat := congrArg BitVec.toNat heq
  rw [BitVec.toNat_setWidth, TIMER_IRQ] at hnat
  have hlt := id.isLt
  apply BitVec.eq_of_toNat_eq
  have hsmall : id.toNat % 2 ^ 32 = id.toNat := Nat.mod_eq_of_lt (by omega)
  rw [hsmall] at hnat
  exact hnat

theorem Unprogrammed.step (h : Unprogrammed f s) (hf : f.toNat < 2 ^ 31) (hstep : Moves f s a t) :
    TimerInv f t (event s a).toList := by
  have hpc := h.pc
  have hnot : ¬ s.main.Programmed := by
    rintro ⟨hread, hwrite⟩
    exact h.main.elim hread fun hmain => hwrite hmain.1
  cases hstep with
  | tick => exact .inl ⟨⟨h.main, hpc, h.count⟩, rfl⟩
  | readFrequency hmain =>
    have hquiet : event s .main = none := by simp [event, hmain]
    rw [hquiet]
    exact .inl ⟨⟨.inr ⟨rfl, rfl⟩, hpc, h.count⟩, rfl⟩
  | writeTval hmain =>
    have hfreq : s.cpu.timer_freq = f := by
      refine h.main.elim (fun hread => ?_) fun hwrite => hwrite.2
      rw [hmain] at hread
      cases hread
    have hevent : event s .main = some (.programmed s.now) := by simp [event, hmain]
    have hcval := writeTval_cval hf s
    rw [hevent]
    refine .inr ⟨s.now, [], ⟨⟨nofun, nofun⟩, hfreq, h.count, .nil, le_rfl, fun _ => ?_, fun hcounting => ?_⟩, rfl⟩
    · rw [hfreq, List.getLastD_nil]
      exact Int.le_of_eq hcval.symm
    · dsimp only at hcounting
      rw [hpc] at hcounting
      cases hcounting
  | boot _ _ _ hmain _ => exact absurd hmain hnot
  | irq hmain _ => exact absurd (hmain ▸ ⟨nofun, nofun⟩) hnot
  | line => exact .inl ⟨⟨h.main, hpc, h.count⟩, rfl⟩
  | acknowledge _ hin | storeLast _ hin | countTimer _ hin | reloadTimer _ hin | uart _ _ _ _ hin | uartReturns _ _ hin
  | endInterrupt _ hin => exact nomatch hpc.symm.trans hin

theorem Programmed.step (h : Programmed f s t₀ ticks) (hf : f.toNat < 2 ^ 31) (hok : Honest s a)
    (hstep : Moves f s a t) : ∃ more, Programmed f t t₀ (ticks ++ more) ∧
      (event s a).toList = more.map .increment := by
  have hkeep : Programmed f t t₀ ticks → event s a = none → ∃ more, Programmed f t t₀ (ticks ++ more) ∧
      (event s a).toList = more.map .increment := by
    intro ht hquiet
    exact ⟨[], by rwa [List.append_nil], by rw [hquiet]; rfl⟩
  cases hstep with
  | tick =>
    refine hkeep (h.keep h.main rfl rfl (Nat.le_succ _) rfl rfl fun hcounting => ?_) rfl
    have hexpired := h.expired hcounting
    push_cast
    omega
  | readFrequency hmain => exact absurd hmain h.main.1
  | writeTval hmain => exact absurd hmain h.main.2
  | boot ctl d pc hmain hpc => exact hkeep (h.keep hpc rfl rfl le_rfl rfl rfl h.expired) (if_neg hmain.2)
  | irq hmain hpc => exact hkeep (h.keep h.main rfl rfl le_rfl rfl (by rw [hpc]; rfl) nofun) rfl
  | acknowledge id hpc =>
    refine hkeep (h.keep h.main rfl rfl le_rfl rfl (by rw [hpc]; rfl) fun hcounting => ?_) rfl
    exact hok (congrArg _ (counting_acknowledge hcounting))
  | storeLast irq hpc =>
    have hquiet : event s .handler = none := by simp [event, hpc]
    refine hkeep (h.keep h.main rfl rfl le_rfl rfl ?_ fun hcounting => h.expired ?_) hquiet
    · dsimp only
      rw [hpc]
      split_ifs
      · rfl
      · exact reloading_afterTimer irq
    · dsimp only at hcounting
      rw [hpc]
      split_ifs at hcounting with htimer
      · exact decide_eq_true htimer
      · rw [counting_afterTimer] at hcounting
        cases hcounting
  | countTimer irq hpc =>
    have hevent : event s .handler = some (.increment s.now) := by simp [event, hpc]
    have hahead := h.ahead (by rw [hpc]; rfl)
    have hexpired := h.expired (by rw [hpc]; rfl)
    refine ⟨[s.now], ⟨h.main, h.freq, ?_, h.spaced.concat (by omega), ?_, nofun, nofun⟩, by rw [hevent]; rfl⟩
    · rw [List.length_append, List.length_singleton, BitVec.ofNat_add, ← h.count]
      rfl
    · rw [List.getLastD_concat]
  | reloadTimer irq hpc =>
    have hquiet : event s .handler = none := by simp [event, hpc]
    have hcval := writeTval_cval hf s
    have hpast := h.past
    refine hkeep ⟨h.main, h.freq, h.count, h.spaced, hpast, fun _ => ?_, fun hcounting => ?_⟩ hquiet
    · rw [h.freq]
      dsimp only
      omega
    · rw [counting_afterTimer] at hcounting
      cases hcounting
  | uart _ _ _ _ hpc | uartReturns _ _ hpc | endInterrupt _ hpc =>
    have hquiet : event s .handler = none := by simp [event, hpc]
    exact hkeep (h.keep h.main rfl rfl le_rfl rfl (by rw [hpc]; rfl) nofun) hquiet
  | line b d => exact hkeep (h.keep h.main rfl rfl le_rfl rfl rfl h.expired) rfl

theorem TimerInv.step {log : List Event} (h : TimerInv f s log) (hf : f.toNat < 2 ^ 31) (hok : Honest s a)
    (hstep : Moves f s a t) : TimerInv f t (log ++ (event s a).toList) := by
  obtain ⟨hnot, rfl⟩ | ⟨t₀, ticks, hprog, rfl⟩ := h
  · rw [List.nil_append]
    exact hnot.step hf hstep
  · obtain ⟨more, ht, hevent⟩ := hprog.step hf hok hstep
    exact .inr ⟨t₀, ticks ++ more, ht, by rw [hevent, List.map_append, List.cons_append]⟩

/-- For every frequency of 31 bits, in every run: the count stays behind the time since `timer_init`
programmed the timer, and two increments are a period apart. -/
theorem ticks_onTime (hf : f.toNat < 2 ^ 31) {x : Machine × List Event}
    (h : ((system c f).logged event).ReachableUnder (fun x a => Honest x.1 a) x) : OnTime f.toNat x.1 x.2 := by
  refine TimerInv.onTime (f := f) ?_
  refine System.ReachableUnder.log_invariant (I := TimerInv f) h ?_ ?_
  · rintro s ⟨hmain, hpc, -, hcount⟩
    exact .inl ⟨⟨.inl hmain, hpc, hcount⟩, rfl⟩
  · intro s log a t _ hinv hok hstep
    exact hinv.step hf hok (step_moves hstep)

/-- One period, and the exception that ends it. -/
def period : List Act :=
  List.replicate 3 .tick ++ [.irq, .acknowledge 30] ++ List.replicate 4 .handler

/-- Two periods of three ticks, the second interrupt a tick late. -/
def twoPeriods : Machine × List Event :=
  ((((system Uart.qemu 3).logged event).checked fun x a => decide (Honest x.1 a)).run (started, [])
    (List.replicate 6 .main ++ period ++ .tick :: period)).get rfl

theorem twoPeriods_onTime : twoPeriods.1.cpu.timer_irq_count = 2 ∧ OnTime 3 twoPeriods.1 twoPeriods.2 :=
  ⟨rfl, ticks_onTime (c := Uart.qemu) (f := 3) (by decide)
    ⟨(started, []), ⟨⟨rfl, rfl, rfl, rfl⟩, rfl⟩, .of_checked (fun _ _ h => of_decide_eq_true h) (Option.some_get _).symm⟩⟩

end Armv8Driver.Gic
