import Armv8Driver.CompletionDemo.Model
import Armv8Driver.IrqDemo.History

/-!
# The signal that a failed read has taken

`irq_demo_read` and `status_read` take a signal from a completion before they copy, and give none back
when the copy fails. A log has the statements of all calls, with what each did to the count of the
completion and to `*off`; the net effect of a call is the sum over its own. Both calls go through the
same stages, and `Moves` is what a statement can do in each.
-/

namespace Armv8Driver.ProcRead

open Kernel Transition

/-- What a statement is: the wait that takes a signal, a copy that fails, or another. -/
inductive Kind where
  | wait
  | fault
  | other
  deriving DecidableEq

/-- A statement of the call in slot `reader`: the count before it, and the changes to the count and to
`*off`. -/
structure Statement (n : Nat) where
  reader : Fin n
  kind : Kind
  before : Nat
  done : Int
  off : Int

variable {n : Nat} {i : Fin n} {e : Statement n} {log : List (Statement n)}

/-- What the call in slot `i` has done to the count. -/
def netDone (i : Fin n) : List (Statement n) → Int
  | [] => 0
  | e :: log => (if e.reader = i then e.done else 0) + netDone i log

/-- What the call in slot `i` has done to `*off`. -/
def netOff (i : Fin n) : List (Statement n) → Int
  | [] => 0
  | e :: log => (if e.reader = i then e.off else 0) + netOff i log

def NoEffect (i : Fin n) (log : List (Statement n)) : Prop := netDone i log = 0 ∧ netOff i log = 0

/-- A copy of the call has failed. -/
def Faulted (i : Fin n) (log : List (Statement n)) : Prop := ∃ e ∈ log, e.reader = i ∧ e.kind = .fault

/-- The wait of the call has found a count that a wait lowers. -/
def Lowered (i : Fin n) (log : List (Statement n)) : Prop :=
  ∃ e ∈ log, e.reader = i ∧ e.kind = .wait ∧ e.before ≠ UINT_MAX

/-! ### The stages of a call -/

/-- A call that has taken no signal, that has taken one, or that has returned. -/
inductive Stage where
  | early
  | taken
  | ended (ret : Int)

/-- What a statement of a call can do in a stage. -/
inductive Moves : Stage → Statement n → Stage → Prop where
  | timesOut {e : Statement n} {ret : Int} (hkind : e.kind = .other) (hdone : e.done = 0) (hoff : e.off = 0) :
    Moves .early e (.ended ret)
  | takes {e : Statement n} (hkind : e.kind = .wait) (hdone : e.done = if e.before = UINT_MAX then 0 else -1)
    (hoff : e.off = 0) : Moves .early e .taken
  | goesOn {e : Statement n} (hkind : e.kind = .other) (hdone : e.done = 0) (hoff : e.off = 0) : Moves .taken e .taken
  | copies {e : Statement n} {ret : Int} (hret : 0 ≤ ret) : Moves .taken e (.ended ret)
  | faults {e : Statement n} {ret : Int} (hkind : e.kind = .fault) (hdone : e.done = 0) (hoff : e.off = 0) :
    Moves .taken e (.ended ret)

/-- The count has been lowered by one if the wait lowers it. -/
structure Took (i : Fin n) (log : List (Statement n)) : Prop where
  done : (Lowered i log ∧ netDone i log = -1) ∨ (¬ Lowered i log ∧ netDone i log = 0)
  off : netOff i log = 0

/-- What the statements of a call have done in a stage. -/
def Consistent (i : Fin n) (log : List (Statement n)) : Stage → Prop
  | .early => ¬ Faulted i log ∧ ¬ Lowered i log ∧ NoEffect i log
  | .taken => ¬ Faulted i log ∧ Took i log
  | .ended ret => 0 ≤ ret ∨ (¬ Lowered i log ∧ NoEffect i log) ∨ (Faulted i log ∧ Took i log)

theorem netDone_append : netDone i (log ++ [e]) = netDone i log + if e.reader = i then e.done else 0 := by
  induction log with
  | nil => simp [netDone]
  | cons x log ih =>
    show (if x.reader = i then x.done else 0) + netDone i (log ++ [e]) = _
    rw [ih, netDone, Int.add_assoc]

theorem netOff_append : netOff i (log ++ [e]) = netOff i log + if e.reader = i then e.off else 0 := by
  induction log with
  | nil => simp [netOff]
  | cons x log ih =>
    show (if x.reader = i then x.off else 0) + netOff i (log ++ [e]) = _
    rw [ih, netOff, Int.add_assoc]

theorem faulted_append : Faulted i (log ++ [e]) ↔ Faulted i log ∨ (e.reader = i ∧ e.kind = .fault) := by
  simp only [Faulted, List.mem_append, List.mem_singleton]
  constructor
  · rintro ⟨x, hx | rfl, hfault⟩
    · exact .inl ⟨x, hx, hfault⟩
    · exact .inr hfault
  · rintro (⟨x, hx, hfault⟩ | hfault)
    · exact ⟨x, .inl hx, hfault⟩
    · exact ⟨e, .inr rfl, hfault⟩

theorem lowered_append :
    Lowered i (log ++ [e]) ↔ Lowered i log ∨ (e.reader = i ∧ e.kind = .wait ∧ e.before ≠ UINT_MAX) := by
  simp only [Lowered, List.mem_append, List.mem_singleton]
  constructor
  · rintro ⟨x, hx | rfl, hlower⟩
    · exact .inl ⟨x, hx, hlower⟩
    · exact .inr hlower
  · rintro (⟨x, hx, hlower⟩ | hlower)
    · exact ⟨x, .inl hx, hlower⟩
    · exact ⟨e, .inr rfl, hlower⟩

/-- A statement of another call. -/
theorem Consistent.other {stage : Stage} (h : Consistent i log stage) (he : e.reader ≠ i) :
    Consistent i (log ++ [e]) stage := by
  have hdone : netDone i (log ++ [e]) = netDone i log := by rw [netDone_append, if_neg he, Int.add_zero]
  have hoff : netOff i (log ++ [e]) = netOff i log := by rw [netOff_append, if_neg he, Int.add_zero]
  have hfaulted : Faulted i (log ++ [e]) ↔ Faulted i log := by
    rw [faulted_append]
    exact or_iff_left fun hfault => he hfault.1
  have hlowered : Lowered i (log ++ [e]) ↔ Lowered i log := by
    rw [lowered_append]
    exact or_iff_left fun hlower => he hlower.1
  have htook : Took i log → Took i (log ++ [e]) := fun ht => ⟨by rw [hlowered, hdone]; exact ht.done, hoff.trans ht.off⟩
  cases stage with
  | early => exact ⟨hfaulted.not.mpr h.1, hlowered.not.mpr h.2.1, hdone.trans h.2.2.1, hoff.trans h.2.2.2⟩
  | taken => exact ⟨hfaulted.not.mpr h.1, htook h.2⟩
  | ended ret =>
    rcases h with hret | ⟨hnot, hnone⟩ | ⟨hfault, ht⟩
    · exact .inl hret
    · exact .inr (.inl ⟨hlowered.not.mpr hnot, hdone.trans hnone.1, hoff.trans hnone.2⟩)
    · exact .inr (.inr ⟨hfaulted.mpr hfault, htook ht⟩)

/-- A statement of the call itself. -/
theorem Consistent.moves {stage stage' : Stage} (h : Consistent i log stage) (he : e.reader = i) (hm : Moves stage e stage') :
    Consistent i (log ++ [e]) stage' := by
  have hdone : netDone i (log ++ [e]) = netDone i log + e.done := by rw [netDone_append, if_pos he]
  have hoff : netOff i (log ++ [e]) = netOff i log + e.off := by rw [netOff_append, if_pos he]
  have hnotFaulted : e.kind ≠ .fault → ¬ Faulted i log → ¬ Faulted i (log ++ [e]) := by
    intro hkind hnot hfault
    rcases faulted_append.mp hfault with hold | hnew
    · exact hnot hold
    · exact hkind hnew.2
  have hlowered : e.kind ≠ .wait → (Lowered i (log ++ [e]) ↔ Lowered i log) := by
    intro hkind
    rw [lowered_append]
    exact or_iff_left fun hlower => hkind hlower.2.1
  have htook : e.kind ≠ .wait → e.done = 0 → e.off = 0 → Took i log → Took i (log ++ [e]) := by
    intro hkind hzero hzero' ht
    rw [hzero, Int.add_zero] at hdone
    rw [hzero', Int.add_zero] at hoff
    exact ⟨by rw [hlowered hkind, hdone]; exact ht.done, hoff.trans ht.off⟩
  cases hm with
  | timesOut hkind hzero hzero' =>
    obtain ⟨-, hnot, hnone⟩ := h
    have hwait : e.kind ≠ .wait := by simp [hkind]
    rw [hzero, Int.add_zero] at hdone
    rw [hzero', Int.add_zero] at hoff
    exact .inr (.inl ⟨(hlowered hwait).not.mpr hnot, hdone.trans hnone.1, hoff.trans hnone.2⟩)
  | takes hkind hlower hzero' =>
    obtain ⟨hfault, hnot, hnone⟩ := h
    refine ⟨hnotFaulted (by simp [hkind]) hfault, ?_, ?_⟩
    · rw [hdone, hnone.1, hlower, lowered_append]
      by_cases hmax : e.before = UINT_MAX
      · rw [if_pos hmax]
        refine .inr ⟨?_, rfl⟩
        rintro (hold | ⟨-, -, hbelow⟩)
        · exact hnot hold
        · exact hbelow hmax
      · rw [if_neg hmax]
        exact .inl ⟨.inr ⟨he, hkind, hmax⟩, rfl⟩
    · rw [hoff, hnone.2, hzero']
      rfl
  | goesOn hkind hzero hzero' =>
    exact ⟨hnotFaulted (by simp [hkind]) h.1, htook (by simp [hkind]) hzero hzero' h.2⟩
  | copies hret => exact .inl hret
  | faults hkind hzero hzero' =>
    exact .inr (.inr ⟨faulted_append.mpr (.inr ⟨he, hkind⟩), htook (by simp [hkind]) hzero hzero' h.2⟩)

/-- What a step of the system does to the call in slot `i`, with the statement that it executes. A call past
the start of the report returns 0 with no statement. -/
inductive CallStep (i : Fin n) : Stage → Option (Statement n) → Stage → Prop where
  | idle {stage : Stage} : CallStep i stage none stage
  | other {stage : Stage} {e : Statement n} (he : e.reader ≠ i) : CallStep i stage (some e) stage
  | atEnd : CallStep i .early none (.ended 0)
  | own {stage stage' : Stage} {e : Statement n} (he : e.reader = i) (hm : Moves stage e stage') :
    CallStep i stage (some e) stage'

theorem CallStep.consistent {stage stage' : Stage} {o : Option (Statement n)} (h : CallStep i stage o stage')
    (hs : Consistent i log stage) : Consistent i (log ++ o.toList) stage' := by
  cases h with
  | idle =>
    rw [Option.toList_none, List.append_nil]
    exact hs
  | other he => exact hs.other he
  | atEnd => exact .inl (Int.le_refl 0)
  | own he hm => exact hs.moves he hm

/-- A call that has failed has had no effect exactly if its copy has not failed, or its wait has not
lowered the count. -/
theorem Consistent.noEffect_iff {ret : Int} (h : Consistent i log (.ended ret)) (hret : ret < 0) :
    NoEffect i log ↔ ¬ (Faulted i log ∧ Lowered i log) := by
  rcases h with hnonneg | ⟨hnot, hnone⟩ | ⟨hfault, ht⟩
  · omega
  · exact iff_of_true hnone fun hboth => hnot hboth.2
  · rcases ht.done with ⟨hlow, hdone⟩ | ⟨hnot, hdone⟩
    · refine iff_of_false (fun hnone => ?_) (not_not_intro ⟨hfault, hlow⟩)
      have hzero := hnone.1
      omega
    · exact iff_of_true ⟨hdone, ht.off⟩ fun hboth => hnot hboth.2

/-- From the state in which the call is made, whatever other threads do. -/
theorem noEffect_iff_of_run {σ α : Type} {M : System σ α} {statement : σ → α → Option (Statement n)}
    {stage : σ → Stage} (hstep : ∀ s a t, M.step s a = some t → CallStep i (stage s) (statement s a) (stage t)) {s t : σ} {ret : Int}
    (hrun : (M.logged statement).Steps System.Any (s, []) (t, log)) (hcall : stage s = .early) (hend : stage t = .ended ret)
    (hret : ret < 0) : NoEffect i log ↔ ¬ (Faulted i log ∧ Lowered i log) := by
  have hinit : Consistent i [] (stage s) := by
    rw [hcall]
    exact ⟨by simp [Faulted], by simp [Lowered], rfl, rfl⟩
  have hfinal : Consistent i log (stage t) := by
    apply hrun.invariant (I := fun x => Consistent i x.2 (stage x.1)) hinit
    intro x a y hx _ hxy
    obtain ⟨hnext, hlog⟩ := System.logged_step.mp hxy
    rw [hlog]
    exact (hstep x.1 a y.1 hnext).consistent hx
  rw [hend] at hfinal
  exact hfinal.noEffect_iff hret

end Armv8Driver.ProcRead

/-! ### `irq_demo_read` -/

namespace Armv8Driver.IrqDemo

open Kernel Transition ProcRead

variable {c : Config} {s t : State c} {i : Fin c.reads} {m m' : Shared c} {pc pc' : ReadPc} {b : ReadStep}

/-- `*off` as the call has it. -/
def ReadPc.off : ReadPc → Nat
  | .notCalled => 0
  | .waiting off | .lock off | .load off | .unlock off _ | .copy off _ | .returned _ off => off

def ReadPc.stage : ReadPc → Stage
  | .notCalled | .waiting _ => .early
  | .lock _ | .load _ | .unlock .. | .copy .. => .taken
  | .returned ret _ => .ended ret

def ReadStep.kind : ReadStep → Kind
  | .wait => .wait
  | .copy true => .fault
  | _ => .other

/-- The statement that a step executes. The call itself is none of the handler's. -/
def statement (s : State c) : Action c → Option (Statement c.reads)
  | .read _ (.call ..) => none
  | .read i b => (step s (.read i b)).map fun t =>
    { reader := i
      kind := b.kind
      before := s.shared.event_done.done
      done := t.shared.event_done.done - s.shared.event_done.done
      off := (t.reads i).off - (s.reads i).off }
  | _ => none

theorem irq_demo_read_call {entry fallback : Bool} {off len : Nat}
    (h : irq_demo_read entry fallback i m pc (.call off len) = some (m', pc')) :
    pc.stage = .early ∧ (pc'.stage = .early ∨ pc'.stage = .ended 0) := by
  cases irq_demo_read_move h with
  | atEnd => exact ⟨rfl, .inr rfl⟩
  | call => exact ⟨rfl, .inl rfl⟩

theorem irq_demo_read_statement {entry fallback : Bool} (hb : ∀ off len, b ≠ .call off len)
    (h : irq_demo_read entry fallback i m pc b = some (m', pc')) :
    Moves pc.stage (⟨i, b.kind, m.event_done.done, m'.event_done.done - m.event_done.done, pc'.off - pc.off⟩ : Statement c.reads)
      pc'.stage := by
  cases irq_demo_read_move h with
  | atEnd => exact absurd rfl (hb _ _)
  | call => exact absurd rfl (hb _ _)
  | @wait off done hdone =>
    obtain ⟨hsome, hlower⟩ := Completion.wait_for_completion_eq_some.mp hdone
    refine .takes rfl ?_ (Int.sub_self _)
    show (done.done : Int) - m.event_done.done = if m.event_done.done = UINT_MAX then 0 else -1
    rw [hlower]
    split_ifs with hmax
    · omega
    · omega
  | waitFails => exact .timesOut rfl (Int.sub_self _) (Int.sub_self _)
  | fault => exact .faults rfl (Int.sub_self _) (Int.sub_self _)
  | copy => exact .copies (Int.natCast_nonneg _)
  | _ => exact .goesOn rfl (Int.sub_self _) (Int.sub_self _)

/-- The statements of a run of the system, with what each does. -/
def statements (c : Config) : System (State c × List (Statement c.reads)) (Action c) := (system c).logged statement

theorem statement_other {a : Action c} {e : Statement c.reads} (ha : ∀ b, a ≠ .read i b) (he : statement s a = some e) :
    e.reader ≠ i := by
  cases a with
  | read j b =>
    have hji : j ≠ i := by
      rintro rfl
      exact ha b rfl
    cases b with
    | call => cases he
    | _ =>
      obtain ⟨t, -, hs⟩ := Option.map_eq_some_iff.mp he
      cases hs
      exact hji
  | _ => cases he

theorem statement_own {m' : Shared c} (hb : ∀ off len, b ≠ .call off len)
    (hstep : step s (.read i b) = some { s with shared := m', reads := Function.update s.reads i pc' }) :
    statement s (.read i b) = some
      ⟨i, b.kind, s.shared.event_done.done, m'.event_done.done - s.shared.event_done.done, pc'.off - (s.reads i).off⟩ := by
  cases b with
  | call off len => exact absurd rfl (hb off len)
  | _ =>
    show (step s _).map _ = _
    rw [hstep]
    simp

theorem step_callStep {a : Action c} (i : Fin c.reads) (h : step s a = some t) :
    CallStep i (s.reads i).stage (statement s a) (t.reads i).stage := by
  by_cases hown : ∃ b, a = .read i b
  · obtain ⟨b, rfl⟩ := hown
    obtain ⟨⟨m', pc'⟩, hread, ht⟩ := Option.bind_eq_some_iff.mp h
    cases ht
    dsimp only
    rw [Function.update_self]
    by_cases hb : ∃ off len, b = .call off len
    · obtain ⟨off, len, rfl⟩ := hb
      obtain ⟨hearly, hnext | hnext⟩ := irq_demo_read_call hread
      · rw [hearly, hnext]
        exact .idle
      · rw [hearly, hnext]
        exact .atEnd
    · have hb' : ∀ off len, b ≠ .call off len := fun off len heq => hb ⟨off, len, heq⟩
      rw [statement_own hb' h]
      exact .own rfl (irq_demo_read_statement hb' hread)
  · have hother : ∀ b, a ≠ .read i b := fun b heq => hown ⟨b, heq⟩
    have hsame : t.reads i = s.reads i := by
      rcases step_reads h i with hsame | ⟨b, m', pc', heq, -, -⟩
      · exact hsame
      · exact absurd heq (hother b)
    rw [hsame]
    cases he : statement s a with
    | none => exact .idle
    | some e => exact .other (statement_other hother he)

end Armv8Driver.IrqDemo

/-! ### `status_read` -/

namespace Armv8Driver.CompletionDemo

open Kernel Transition ProcRead

variable {c : Config} {s t : State c} {i : Fin c.reads} {b : ReadStep}

/-- `*off` as the call has it. -/
def ReadPc.off : ReadPc → Nat
  | .notCalled => 0
  | .waiting off | .woken off | .returned _ off => off

def ReadPc.stage : ReadPc → Stage
  | .notCalled | .waiting _ => .early
  | .woken _ => .taken
  | .returned ret _ => .ended ret

def ReadStep.kind : ReadStep → Kind
  | .wait => .wait
  | .copy true => .fault
  | _ => .other

/-- The statement that a step executes. The call itself is none of the handler's. -/
def statement (s : State c) : Action c → Option (Statement c.reads)
  | .read _ (.call _) => none
  | .read i b => (step s (.read i b)).map fun t =>
    { reader := i
      kind := b.kind
      before := s.init_done.done
      done := t.init_done.done - s.init_done.done
      off := (t.reads i).off - (s.reads i).off }
  | _ => none

/-- The statements of a run of the system, with what each does. -/
def statements (c : Config) : System (State c × List (Statement c.reads)) (Action c) := (system c).logged statement

theorem status_read_call {off : Nat} (h : status_read s i (.call off) = some t) :
    CallStep i (s.reads i).stage none (t.reads i).stage := by
  obtain ⟨done, pc', hmove, rfl⟩ := status_read_move h
  simp only [Function.update_self]
  generalize s.reads i = pc at hmove
  cases hmove with
  | atEnd => exact .atEnd
  | call => exact .idle

theorem status_read_statement (hb : ∀ off, b ≠ .call off) (h : status_read s i b = some t) :
    Moves (s.reads i).stage (⟨i, b.kind, s.init_done.done, t.init_done.done - s.init_done.done,
      (t.reads i).off - (s.reads i).off⟩ : Statement c.reads) (t.reads i).stage := by
  obtain ⟨done, pc', hmove, rfl⟩ := status_read_move h
  simp only [Function.update_self]
  generalize s.reads i = pc at hmove
  cases hmove with
  | atEnd => exact absurd rfl (hb _)
  | call => exact absurd rfl (hb _)
  | wait hdone =>
    obtain ⟨hsome, hlower⟩ := Completion.wait_for_completion_eq_some.mp hdone
    refine .takes rfl ?_ (Int.sub_self _)
    show (done.done : Int) - s.init_done.done = if s.init_done.done = UINT_MAX then 0 else -1
    rw [hlower]
    split_ifs with hmax
    · omega
    · omega
  | fault => exact .faults rfl (Int.sub_self _) (Int.sub_self _)
  | copy => exact .copies (Int.natCast_nonneg _)

theorem status_read_other {j : Fin c.reads} (hj : i ≠ j) (h : status_read s j b = some t) : t.reads i = s.reads i := by
  obtain ⟨done, pc', -, rfl⟩ := status_read_move h
  exact Function.update_of_ne hj _ _

theorem statement_own (hb : ∀ off, b ≠ .call off) (h : status_read s i b = some t) :
    statement s (.read i b) = some ⟨i, b.kind, s.init_done.done, t.init_done.done - s.init_done.done,
      (t.reads i).off - (s.reads i).off⟩ := by
  have hstep : step s (.read i b) = some t := h
  cases b with
  | call off => exact absurd rfl (hb off)
  | _ =>
    show (step s _).map _ = _
    rw [hstep]
    rfl

theorem step_callStep {a : Action c} (i : Fin c.reads) (h : step s a = some t) :
    CallStep i (s.reads i).stage (statement s a) (t.reads i).stage := by
  cases a with
  | worker =>
    rw [worker_fn_frame h]
    exact .idle
  | waiter =>
    rw [waiter_fn_frame h]
    exact .idle
  | write =>
    rw [release_write_frame h]
    exact .idle
  | exit =>
    rw [completion_demo_exit_frame h]
    exact .idle
  | read j b =>
    have hread : status_read s j b = some t := h
    by_cases hj : i = j
    · subst hj
      by_cases hb : ∃ off, b = .call off
      · obtain ⟨off, rfl⟩ := hb
        exact status_read_call hread
      · have hb' : ∀ off, b ≠ .call off := fun off heq => hb ⟨off, heq⟩
        rw [statement_own hb' hread]
        exact .own rfl (status_read_statement hb' hread)
    · rw [status_read_other hj hread]
      by_cases hb : ∃ off, b = .call off
      · obtain ⟨off, rfl⟩ := hb
        exact .idle
      · rw [statement_own (fun off heq => hb ⟨off, heq⟩) hread]
        exact .other (Ne.symm hj)

end Armv8Driver.CompletionDemo

namespace Armv8Driver.ProcRead

open Kernel Transition

/-- A read that returns an error has left the count and `*off` alone, whatever ran in between, exactly if it
has not failed in the copy behind a wait that lowered the count. -/
theorem failed_reads_consume_iff (c : IrqDemo.Config) (d : CompletionDemo.Config) :
    (∀ (s t : IrqDemo.State c) (i : Fin c.reads) (log : List (Statement c.reads)) (ret : Int) (off : Nat),
      (IrqDemo.statements c).Steps System.Any (s, []) (t, log) → s.reads i = .notCalled → t.reads i = .returned ret off →
      ret < 0 → (NoEffect i log ↔ ¬ (Faulted i log ∧ Lowered i log))) ∧
    (∀ (s t : CompletionDemo.State d) (i : Fin d.reads) (log : List (Statement d.reads)) (ret : Int) (off : Nat),
      (CompletionDemo.statements d).Steps System.Any (s, []) (t, log) → s.reads i = .notCalled →
      t.reads i = .returned ret off → ret < 0 → (NoEffect i log ↔ ¬ (Faulted i log ∧ Lowered i log))) := by
  refine ⟨?_, ?_⟩
  · intro s t i log ret off hrun hcall hend hret
    exact noEffect_iff_of_run (fun s a t h => IrqDemo.step_callStep i h) hrun
      (congrArg IrqDemo.ReadPc.stage hcall) (congrArg IrqDemo.ReadPc.stage hend) hret
  · intro s t i log ret off hrun hcall hend hret
    exact noEffect_iff_of_run (fun s a t h => CompletionDemo.step_callStep i h) hrun
      (congrArg CompletionDemo.ReadPc.stage hcall) (congrArg CompletionDemo.ReadPc.stage hend) hret

/-- The one read of the two runs below. -/
def only : Fin 1 := 0

/-- The real interrupt with one read. -/
def irqReader : IrqDemo.Config := ⟨5, 64, 1, 0⟩

/-- The module is loaded, and the read times out. -/
def timingOut : List (IrqDemo.Action irqReader) :=
  List.replicate 5 (.module 0) ++ [.read only (.call 0 4096), .read only .waitFails]

def statusReader : CompletionDemo.Config := ⟨0, 1, 0⟩

/-- `worker_fn` gives its signal, the read takes it, and the reader's buffer is not writable. -/
def faulting : List (CompletionDemo.Action statusReader) :=
  [.worker, .worker, .read only (.call 0), .read only .wait, .read only (.copy true)]

def timedOut : IrqDemo.State irqReader × List (Statement 1) :=
  ((IrqDemo.statements irqReader).run (IrqDemo.initial irqReader, []) timingOut).get rfl

def faulted : CompletionDemo.State statusReader × List (Statement 1) :=
  ((CompletionDemo.statements statusReader).run (CompletionDemo.initial statusReader, []) faulting).get rfl

theorem timedOut_run :
    (IrqDemo.statements irqReader).Steps System.Any (IrqDemo.initial irqReader, []) timedOut :=
  .of_run (fun _ _ _ => trivial) (Option.some_get _).symm

theorem faulted_run :
    (CompletionDemo.statements statusReader).Steps System.Any (CompletionDemo.initial statusReader, []) faulted :=
  .of_run (fun _ _ _ => trivial) (Option.some_get _).symm

theorem failed_reads_consume_demo :
    (NoEffect only timedOut.2 ↔ ¬ (Faulted only timedOut.2 ∧ Lowered only timedOut.2)) ∧
      (NoEffect only faulted.2 ↔ ¬ (Faulted only faulted.2 ∧ Lowered only faulted.2)) :=
  ⟨(failed_reads_consume_iff irqReader statusReader).1 (IrqDemo.initial irqReader) timedOut.1 only timedOut.2
      (-ETIMEDOUT) 0 timedOut_run rfl rfl (by decide),
    (failed_reads_consume_iff irqReader statusReader).2 (CompletionDemo.initial statusReader) faulted.1 only faulted.2
      (-EFAULT) 0 faulted_run rfl rfl (by decide)⟩

/-- The read that cannot copy has taken the only signal of the module. -/
theorem faulted_consumes :
    ¬ ∀ (c : CompletionDemo.Config) (s t : CompletionDemo.State c) (i : Fin c.reads) (log : List (Statement c.reads))
      (ret : Int) (off : Nat), (CompletionDemo.statements c).Steps System.Any (s, []) (t, log) →
      s.reads i = .notCalled → t.reads i = .returned ret off → ret < 0 → NoEffect i log := by
  intro hnone
  have hzero : netDone only faulted.2 = 0 :=
    (hnone statusReader (CompletionDemo.initial statusReader) faulted.1 only faulted.2 (-EFAULT) 0
      faulted_run rfl rfl (by decide)).1
  have hone : netDone only faulted.2 = -1 := rfl
  omega

end Armv8Driver.ProcRead
