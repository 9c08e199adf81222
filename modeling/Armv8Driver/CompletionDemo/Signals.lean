import Armv8Driver.CompletionDemo.Unload
import Mathlib.Tactic.FinCases

/-!
# Whom the two signals reach

`complete(&init_done)` lets one reader through and `complete_all(&release_gate)` every waiter, whether they have come to
their wait already or not. The calls that have been made fix where the module comes to rest, in whatever order its
threads run.
-/

namespace Armv8Driver.CompletionDemo

open Kernel Transition

variable {c : Config} {s t : State c}

/-- No new call and no unload. -/
def uncalled (_ : State c) : Action c → Bool
  | .worker | .waiter _ => true
  | .read _ a => match a with | .call _ => false | _ => true
  | .write _ a => match a with | .call _ => false | _ => true
  | .exit => false

/-- A thread that has nothing to do but to poll its stop flag, and to sleep or return. -/
def polls (s : State c) : Action c → Bool
  | .worker => s.worker.signalled
  | .waiter i => s.waiters i ≠ .gate
  | _ => false

/-- A step towards the rest. -/
def settling (s : State c) (a : Action c) : Bool := uncalled s a && !polls s a

def WorkerPc.toSignal : WorkerPc → Nat
  | .slowInit => 2
  | .signal => 1
  | _ => 0

def WaiterPc.atGate (pc : WaiterPc) : Bool := pc = .gate

/-- The steps to come, if nobody is kept waiting. -/
def State.toGo (s : State c) : Nat :=
  s.worker.toSignal + Threads.count WaiterPc.atGate s.waiters + Threads.total ReadPc.rank s.reads +
    Threads.count WritePc.inFlight s.writes

/-- The call waits for the signal or has come through. -/
def ReadPc.asked (pc : ReadPc) : Bool := pc.waits || pc.took

/-- The gate has been opened by a write that has returned, or no waiter has passed it. -/
def Opened (s : State c) : Prop :=
  (s.release_gate.done = UINT_MAX ∧ ∃ i ret, s.writes i = .returned ret) ∨
    (s.release_gate.done = 0 ∧ (∀ i, s.waiters i = .gate) ∧ ∀ i ret, s.writes i ≠ .returned ret)

/-! ### The gate -/

theorem release_write_opened {i : Fin c.writes} {a : WriteStep} (ho : Opened s) (h : release_write s i a = some t) :
    Opened t := by
  unfold release_write at h
  split at h
  case h_1 len hpc =>
    obtain ⟨-, hs⟩ := Option.ite_none_right_eq_some.mp h
    cases hs
    rcases ho with ⟨hopen, j, ret, hj⟩ | ⟨hclosed, hgate, hnone⟩
    · have hji : j ≠ i := by
        rintro rfl
        cases hpc.symm.trans hj
      exact .inl ⟨hopen, j, ret, (Function.update_of_ne hji _ _).trans hj⟩
    · refine .inr ⟨hclosed, hgate, fun j ret => ?_⟩
      dsimp only
      by_cases hji : j = i
      · subst hji
        rw [Function.update_self]
        exact nofun
      · rw [Function.update_of_ne hji]
        exact hnone j ret
  case h_2 len _ =>
    cases h
    exact .inl ⟨rfl, i, len, Function.update_self _ _ _⟩
  case h_3 => cases h

theorem opened_of_reachable (hs : (system c).Reachable s) : Opened s := by
  have hboth : Gate s ∧ Opened s := by
    refine hs.invariant (I := fun s => Gate s ∧ Opened s) ?_ ?_
    · rintro s rfl
      exact ⟨initial_gate, .inr ⟨rfl, fun _ => rfl, nofun⟩⟩
    · rintro s a t ⟨hg, ho⟩ h
      refine ⟨step_gate hg h, ?_⟩
      cases a with
      | worker =>
        rw [worker_fn_frame h]
        exact ho
      | waiter i =>
        obtain ⟨pc, rfl, -, -, hopen, -⟩ := waiter_fn_stops hg h
        rcases ho with ho | ⟨hclosed, hgate, -⟩
        · exact .inl ho
        · rw [hopen (hgate i)] at hclosed
          cases hclosed
      | read i b =>
        rw [status_read_frame h]
        exact ho
      | write i b => exact release_write_opened ho h
      | exit =>
        rw [completion_demo_exit_frame h]
        exact ho
  exact hboth.2

/-! ### The steps to come -/

theorem worker_fn_toGo (h : worker_fn s = some t) :
    (!s.worker.signalled).toNat + t.worker.toSignal = s.worker.toSignal := by
  unfold worker_fn at h
  split at h <;> rename_i hpc <;> rw [hpc]
  · cases h
    rfl
  · cases h
    rfl
  · cases h
    dsimp only
    split_ifs <;> rfl
  · cases h
    rfl
  · cases h

theorem status_read_toGo {i : Fin c.reads} {a : ReadStep} (ha : ∀ off, a ≠ .call off) (h : status_read s i a = some t) :
    ∃ pc, t.reads = Function.update s.reads i pc ∧ pc.rank + 1 = (s.reads i).rank := by
  obtain ⟨done, pc', hmove, rfl⟩ := status_read_move h
  refine ⟨pc', rfl, ?_⟩
  generalize s.reads i = pc at hmove
  cases hmove with
  | atEnd => exact absurd rfl (ha _)
  | call => exact absurd rfl (ha _)
  | _ => rfl

/-- A step to come is taken, or a thread polls and leaves them all. -/
theorem step_toGo {a : Action c} (hs : (system c).Reachable s) (ha : uncalled s a = true) (h : step s a = some t) :
    (settling s a).toNat + t.toGo = s.toGo := by
  rw [settling, ha, Bool.true_and]
  cases a with
  | worker =>
    have hfew := worker_fn_toGo h
    rw [worker_fn_frame h]
    simp only [polls, State.toGo]
    omega
  | waiter i =>
    obtain ⟨pc, rfl, haway, -, -, -⟩ := waiter_fn_stops (gate_of_reachable hs) h
    have hcount := Threads.count_update WaiterPc.atGate s.waiters i pc
    have hafter : pc.atGate = false := decide_eq_false haway
    have hbefore : (!polls s (.waiter i)) = (s.waiters i).atGate := by
      simp only [polls, WaiterPc.atGate, ne_eq, decide_not, Bool.not_not]
    rw [hafter, Bool.toNat_false] at hcount
    rw [hbefore]
    simp only [State.toGo]
    omega
  | read i b =>
    have hnew : ∀ off, b ≠ .call off := by
      rintro off rfl
      cases ha
    obtain ⟨pc, hreads, hrank⟩ := status_read_toGo hnew h
    have htotal := Threads.total_update ReadPc.rank s.reads i pc
    rw [status_read_frame h, hreads]
    simp only [polls, Bool.not_false, Bool.toNat_true, State.toGo]
    omega
  | write i b =>
    simp only [step, release_write] at h
    split at h
    case h_1 => cases ha
    case h_2 len hpc =>
      cases h
      have hcount := Threads.count_update WritePc.inFlight s.writes i (.returned len)
      simp only [hpc, WritePc.inFlight, Bool.toNat_true, Bool.toNat_false] at hcount
      simp only [polls, Bool.not_false, Bool.toNat_true, State.toGo]
      omega
    case h_3 => cases h
  | exit => cases ha

/-! ### At rest -/

/-- Nothing is left to do but to poll. -/
structure AtRest (s : State c) : Prop where
  worker : s.worker.signalled = true
  writes : ∀ i, (s.writes i).inFlight = false
  /-- A waiter is kept at the gate exactly if `release_write` has not been called. -/
  waiters : ∀ i, s.waiters i = .gate ↔ ∀ j, s.writes j = .notCalled
  /-- One of the readers has been served, if there is one. -/
  reads : Threads.count ReadPc.took s.reads = min 1 (Threads.count ReadPc.asked s.reads)

theorem count_asked (pc : Fin c.reads → ReadPc) :
    Threads.count ReadPc.asked pc = Threads.count ReadPc.waits pc + Threads.count ReadPc.took pc := by
  have hone : ∀ pc : ReadPc, pc.asked.toNat = pc.waits.toNat + pc.took.toNat := by
    intro pc
    cases pc with
    | returned ret off => rw [ReadPc.asked, show (ReadPc.returned ret off).waits = false from rfl, Bool.false_or,
        Bool.toNat_false, Nat.zero_add]
    | _ => rfl
  simp only [Threads.count, Threads.total, hone, Finset.sum_add_distrib]

section Stuck

variable (hs : (system c).Reachable s) (hstuck : ∀ a, settling s a = true → step s a = none)

include hstuck in
theorem stuck_signalled : s.worker.signalled = true := by
  by_contra hearly
  rw [Bool.not_eq_true] at hearly
  have hnone : worker_fn s = none := hstuck .worker (by rw [settling, polls, hearly]; rfl)
  unfold worker_fn at hnone
  cases hpc : s.worker with
  | slowInit | signal =>
    rw [hpc] at hnone
    cases hnone
  | _ =>
    rw [hpc] at hearly
    cases hearly

include hstuck in
theorem stuck_writes (i : Fin c.writes) : (s.writes i).inFlight = false := by
  have hnone : release_write s i .release = none := hstuck (.write i .release) rfl
  unfold release_write at hnone
  cases hpc : s.writes i <;> rw [hpc] at hnone <;> first | rfl | cases hnone

include hs hstuck in
/-- An open gate keeps nobody. -/
theorem stuck_waiters (i : Fin c.numWaiters) : s.waiters i = .gate ↔ ∀ j, s.writes j = .notCalled := by
  have hcalled : ∀ j, s.writes j = .notCalled ∨ ∃ ret, s.writes j = .returned ret := by
    intro j
    have hout := stuck_writes hstuck j
    cases hpc : s.writes j with
    | notCalled => exact .inl rfl
    | entered len =>
      rw [hpc] at hout
      cases hout
    | returned ret => exact .inr ⟨ret, rfl⟩
  rcases opened_of_reachable hs with ⟨hopen, j, ret, hj⟩ | ⟨-, hgate, hnone⟩
  · refine iff_of_false (fun hpc => ?_) fun hall => ?_
    · have hblocked : waiter_fn s i = none := hstuck (.waiter i) (by rw [settling, polls, hpc]; rfl)
      simp only [waiter_fn, hpc] at hblocked
      have hclosed := Completion.wait_for_completion_eq_none.mp
        (System.eq_none_of_bind hblocked fun _ => Option.some_ne_none _)
      rw [hopen] at hclosed
      cases hclosed
    · cases (hall j).symm.trans hj
  · refine iff_of_true (hgate i) fun j => (hcalled j).resolve_right ?_
    rintro ⟨ret, hj⟩
    exact hnone j ret hj

include hs hstuck in
theorem stuck_reads : Threads.count ReadPc.took s.reads = min 1 (Threads.count ReadPc.asked s.reads) := by
  have htoken := tokenKept hs
  rw [TokenKept, stuck_signalled hstuck, Bool.toNat_true] at htoken
  rw [count_asked]
  by_cases hwaits : Threads.count ReadPc.waits s.reads = 0
  · omega
  · obtain ⟨i, hi⟩ := Threads.count_pos.mp (Nat.pos_of_ne_zero hwaits)
    have hzero : s.init_done.done = 0 := by
      have hblocked : status_read s i .wait = none := hstuck (.read i .wait) rfl
      unfold status_read at hblocked
      cases hpc : s.reads i with
      | waiting off =>
        simp only [hpc] at hblocked
        exact Completion.wait_for_completion_eq_none.mp (System.eq_none_of_bind hblocked fun _ => Option.some_ne_none _)
      | _ =>
        rw [hpc] at hi
        cases hi
    omega

end Stuck

def twoReads : Config := ⟨4, 2, 1⟩

/-- Two reads and a write have been called. -/
def twoAsked : State twoReads :=
  ((system twoReads).run (initial twoReads) [.read ⟨0, Nat.two_pos⟩ (.call 0), .read ⟨1, Nat.one_lt_two⟩ (.call 0),
    .write ⟨0, Nat.one_pos⟩ (.call 2)]).get rfl

/-- One waiter comes to an open gate first, the others while the worker is at its slow start, and each polls once. -/
def releasing : List (Action twoReads) :=
  .write ⟨0, Nat.one_pos⟩ .release :: (List.finRange twoReads.numWaiters).flatMap (fun i => [.waiter i, .waiter i]) ++
    [.worker, .worker, .read ⟨1, Nat.one_lt_two⟩ .wait, .worker, .read ⟨1, Nat.one_lt_two⟩ (.copy false)]

end Armv8Driver.CompletionDemo
