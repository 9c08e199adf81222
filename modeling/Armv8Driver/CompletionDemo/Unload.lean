import Armv8Driver.CompletionDemo.Readiness

/-!
# Unloading `completion_demo`

`completion_demo_exit` joins threads that may sleep in `wait_for_completion` for good, and no new call
comes to wake them. `CanUnload` is kept by each step in both directions. A thread that polls its flag
does so for ever while the flag is not set, so the measure is about the `Productive` steps, and where
those run out the exit path has returned or no step at all is left.
-/

namespace Armv8Driver.CompletionDemo

open Kernel Transition

variable {c : Config} {s t : State c}

/-- No new system call. -/
def Quiet (_ : State c) : Action c → Prop
  | .read _ (.call _) | .write _ (.call _) => False
  | _ => True

/-- The exit path has started, has not returned, and no thread of the module and no handler can move. -/
def Hung (s : State c) : Prop :=
  s.exit ≠ .notStarted ∧ s.exit ≠ .returned ∧ (system c).Stuck Quiet s

def ReadPc.waits : ReadPc → Bool
  | .waiting _ => true
  | _ => false

/-- The waiters have been released, or a call that releases them is on its way, and there is a ready
signal, given or still to be given, for every reader that waits for one. -/
structure CanUnload (s : State c) : Prop where
  waiters : (∃ i, s.waiters i = .gate) → s.release_gate.done ≠ 0 ∨ ∃ i, (s.writes i).inFlight = true
  readers : Threads.count ReadPc.waits s.reads ≤ s.init_done.done + (!s.worker.signalled).toNat

/-- The gate is closed and nobody has passed it, or it is open for good. -/
def Gate (s : State c) : Prop :=
  s.release_gate.done = UINT_MAX ∨ (s.release_gate.done = 0 ∧ ∀ i, s.waiters i = .gate)

/-- The threads `kthread_stop` has been called for. -/
def ExitPc.asked (numWaiters : Nat) : ExitPc → Nat
  | .notStarted | .stopWorker | .joinWorker => 0
  | .stopWaiter i => i
  | .joinWaiter i => i + 1
  | .drainStatus | .drainRelease | .returned => numWaiters

/-- The threads `kthread_stop` has returned for. -/
def ExitPc.joined (numWaiters : Nat) : ExitPc → Nat
  | .notStarted | .stopWorker | .joinWorker => 0
  | .stopWaiter i | .joinWaiter i => i
  | .drainStatus | .drainRelease | .returned => numWaiters

/-- What holds once the exit path has started. -/
structure Stopping (s : State c) : Prop where
  started : s.exit ≠ .notStarted
  flag : s.exit ≠ .stopWorker → s.workerStop = true
  worker : s.exit ≠ .stopWorker → s.exit ≠ .joinWorker → s.worker = .returned
  asked_le : s.exit.asked c.numWaiters ≤ c.numWaiters
  flags : ∀ i : Fin c.numWaiters, i < s.exit.asked c.numWaiters → s.waiterStop i = true
  joined : ∀ i : Fin c.numWaiters, i < s.exit.joined c.numWaiters → s.waiters i = .returned
  drained : s.exit = .drainRelease ∨ s.exit = .returned → ∀ i, (s.reads i).inFlight = false

/-- A quiet step that is not a thread polling a stop flag that is not set. -/
def Productive (s : State c) : Action c → Prop
  | .worker => s.workerStop = true ∨ s.worker.signalled = false
  | .waiter i => s.waiterStop i = true ∨ s.waiters i = .gate
  | a => Quiet s a

theorem Productive.quiet {a : Action c} (h : Productive s a) : Quiet s a := by
  cases a with
  | read i b => exact h
  | write i b => exact h
  | _ => trivial

/-! ### How far each thread is from its end -/

def WorkerPc.rank : WorkerPc → Nat
  | .returned => 0
  | .shouldStop => 1
  | .sleep => 2
  | .signal => 3
  | .slowInit => 4

def WaiterPc.rank : WaiterPc → Nat
  | .returned => 0
  | .shouldStop => 1
  | .sleep => 2
  | .gate => 3

def ReadPc.rank : ReadPc → Nat
  | .notCalled | .returned .. => 0
  | .woken _ => 1
  | .waiting _ => 2

def ExitPc.rank (numWaiters : Nat) : ExitPc → Nat
  | .notStarted => 2 * numWaiters + 7
  | .stopWorker => 2 * numWaiters + 6
  | .joinWorker => 2 * numWaiters + 5
  | .stopWaiter i => 2 * (numWaiters - i) + 4
  | .joinWaiter i => 2 * (numWaiters - i) + 3
  | .drainStatus => 2
  | .drainRelease => 1
  | .returned => 0

def State.rank (s : State c) : Nat :=
  s.worker.rank + Threads.total WaiterPc.rank s.waiters + Threads.total ReadPc.rank s.reads +
    Threads.count WritePc.inFlight s.writes + s.exit.rank c.numWaiters

/-! ### What a step does -/

/-- A waiter comes through the gate only when it is open for good, and leaves it open. -/
theorem waiter_fn_stops {i : Fin c.numWaiters} (hg : Gate s) (h : waiter_fn s i = some t) :
    ∃ pc, t = { s with waiters := Function.update s.waiters i pc } ∧ pc ≠ .gate ∧ s.waiters i ≠ .returned ∧
      (s.waiters i = .gate → s.release_gate.done = UINT_MAX) ∧
      (s.waiterStop i = true ∨ s.waiters i = .gate → pc.rank < (s.waiters i).rank) := by
  unfold waiter_fn at h
  split at h
  · rename_i hpc
    obtain ⟨gate, hgate, hs⟩ := Option.bind_eq_some_iff.mp h
    obtain ⟨hne, htaken⟩ := Completion.wait_for_completion_eq_some.mp hgate
    have hopen : s.release_gate.done = UINT_MAX := hg.resolve_right fun hclosed => hne hclosed.1
    have hsame : gate = s.release_gate := Completion.ext (by rw [htaken, if_pos hopen, hopen])
    cases hs
    exact ⟨.shouldStop, by rw [hsame], nofun, by simp [hpc], fun _ => hopen, by simp [hpc, WaiterPc.rank]⟩
  · rename_i hpc
    cases h
    refine ⟨_, rfl, by split_ifs <;> nofun, by simp [hpc], by simp [hpc], ?_⟩
    rintro (hstop | hgate)
    · simp [hpc, hstop, WaiterPc.rank]
    · simp [hpc] at hgate
  · rename_i hpc
    cases h
    exact ⟨.shouldStop, rfl, nofun, by simp [hpc], by simp [hpc], by simp [hpc, WaiterPc.rank]⟩
  · cases h

theorem initial_gate : Gate (initial c) := .inr ⟨rfl, fun _ => rfl⟩

theorem step_gate {a : Action c} (hg : Gate s) (h : step s a = some t) : Gate t := by
  cases a with
  | worker =>
    rw [worker_fn_frame h]
    exact hg
  | waiter i =>
    obtain ⟨pc, rfl, -, -, hopen, -⟩ := waiter_fn_stops hg h
    rcases hg with hg | ⟨hclosed, hall⟩
    · exact .inl hg
    · exact .inl (hopen (hall i))
  | read i b =>
    rw [status_read_frame h]
    exact hg
  | write i b =>
    simp only [step, release_write] at h
    split at h
    · split at h <;> cases h
      exact hg
    · cases h
      exact .inl rfl
    · cases h
  | exit =>
    rw [completion_demo_exit_frame h]
    exact hg

theorem gate_of_reachable (hs : (system c).Reachable s) : Gate s :=
  hs.invariant (fun _ h => h ▸ initial_gate) fun _ _ _ hi h => step_gate hi h

/-- What one step of the exit path, a thread or a handler does: it keeps `CanUnload`, both ways, and if
it is productive it is nearer to the end. -/
structure Progress (s : State c) (a : Action c) (t : State c) : Prop where
  canUnload : CanUnload s ↔ CanUnload t
  stopping : Stopping t
  rank : Productive s a → t.rank < s.rank

section Step

variable (htok : TokenKept s) (hg : Gate s) (hs : Stopping s)

include htok in
/-- The token and the signal that is still to be given are one. -/
theorem worker_fn_stops (h : worker_fn s = some t) :
    t.init_done.done + (!t.worker.signalled).toNat = s.init_done.done + (!s.worker.signalled).toNat ∧
      s.worker ≠ .returned ∧ (Productive s .worker → t.worker.rank < s.worker.rank) := by
  unfold worker_fn at h
  unfold TokenKept at htok
  split at h
  · rename_i hpc
    cases h
    exact ⟨by rw [hpc]; rfl, by simp [hpc], by simp [hpc, WorkerPc.rank]⟩
  · rename_i hpc
    cases h
    rw [hpc] at htok
    have hzero : s.init_done.done = 0 := by
      simp only [WorkerPc.signalled, Bool.toNat_false] at htok
      omega
    refine ⟨?_, by simp [hpc], by simp [hpc, WorkerPc.rank]⟩
    rw [Completion.complete_done, hzero, hpc]
    rfl
  · rename_i hpc
    cases h
    refine ⟨?_, by simp [hpc], ?_⟩
    · simp only [hpc]
      split_ifs <;> rfl
    · rintro (hstop | hsig)
      · simp [hpc, hstop, WorkerPc.rank]
      · simp [hpc, WorkerPc.signalled] at hsig
  · rename_i hpc
    cases h
    exact ⟨by rw [hpc]; rfl, by simp [hpc], by simp [hpc, WorkerPc.rank]⟩
  · cases h

include htok hs in
theorem Stopping.stepWorker (h : worker_fn s = some t) : Progress s .worker t := by
  obtain ⟨hsignal, hrunning, hrank⟩ := worker_fn_stops htok h
  rw [worker_fn_frame h]
  refine ⟨⟨fun hcan => ⟨hcan.waiters, ?_⟩, fun hcan => ⟨hcan.waiters, ?_⟩⟩,
    ⟨hs.started, hs.flag, fun hstop hjoin => absurd (hs.worker hstop hjoin) hrunning, hs.asked_le, hs.flags, hs.joined,
      hs.drained⟩, fun hprod => ?_⟩
  · simp only
    rw [hsignal]
    exact hcan.readers
  · rw [← hsignal]
    exact hcan.readers
  · have hlt := hrank hprod
    simp only [State.rank]
    omega

include hg hs in
theorem Stopping.stepWaiter {i : Fin c.numWaiters} (h : waiter_fn s i = some t) : Progress s (.waiter i) t := by
  obtain ⟨pc, rfl, haway, hrunning, hopen, hrank⟩ := waiter_fn_stops hg h
  have hne : s.waiters i = .gate → s.release_gate.done ≠ 0 := by
    intro hpc hzero
    rw [hopen hpc] at hzero
    cases hzero
  have hstay : ∀ j, Function.update s.waiters i pc j = .gate → s.waiters j = .gate := by
    intro j hj
    by_cases hji : j = i
    · subst hji
      rw [Function.update_self] at hj
      exact absurd hj haway
    · rwa [Function.update_of_ne hji] at hj
  refine ⟨⟨fun hcan => ⟨?_, hcan.readers⟩, fun hcan => ⟨?_, hcan.readers⟩⟩,
    ⟨hs.started, hs.flag, hs.worker, hs.asked_le, hs.flags, fun j hj => ?_, hs.drained⟩, fun hprod => ?_⟩
  · rintro ⟨j, hj⟩
    exact hcan.waiters ⟨j, hstay j hj⟩
  · rintro ⟨j, hj⟩
    by_cases hji : j = i
    · exact .inl (hne (hji ▸ hj))
    · exact hcan.waiters ⟨j, by simp only; rwa [Function.update_of_ne hji]⟩
  · have hret := hs.joined j hj
    have hji : j ≠ i := by
      rintro rfl
      exact hrunning hret
    simp only
    rwa [Function.update_of_ne hji]
  · have hlt := hrank hprod
    have htotal := Threads.total_update WaiterPc.rank s.waiters i pc
    simp only [State.rank]
    omega

include htok in
/-- A call that has started runs to its end: it takes the token it waits for. -/
theorem status_read_stops {i : Fin c.reads} {a : ReadStep} (hquiet : ∀ off, a ≠ .call off)
    (h : status_read s i a = some t) : ∃ pc, t.reads = Function.update s.reads i pc ∧ (s.reads i).inFlight = true ∧
      t.init_done.done + (s.reads i).waits.toNat = s.init_done.done + pc.waits.toNat ∧
      pc.rank < (s.reads i).rank := by
  obtain ⟨done, pc', hmove, rfl⟩ := status_read_move h
  refine ⟨pc', rfl, ?_⟩
  generalize s.reads i = pc at hmove
  cases hmove with
  | atEnd => exact absurd rfl (hquiet _)
  | call => exact absurd rfl (hquiet _)
  | wait hdone =>
    obtain ⟨hne, htaken⟩ := Completion.wait_for_completion_eq_some.mp hdone
    have hle : s.worker.signalled.toNat ≤ 1 := Bool.toNat_le _
    unfold TokenKept at htok
    rw [if_neg (by unfold UINT_MAX; omega)] at htaken
    refine ⟨rfl, ?_, Nat.one_lt_two⟩
    simp only [ReadPc.waits, Bool.toNat_true, Bool.toNat_false]
    omega
  | _ => exact ⟨rfl, rfl, Nat.one_pos⟩

include htok hs in
theorem Stopping.stepRead {i : Fin c.reads} {a : ReadStep} (hquiet : ∀ off, a ≠ .call off)
    (h : status_read s i a = some t) : Progress s (.read i a) t := by
  obtain ⟨pc, hreads, hin, htakes, hrank⟩ := status_read_stops htok hquiet h
  have hcount := Threads.count_update ReadPc.waits s.reads i pc
  have htotal := Threads.total_update ReadPc.rank s.reads i pc
  rw [status_read_frame h, hreads]
  refine ⟨⟨fun hcan => ⟨hcan.waiters, ?_⟩, fun hcan => ⟨hcan.waiters, ?_⟩⟩,
    ⟨hs.started, hs.flag, hs.worker, hs.asked_le, hs.flags, hs.joined, fun hdrain => ?_⟩, fun _ => ?_⟩
  · have hle := hcan.readers
    simp only
    omega
  · have hle := hcan.readers
    simp only at hle
    omega
  · have hout := hs.drained hdrain i
    rw [hin] at hout
    cases hout
  · simp only [State.rank]
    omega

include hs in
theorem Stopping.stepWrite {i : Fin c.writes} {a : WriteStep} (hquiet : ∀ len, a ≠ .call len)
    (h : release_write s i a = some t) : Progress s (.write i a) t := by
  unfold release_write at h
  split at h
  case h_1 _ len _ => exact absurd rfl (hquiet len)
  case h_2 _ len hpc =>
    cases h
    refine ⟨⟨fun hcan => ⟨fun _ => .inl nofun, hcan.readers⟩,
        fun hcan => ⟨fun _ => .inr ⟨i, by rw [hpc]; rfl⟩, hcan.readers⟩⟩,
      ⟨hs.started, hs.flag, hs.worker, hs.asked_le, hs.flags, hs.joined, hs.drained⟩, fun _ => ?_⟩
    have hcount := Threads.count_update WritePc.inFlight s.writes i (.returned len)
    simp only [hpc, WritePc.inFlight, Bool.toNat_true, Bool.toNat_false] at hcount
    simp only [State.rank]
    omega
  case h_3 => cases h

include hs in
/-- Each thread the exit path joins has been asked to stop, and it goes on when the thread has returned. -/
theorem Stopping.exit (h : completion_demo_exit s = some t) : Stopping t := by
  obtain ⟨hstarted, hflag, hworker, hasked, hflags, hjoined, hdrained⟩ := hs
  unfold completion_demo_exit at h
  split at h
  case h_1 hexit => exact absurd hexit hstarted
  case h_2 hexit =>
    cases h
    exact ⟨by simp, fun _ => rfl, fun _ hne => absurd rfl hne, Nat.zero_le _, by simp [ExitPc.asked], by simp [ExitPc.joined], by simp⟩
  case h_3 hexit =>
    rw [hexit] at hflag
    split_ifs at h with hret
    cases h
    exact ⟨by simp, fun _ => hflag (by simp), fun _ _ => hret, Nat.zero_le _, by simp [ExitPc.asked], by simp [ExitPc.joined], by simp⟩
  case h_4 i hexit =>
    rw [hexit] at hflag hworker hflags hjoined
    split_ifs at h with hi
    · cases h
      refine ⟨by simp, fun _ => hflag (by simp), fun _ _ => hworker (by simp) (by simp), hi, fun j hj => ?_, hjoined, by simp⟩
      by_cases hji : j = ⟨i, hi⟩
      · simp [hji]
      · have hne : j.val ≠ i := fun heq => hji (Fin.ext heq)
        simp only [ExitPc.asked] at hj
        simp only [Function.update_of_ne hji]
        exact hflags j (by simp only [ExitPc.asked]; omega)
    · cases h
      have hall : ∀ j : Fin c.numWaiters, j < i := by
        intro j
        have hlt := j.isLt
        omega
      exact ⟨by simp, fun _ => hflag (by simp), fun _ _ => hworker (by simp) (by simp), Nat.le_refl _,
        fun j _ => hflags j (hall j), fun j _ => hjoined j (hall j), by simp⟩
  case h_5 i hexit =>
    rw [hexit] at hflag hworker hasked hflags hjoined
    split_ifs at h with hi hret
    cases h
    refine ⟨by simp, fun _ => hflag (by simp), fun _ _ => hworker (by simp) (by simp), hasked, hflags, fun j hj => ?_, by simp⟩
    by_cases hji : j = ⟨i, hi⟩
    · rw [hji]
      exact hret
    · have hne : j.val ≠ i := fun heq => hji (Fin.ext heq)
      simp only [ExitPc.joined] at hj
      exact hjoined j (by simp only [ExitPc.joined]; omega)
  case h_6 hexit =>
    rw [hexit] at hflag hworker hasked hflags hjoined
    split_ifs at h with hreads
    cases h
    exact ⟨by simp, fun _ => hflag (by simp), fun _ _ => hworker (by simp) (by simp), hasked, hflags, hjoined, fun _ => hreads⟩
  case h_7 hexit =>
    have hreads := hdrained (.inl hexit)
    rw [hexit] at hflag hworker hasked hflags hjoined
    split_ifs at h
    cases h
    exact ⟨by simp, fun _ => hflag (by simp), fun _ _ => hworker (by simp) (by simp), hasked, hflags, hjoined, fun _ => hreads⟩
  case h_8 => cases h

theorem completion_demo_exit_rank (h : completion_demo_exit s = some t) :
    t.exit.rank c.numWaiters < s.exit.rank c.numWaiters := by
  unfold completion_demo_exit at h
  split at h
  all_goals
    rename_i hexit
    rw [hexit]
    try split_ifs at h
    all_goals
      cases h
      try simp only [ExitPc.rank]
      try omega

include hs in
theorem Stopping.stepExit (h : completion_demo_exit s = some t) : Progress s .exit t := by
  have hstop := hs.exit h
  have hrank := completion_demo_exit_rank h
  rw [completion_demo_exit_frame h] at hstop ⊢
  refine ⟨⟨fun hcan => ⟨hcan.waiters, hcan.readers⟩, fun hcan => ⟨hcan.waiters, hcan.readers⟩⟩, hstop, fun _ => ?_⟩
  simp only [State.rank]
  omega

include htok hg hs in
theorem Stopping.step {a : Action c} (hquiet : Quiet s a) (h : step s a = some t) : Progress s a t := by
  cases a with
  | worker => exact hs.stepWorker htok h
  | waiter i => exact hs.stepWaiter hg h
  | read i b =>
    apply hs.stepRead htok ?_ h
    rintro off rfl
    exact hquiet
  | write i b =>
    apply hs.stepWrite ?_ h
    rintro len rfl
    exact hquiet
  | exit => exact hs.stepExit h

end Step

/-! ### Where a run ends -/

section Stuck

variable (hg : Gate s) (hs : Stopping s) (hstuck : (system c).Stuck Productive s)

include hstuck in
theorem stuck_worker (hprod : Productive s .worker) : s.worker = .returned := by
  have hnone : worker_fn s = none := hstuck .worker hprod
  unfold worker_fn at hnone
  split at hnone
  all_goals first | assumption | cases hnone

include hstuck in
/-- A waiter that has been asked to stop and cannot move has returned or sleeps at the gate. -/
theorem stuck_waiter {i : Fin c.numWaiters} (hprod : Productive s (.waiter i)) :
    s.waiters i = .returned ∨ (s.waiters i = .gate ∧ s.release_gate.done = 0) := by
  have hnone : waiter_fn s i = none := hstuck (.waiter i) hprod
  unfold waiter_fn at hnone
  split at hnone
  case h_1 hpc =>
    have hclosed := System.eq_none_of_bind hnone fun _ => Option.some_ne_none _
    exact .inr ⟨hpc, Completion.wait_for_completion_eq_none.mp hclosed⟩
  case h_4 hpc => exact .inl hpc
  all_goals cases hnone

include hstuck in
theorem stuck_read (i : Fin c.reads) :
    (s.reads i).inFlight = false ∨ ((s.reads i).waits = true ∧ s.init_done.done = 0) := by
  cases hpc : s.reads i with
  | notCalled => exact .inl rfl
  | returned ret off => exact .inl rfl
  | waiting off =>
    have hnone : status_read s i .wait = none := hstuck (.read i .wait) trivial
    simp only [status_read, hpc] at hnone
    have hempty := System.eq_none_of_bind hnone fun _ => Option.some_ne_none _
    exact .inr ⟨rfl, Completion.wait_for_completion_eq_none.mp hempty⟩
  | woken off =>
    have hnone : status_read s i (.copy false) = none := hstuck (.read i (.copy false)) trivial
    simp [status_read, hpc] at hnone

include hstuck in
theorem stuck_write (i : Fin c.writes) : (s.writes i).inFlight = false := by
  cases hpc : s.writes i with
  | notCalled => rfl
  | returned ret => rfl
  | entered len =>
    have hnone : release_write s i .release = none := hstuck (.write i .release) trivial
    simp [release_write, hpc] at hnone

include hs hstuck in
/-- The exit path stops in one of the joins of the waiters, or in the drain of the readers. -/
theorem stuck_exit : s.exit = .returned ∨
    (∃ i : Fin c.numWaiters, s.exit = .joinWaiter i ∧ s.waiters i = .gate ∧ s.release_gate.done = 0) ∨
    (s.exit = .drainStatus ∧ ∃ i, (s.reads i).inFlight = true) := by
  have hnone : completion_demo_exit s = none := hstuck .exit trivial
  cases hexit : s.exit with
  | notStarted => exact absurd hexit hs.started
  | stopWorker => simp [completion_demo_exit, hexit] at hnone
  | joinWorker =>
    have hret : s.worker = .returned := stuck_worker hstuck (.inl (hs.flag (by rw [hexit]; nofun)))
    simp [completion_demo_exit, hexit, hret] at hnone
  | stopWaiter i =>
    simp only [completion_demo_exit, hexit] at hnone
    split_ifs at hnone
  | joinWaiter i =>
    have hasked := hs.asked_le
    have hflags := hs.flags
    rw [hexit] at hasked hflags
    have hi : i < c.numWaiters := hasked
    refine .inr (.inl ⟨⟨i, hi⟩, rfl, ?_⟩)
    apply (stuck_waiter hstuck (.inl (hflags ⟨i, hi⟩ (Nat.lt_succ_self i)))).resolve_left
    intro hret
    simp [completion_demo_exit, hexit, hi, hret] at hnone
  | drainStatus =>
    refine .inr (.inr ⟨rfl, ?_⟩)
    by_contra hall
    simp only [not_exists, Bool.not_eq_true] at hall
    simp [completion_demo_exit, hexit, hall] at hnone
  | drainRelease =>
    have hwrites := stuck_write hstuck
    simp [completion_demo_exit, hexit, hwrites] at hnone
  | returned => exact .inl rfl

include hg hs hstuck in
/-- Where no productive step is left and the exit path has not returned, no step is left. -/
theorem stuck_quiet (hexit : s.exit ≠ .returned) : (system c).Stuck Quiet s := by
  have hlate : s.exit ≠ .stopWorker := by
    rcases stuck_exit hs hstuck with h | ⟨i, h, -⟩ | ⟨h, -⟩ <;> rw [h] <;> nofun
  intro a hquiet
  cases a with
  | worker => exact hstuck .worker (.inl (hs.flag hlate))
  | waiter j =>
    apply hstuck (.waiter j)
    rcases stuck_exit hs hstuck with h | ⟨i, -, -, hclosed⟩ | ⟨h, -⟩
    · exact absurd h hexit
    · refine .inr ((hg.resolve_left ?_).2 j)
      rw [hclosed]
      nofun
    · have hflags := hs.flags
      rw [h] at hflags
      exact .inl (hflags j j.isLt)
  | read i b => exact hstuck (.read i b) hquiet
  | write i b => exact hstuck (.write i b) hquiet
  | exit => exact hstuck .exit trivial

include hs hstuck in
/-- Where no productive step is left, the exit path has returned exactly if the module could unload. -/
theorem stuck_returned_iff : CanUnload s ↔ s.exit = .returned := by
  constructor
  · intro hcan
    rcases stuck_exit hs hstuck with h | ⟨i, -, hgate, hclosed⟩ | ⟨-, i, hin⟩
    · exact h
    · rcases hcan.waiters ⟨i, hgate⟩ with hopen | ⟨j, hj⟩
      · exact absurd hclosed hopen
      · rw [stuck_write hstuck j] at hj
        cases hj
    · obtain ⟨hwaits, hempty⟩ := (stuck_read hstuck i).resolve_left (by simp [hin])
      have hpos : 0 < Threads.count ReadPc.waits s.reads := Threads.count_pos.mpr ⟨i, hwaits⟩
      have hsignalled : s.worker.signalled = true := by
        by_contra hsig
        rw [stuck_worker hstuck (.inr (Bool.not_eq_true _ ▸ hsig))] at hsig
        exact hsig rfl
      have hle := hcan.readers
      rw [hsignalled, hempty] at hle
      simp only [Bool.not_true, Bool.toNat_false] at hle
      omega
  · intro hexit
    have hjoined := hs.joined
    rw [hexit] at hjoined
    refine ⟨?_, ?_⟩
    · rintro ⟨i, hgate⟩
      rw [hjoined i i.isLt] at hgate
      cases hgate
    · have hnone : Threads.count ReadPc.waits s.reads = 0 := by
        apply Threads.count_eq_zero.mpr
        intro i
        have hout := hs.drained (.inr hexit) i
        cases hpc : s.reads i <;> rw [hpc] at hout <;> first | rfl | cases hout
      omega

end Stuck

/-! ### Runs -/

/-- What each step keeps holds along a run without new calls. -/
theorem Stopping.steps (hreach : (system c).Reachable s) (hs : Stopping s) (hrun : (system c).Steps Quiet s t) :
    Stopping t ∧ (CanUnload s ↔ CanUnload t) := by
  induction hrun with
  | refl => exact ⟨hs, Iff.rfl⟩
  | tail hpre hquiet hstep ih =>
    have hw := hreach.steps hpre
    have hprog := ih.1.step (tokenKept hw) (gate_of_reachable hw) hquiet hstep
    exact ⟨hprog.stopping, ih.2.trans hprog.canUnload⟩

/-- The first step of the exit path changes nothing that `CanUnload` looks at. -/
theorem exit_starts (hexit : s.exit = .notStarted) (h : step s .exit = some t) :
    Stopping t ∧ (CanUnload s ↔ CanUnload t) := by
  simp only [step, completion_demo_exit, hexit, Option.some.injEq] at h
  subst h
  exact ⟨⟨by simp, fun hne => absurd rfl hne, fun hne => absurd rfl hne, Nat.zero_le _, by simp [ExitPc.asked],
      by simp [ExitPc.joined], by simp⟩,
    ⟨fun hcan => ⟨hcan.waiters, hcan.readers⟩, fun hcan => ⟨hcan.waiters, hcan.readers⟩⟩⟩

/-- The exit path does not hang, whatever the interleaving, exactly when `CanUnload` holds where it starts. -/
theorem exit_returns_iff {s₁ : State c} (hs : (system c).Reachable s) (hexit : s.exit = .notStarted)
    (hstart : step s .exit = some s₁) :
    (∀ t, (system c).Steps Quiet s₁ t → ¬ Hung t) ↔ CanUnload s := by
  obtain ⟨hstop, hcan⟩ := exit_starts hexit hstart
  have hs₁ : (system c).Reachable s₁ := hs.step (a := .exit) hstart
  rw [hcan]
  constructor
  · intro hnever
    have hprog : ∀ s a t, (system c).Reachable s ∧ Stopping s → Productive s a → (system c).step s a = some t →
        ((system c).Reachable t ∧ Stopping t) ∧ t.rank < s.rank := by
      rintro s a t ⟨hreach, hs⟩ hprod h
      have hp := hs.step (tokenKept hreach) (gate_of_reachable hreach) hprod.quiet h
      exact ⟨⟨hreach.step h, hp.stopping⟩, hp.rank hprod⟩
    obtain ⟨t, hrun, ⟨hreach, ht⟩, hstuck⟩ := System.exists_stuck State.rank hprog ⟨hs₁, hstop⟩
    have hquiet : (system c).Steps Quiet s₁ t := hrun.mono fun _ _ h => h.quiet
    rw [(hstop.steps hs₁ hquiet).2, stuck_returned_iff ht hstuck]
    by_contra hexit'
    exact hnever t hquiet ⟨ht.started, hexit', stuck_quiet (gate_of_reachable hreach) ht hstuck hexit'⟩
  · rintro hcan t hrun ⟨-, hexit', hstuck⟩
    obtain ⟨ht, hkept⟩ := hstop.steps hs₁ hrun
    have hproductive : (system c).Stuck Productive t := fun a ha => hstuck a ha.quiet
    exact hexit' ((stuck_returned_iff ht hproductive).mp (hkept.mp hcan))

/-- The module as it is loaded: `NUM_WAITERS` waiters, which nobody has released. -/
def unreleased : Config := ⟨4, 0, 0⟩

/-- The worker has stopped and the exit path joins the first waiter. -/
def joinsFirst : State unreleased :=
  ((system unreleased).run (initial unreleased) [.exit, .exit, .worker, .worker, .worker, .exit, .exit]).get rfl

theorem unreleased_hangs :
    ¬ ∀ s s₁ t : State unreleased, (system unreleased).Reachable s → s.exit = .notStarted →
      step s .exit = some s₁ → (system unreleased).Steps Quiet s₁ t → ¬ Hung t := by
  intro hnever
  have hrun : (system unreleased).Steps Quiet { initial unreleased with exit := .stopWorker } joinsFirst := by
    have hacts : (system unreleased).run { initial unreleased with exit := .stopWorker }
        [.exit, .worker, .worker, .worker, .exit, .exit] = some joinsFirst := (Option.some_get _).symm
    refine .of_run ?_ hacts
    intro a ha s
    simp only [List.mem_cons, List.not_mem_nil, or_false] at ha
    rcases ha with rfl | rfl | rfl | rfl | rfl | rfl <;> trivial
  apply hnever (initial unreleased) _ joinsFirst (.init rfl) rfl rfl hrun
  refine ⟨nofun, nofun, ?_⟩
  intro a hquiet
  cases a with
  | worker => rfl
  | waiter i => rfl
  | read i b => exact i.elim0
  | write i b => exact i.elim0
  | exit => rfl

/-- Two calls: one reads the ready signal, the other releases the waiters. -/
def released : State ⟨4, 1, 1⟩ :=
  ((system ⟨4, 1, 1⟩).run (initial ⟨4, 1, 1⟩)
    [.read ⟨0, Nat.one_pos⟩ (.call 0), .write ⟨0, Nat.one_pos⟩ (.call 2), .write ⟨0, Nat.one_pos⟩ .release,
      .waiter ⟨0, Nat.succ_pos 3⟩]).get rfl

theorem released_unloads : CanUnload released ∧
    ∀ t, (system ⟨4, 1, 1⟩).Steps Quiet { released with exit := .stopWorker } t → ¬ Hung t := by
  have hreach : (system ⟨4, 1, 1⟩).Reachable released := .of_run rfl (fun _ _ _ => trivial) (Option.some_get _).symm
  have hcan : CanUnload released := ⟨fun _ => .inl nofun, by decide⟩
  exact ⟨hcan, (exit_returns_iff hreach rfl rfl).mpr hcan⟩

end Armv8Driver.CompletionDemo
