import Armv8Driver.CompletionDemo.Model

/-!
# The readiness signal

`worker_fn` calls `complete(&init_done)` once, so there is one token for all readers. The step lemma
`step_token` says what a step can do to the token; the count of tokens and of the readers that took one
follows, and with it the number of readers the signal reaches.
-/

namespace Armv8Driver.CompletionDemo

open Kernel Transition

variable {c : Config} {s t : State c}

/-- `worker_fn` has executed `complete(&init_done)`. -/
def WorkerPc.signalled : WorkerPc → Bool
  | .slowInit | .signal => false
  | _ => true

/-- The call has come through `wait_for_completion`: only a call with `*off > 0` returns 0. -/
def ReadPc.took : ReadPc → Bool
  | .woken _ => true
  | .returned ret _ => ret != 0
  | _ => false

/-- The call of `status_read` sleeps: it is in the wait and no token is left. -/
def Blocked (s : State c) (i : Fin c.reads) : Prop :=
  (∃ off, s.reads i = .waiting off) ∧ s.init_done.done = 0

def ReadinessKept (s : State c) : Prop := s.worker.signalled = true → ∀ i, ¬ Blocked s i

def FromStart (_ : State c) : Action c → Prop
  | .read _ (.call off) => off = 0
  | _ => True

/-- What a step does to the token: nothing, or it gives the signal, or one reader takes it. -/
theorem step_token {a : Action c} (h : step s a = some t) :
    (t.init_done = s.init_done ∧ t.worker.signalled = s.worker.signalled ∧
      (t.reads = s.reads ∨
        ∃ i pc, t.reads = Function.update s.reads i pc ∧ pc.took = (s.reads i).took)) ∨
    (t.init_done = s.init_done.complete ∧ s.worker = .signal ∧ t.worker.signalled = true ∧
      t.reads = s.reads) ∨
    (∃ i off, s.reads i = .waiting off ∧ s.init_done.wait_for_completion = some t.init_done ∧
      t.worker = s.worker ∧ t.reads = Function.update s.reads i (.woken off)) := by
  cases a with
  | worker =>
    simp only [step, worker_fn] at h
    split at h <;> cases h
    · rename_i hpc
      exact .inl ⟨rfl, by simp [hpc, WorkerPc.signalled], .inl rfl⟩
    · rename_i hpc
      exact .inr (.inl ⟨rfl, hpc, rfl, rfl⟩)
    · rename_i hpc
      refine .inl ⟨rfl, ?_, .inl rfl⟩
      rw [hpc]
      cases s.workerStop <;> rfl
    · rename_i hpc
      exact .inl ⟨rfl, by simp [hpc, WorkerPc.signalled], .inl rfl⟩
  | waiter i =>
    rw [waiter_fn_frame h]
    exact .inl ⟨rfl, rfl, .inl rfl⟩
  | read i b =>
    obtain ⟨done, pc', hmove, rfl⟩ := status_read_move h
    generalize hpc : s.reads i = pc at hmove
    cases hmove with
    | @wait off _ hdone => exact .inr (.inr ⟨i, off, hpc, hdone, rfl, rfl⟩)
    | _ => exact .inl ⟨rfl, rfl, .inr ⟨i, _, rfl, by rw [hpc]; rfl⟩⟩
  | write i b =>
    rw [release_write_frame h]
    exact .inl ⟨rfl, rfl, .inl rfl⟩
  | exit =>
    rw [completion_demo_exit_frame h]
    exact .inl ⟨rfl, rfl, .inl rfl⟩

/-- The one token is with the completion or with the one reader that took it. -/
def TokenKept (s : State c) : Prop :=
  s.init_done.done + Threads.count ReadPc.took s.reads = s.worker.signalled.toNat

theorem initial_tokenKept : TokenKept (initial c) := by
  have hnone : Threads.count ReadPc.took (initial c).reads = 0 := Threads.count_eq_zero.mpr fun _ => rfl
  rw [TokenKept, hnone]
  rfl

theorem step_tokenKept {a : Action c} (hs : TokenKept s) (h : step s a = some t) : TokenKept t := by
  unfold TokenKept at hs ⊢
  rcases step_token h with ⟨hdone, hsig, hreads | ⟨i, pc, hreads, hpc⟩⟩ | ⟨hdone, hsig, hsig', hreads⟩ |
    ⟨i, off, hpc, hdone, hworker, hreads⟩
  · rw [hdone, hsig, hreads]
    exact hs
  · have hcount := Threads.count_update ReadPc.took s.reads i pc
    rw [hpc] at hcount
    rw [hdone, hsig, hreads]
    omega
  · have hzero : s.init_done.done + Threads.count ReadPc.took s.reads = 0 := by
      rw [hs, hsig]
      rfl
    have hmin : min (s.init_done.done + 1) UINT_MAX = s.init_done.done + 1 :=
      Nat.min_eq_left (by unfold UINT_MAX; omega)
    rw [hdone, hsig', hreads, Completion.complete_done, hmin, Bool.toNat_true]
    omega
  · have hcount := Threads.count_update ReadPc.took s.reads i (.woken off)
    rw [hpc, show (ReadPc.waiting off).took = false from rfl, show (ReadPc.woken off).took = true from rfl,
      Bool.toNat_false, Bool.toNat_true] at hcount
    have hle : s.worker.signalled.toNat ≤ 1 := Bool.toNat_le _
    obtain ⟨hpos, htaken⟩ := Completion.wait_for_completion_eq_some.mp hdone
    rw [if_neg (by unfold UINT_MAX; omega)] at htaken
    rw [hworker, hreads]
    omega

theorem tokenKept (hs : (system c).Reachable s) : TokenKept s :=
  hs.invariant (fun _ h => h ▸ initial_tokenKept) fun _ _ _ hi h => step_tokenKept hi h

/-- A reader sleeps after the signal only when another reader has taken the token. -/
theorem Blocked.other_took {i : Fin c.reads} (hs : (system c).Reachable s)
    (hsig : s.worker.signalled = true) (hb : Blocked s i) : ∃ j, j ≠ i ∧ (s.reads j).took = true := by
  obtain ⟨⟨off, hpc⟩, hzero⟩ := hb
  have htok := tokenKept hs
  rw [TokenKept, hzero, hsig, Bool.toNat_true, Nat.zero_add] at htok
  obtain ⟨j, hj⟩ := Threads.count_pos.mp (by omega : 0 < Threads.count ReadPc.took s.reads)
  refine ⟨j, ?_, hj⟩
  rintro rfl
  rw [hpc] at hj
  cases hj

/-- With one call of `status_read` there is nobody else to take the token. -/
theorem readinessKept_of_reads_le (hc : c.reads ≤ 1) (hs : (system c).Reachable s) : ReadinessKept s := by
  intro hsig i hb
  obtain ⟨j, hj, -⟩ := hb.other_took hs hsig
  have hi := i.isLt
  have hj' := j.isLt
  exact hj (Fin.ext (by omega))

/-! ### The second reader -/

/-- The worker signals, one reader calls and takes the token, another reader calls. -/
def secondReader (first second : Fin c.reads) : List (Action c) :=
  [.worker, .worker, .read first (.call 0), .read first .wait, .read second (.call 0)]

/-- The state in which the second reader sleeps for good. -/
def starved (c : Config) (first second : Fin c.reads) : State c :=
  { initial c with
    worker := .shouldStop
    reads := Function.update (Function.update (Function.update (fun _ => .notCalled)
      first (.waiting 0)) first (.woken 0)) second (.waiting 0) }

theorem run_secondReader (first second : Fin c.reads) (h : second ≠ first) :
    (system c).run (initial c) (secondReader first second) = some (starved c first second) := by
  simp [System.run, secondReader, system, step, worker_fn, status_read, initial, starved,
    ExitPc.statusEntry, Completion.wait_for_completion, Completion.complete, Completion.init_completion,
    UINT_MAX, h]

theorem secondReader_fromStart (first second : Fin c.reads) :
    ∀ a ∈ secondReader first second, ∀ s, FromStart s a := by
  intro a ha s
  simp only [secondReader, List.mem_cons, List.not_mem_nil, or_false] at ha
  rcases ha with rfl | rfl | rfl | rfl | rfl <;> simp [FromStart]

theorem starved_reachable (first second : Fin c.reads) (h : second ≠ first) :
    (system c).ReachableUnder FromStart (starved c first second) :=
  .of_run rfl (secondReader_fromStart first second) (run_secondReader first second h)

theorem starved_not_kept (first second : Fin c.reads) : ¬ ReadinessKept (starved c first second) := by
  intro hkept
  exact hkept rfl second ⟨⟨0, by simp [starved]⟩, rfl⟩

theorem second_read_sleeps :
    ¬ ∀ s, (system ⟨4, 2, 0⟩).ReachableUnder FromStart s → ReadinessKept s := by
  intro hall
  exact starved_not_kept 0 1 (hall _ (starved_reachable 0 1 (by decide)))

/-- The signal reaches every reader exactly when `status_read` is called at most once. -/
theorem readinessKept_iff (c : Config) :
    (∀ s, (system c).ReachableUnder FromStart s → ReadinessKept s) ↔ c.reads ≤ 1 := by
  constructor
  · intro hall
    by_contra hc
    have hne : (⟨1, by omega⟩ : Fin c.reads) ≠ ⟨0, by omega⟩ := by
      intro h
      exact absurd (congrArg Fin.val h) Nat.one_ne_zero
    exact starved_not_kept _ _ (hall _ (starved_reachable _ _ hne))
  · intro hc s hs
    exact readinessKept_of_reads_le hc hs.reachable

end Armv8Driver.CompletionDemo
