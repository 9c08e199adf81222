import Armv8Driver.SemDemo.Fifo

/-!
# Unloading `sem_demo`

After `kthread_stop` has set the flag the producer makes at most the one value it is at, and no new
calls arrive, so every run ends. Where it ends does not depend on the interleaving: `CanUnload` is
kept by each step in both directions, and a state in which nothing can move has returned from
`sem_demo_exit` exactly if it holds.
-/

namespace Armv8Driver.SemDemo

open Kernel Transition

variable {c : Config} {s t : State c} {m m' : Shared c} {p p' : Producer c}

/-- No new system call and no signal. -/
def Quiet (_ : State c) : Action c → Prop
  | .producerInterrupted | .write _ (.call _) | .write _ .interrupted | .read _ (.call _) => False
  | _ => True

/-- The exit path has started, has not returned, and no thread of the module and no handler can move. -/
def Hung (s : State c) : Prop :=
  s.exit ≠ .notStarted ∧ s.exit ≠ .returned ∧ (system c).Stuck Quiet s

/-- The producer will give one more filled permit before it looks at the stop flag. -/
def ProducerPc.willGive : ProducerPc c → Nat
  | .shouldStop | .sleep | .returned => 0
  | _ => 1

def WritePc.waits : WritePc c → Bool
  | .downFilled _ => true
  | _ => false

/-- A producer that waits for a free slot has one or will be given one, and there is a filled slot for
every writer that waits. -/
structure CanUnload (s : State c) : Prop where
  producer : s.producer.pc = .downFree → 0 < s.shared.free_slots.count ∨ ∃ i, (s.writes i).inFlight = true
  writers : Threads.count WritePc.waits s.writes ≤ s.shared.filled_slots.count + s.producer.pc.willGive

/-- What holds once the exit path has started. -/
structure Stopping (s : State c) : Prop where
  flag : s.should_stop = true
  started : s.exit ≠ .notStarted
  joined : s.exit ≠ .join → s.producer.pc = .returned
  drained : s.exit = .returned → ∀ i, (s.writes i).inFlight = false

/-! ### How far each thread is from its end -/

def ProducerPc.rank : ProducerPc c → Nat
  | .returned => 0
  | .shouldStop => 1
  | .sleep => 2
  | .upFilled => 3
  | .unlock => 4
  | .nextValue => 5
  | .storeCount _ => 6
  | .loadCount => 7
  | .storeIdx _ => 8
  | .loadIdx => 9
  | .storeSlot _ => 10
  | .loadSlot => 11
  | .lock => 12
  | .downFree => 13

def WritePc.rank : WritePc c → Nat
  | .notCalled | .returned _ => 0
  | .upFree _ => 1
  | .unlock _ => 2
  | .storeCount .. => 3
  | .loadCount _ => 4
  | .storeIdx .. => 5
  | .loadIdx _ => 6
  | .loadBuffer .. => 7
  | .loadSlot _ => 8
  | .lock _ => 9
  | .downFilled _ => 10

def ReadPc.rank : ReadPc → Nat
  | .notCalled | .returned _ => 0
  | .copy _ => 1
  | .unlock _ => 2
  | .arguments p q free filled => 3 + (p.isNone.toNat + q.isNone.toNat + free.isNone.toNat + filled.isNone.toNat)
  | .lock => 8

def ExitPc.rank : ExitPc → Nat
  | .notStarted => 3
  | .join => 2
  | .drain => 1
  | .returned => 0

def State.rank (s : State c) : Nat :=
  s.producer.pc.rank + Threads.total WritePc.rank s.writes + Threads.total ReadPc.rank s.reads + s.exit.rank

/-! ### What a step does -/

structure ProducerStops (m : Shared c) (p : Producer c) (m' : Shared c) (p' : Producer c) : Prop where
  permit : p.pc = .downFree → 0 < m.free_slots.count
  away : p'.pc ≠ .downFree
  gives : m'.filled_slots.count + p'.pc.willGive = m.filled_slots.count + p.pc.willGive
  rank : p'.pc.rank < p.pc.rank
  running : p.pc ≠ .returned

/-- With the stop flag set the producer runs to its end. -/
theorem producer_fn_stops (h : producer_fn true false m p = some (m', p')) : ProducerStops m p m' p' := by
  obtain ⟨pc, value⟩ := p
  cases pc with
  | returned => cases h
  | downFree =>
    obtain ⟨free, hfree, hs⟩ := Option.bind_eq_some_iff.mp h
    cases hs
    have hcount := Semaphore.down_eq_some.mp hfree
    exact ⟨fun _ => by omega, nofun, rfl, by simp [ProducerPc.rank], nofun⟩
  | lock =>
    obtain ⟨l, -, hs⟩ := Option.bind_eq_some_iff.mp h
    cases hs
    exact ⟨nofun, nofun, rfl, by simp [ProducerPc.rank], nofun⟩
  | _ =>
    cases h
    exact ⟨nofun, nofun, rfl, by simp [ProducerPc.rank], nofun⟩

structure WriteStops (m : Shared c) (pc : WritePc c) (m' : Shared c) (pc' : WritePc c) : Prop where
  before : pc.inFlight = true
  after : pc'.inFlight = true ∨ 0 < m'.free_slots.count
  takes : m'.filled_slots.count + pc.waits.toNat = m.filled_slots.count + pc'.waits.toNat
  rank : pc'.rank < pc.rank

/-- A call that has started and is not interrupted runs to its end. -/
theorem demo_proc_write_stops {entry : Bool} {i : Fin c.writes} {pc pc' : WritePc c}
    (h : demo_proc_write entry i m pc .step = some (m', pc')) : WriteStops m pc m' pc' := by
  cases pc with
  | notCalled => cases h
  | returned => cases h
  | downFilled count =>
    obtain ⟨filled, hfilled, hs⟩ := Option.bind_eq_some_iff.mp h
    cases hs
    have hcount := Semaphore.down_eq_some.mp hfilled
    refine ⟨rfl, .inl rfl, ?_, by simp [WritePc.rank]⟩
    simp only [WritePc.waits, Bool.toNat_true, Bool.toNat_false]
    omega
  | lock count =>
    obtain ⟨l, -, hs⟩ := Option.bind_eq_some_iff.mp h
    cases hs
    exact ⟨rfl, .inl rfl, rfl, by simp [WritePc.rank]⟩
  | upFree count =>
    cases h
    exact ⟨rfl, .inr (Nat.succ_pos _), rfl, by simp [WritePc.rank]⟩
  | _ =>
    cases h
    exact ⟨rfl, .inl rfl, rfl, by simp [WritePc.rank]⟩

theorem demo_proc_read_rank {entry : Bool} {i : Fin c.reads} {pc pc' : ReadPc} {a : ReadStep} {l : Mutex (Thread c)}
    (hquiet : ∀ ppos, a ≠ .call ppos) (h : demo_proc_read entry i m pc a = some (l, pc')) : pc'.rank < pc.rank := by
  cases demo_proc_read_move h with
  | atEnd => exact absurd rfl (hquiet _)
  | call => exact absurd rfl (hquiet _)
  | lock => decide
  | _ =>
    simp only [ReadPc.rank, Option.isNone_none, Option.isNone_some, Bool.toNat_true, Bool.toNat_false]
    omega

/-- What one step of the exit path or of a thread does: it keeps `CanUnload`, both ways, and it is
nearer to the end. -/
structure Progress (s t : State c) : Prop where
  canUnload : CanUnload s ↔ CanUnload t
  stopping : Stopping t
  rank : t.rank < s.rank

theorem Stopping.stepProducer (hs : Stopping s) (h : s.stepProducer false = some t) : Progress s t := by
  obtain ⟨⟨m', p'⟩, hstep, ht⟩ := Option.bind_eq_some_iff.mp h
  have hwrites : m'.free_slots = m'.free_slots := rfl
  rw [hs.flag] at hstep
  cases ht
  have hstop := producer_fn_stops hstep
  refine ⟨⟨fun hcan => ⟨fun hpc => absurd hpc hstop.away, ?_⟩, fun hcan => ⟨fun hpc => .inl (hstop.permit hpc), ?_⟩⟩,
    ⟨hs.flag, hs.started, fun hjoin => absurd (hs.joined hjoin) hstop.running, hs.drained⟩, ?_⟩
  · have hle := hcan.writers
    have hgives := hstop.gives
    simp only
    omega
  · have hle := hcan.writers
    have hgives := hstop.gives
    simp only at hle
    omega
  · have hrank := hstop.rank
    simp only [State.rank]
    omega

theorem Stopping.stepWrite {i : Fin c.writes} (hs : Stopping s) (h : s.stepWrite i .step = some t) : Progress s t := by
  obtain ⟨⟨m', pc'⟩, hstep, ht⟩ := Option.bind_eq_some_iff.mp h
  cases ht
  have hstop := demo_proc_write_stops hstep
  have hcount := Threads.count_update WritePc.waits s.writes i pc'
  have htakes := hstop.takes
  have hafter : 0 < m'.free_slots.count ∨ ∃ j, ((Function.update s.writes i pc') j).inFlight = true := by
    rcases hstop.after with hin | hfree
    · exact .inr ⟨i, by rw [Function.update_self]; exact hin⟩
    · exact .inl hfree
  refine ⟨⟨fun hcan => ⟨fun _ => hafter, ?_⟩, fun hcan => ⟨fun _ => .inr ⟨i, hstop.before⟩, ?_⟩⟩,
    ⟨hs.flag, hs.started, hs.joined, fun hret => ?_⟩, ?_⟩
  · have hle := hcan.writers
    simp only
    omega
  · have hle := hcan.writers
    simp only at hle
    omega
  · have hout := hs.drained hret i
    rw [hstop.before] at hout
    cases hout
  · have hrank := hstop.rank
    have htotal := Threads.total_update WritePc.rank s.writes i pc'
    simp only [State.rank]
    omega

theorem Stopping.stepRead {i : Fin c.reads} {a : ReadStep} (hs : Stopping s) (hquiet : ∀ ppos, a ≠ .call ppos)
    (h : s.stepRead i a = some t) : Progress s t := by
  obtain ⟨⟨l, pc'⟩, hstep, ht⟩ := Option.bind_eq_some_iff.mp h
  cases ht
  refine ⟨⟨fun hcan => ⟨hcan.producer, hcan.writers⟩, fun hcan => ⟨hcan.producer, hcan.writers⟩⟩,
    ⟨hs.flag, hs.started, hs.joined, hs.drained⟩, ?_⟩
  have hrank := demo_proc_read_rank hquiet hstep
  have htotal := Threads.total_update ReadPc.rank s.reads i pc'
  simp only [State.rank]
  omega

theorem Stopping.stepExit (hs : Stopping s) (h : sem_demo_exit s = some t) : Progress s t := by
  unfold sem_demo_exit at h
  split at h
  case h_1 hexit => exact absurd hexit hs.started
  case h_2 hexit =>
    split_ifs at h with hjoined
    cases h
    refine ⟨⟨fun hcan => ⟨hcan.producer, hcan.writers⟩, fun hcan => ⟨hcan.producer, hcan.writers⟩⟩,
      ⟨hs.flag, by simp, fun _ => hjoined, by simp⟩, ?_⟩
    simp [State.rank, hexit, ExitPc.rank]
  case h_3 hexit =>
    split_ifs at h with hdrained
    cases h
    refine ⟨⟨fun hcan => ⟨hcan.producer, hcan.writers⟩, fun hcan => ⟨hcan.producer, hcan.writers⟩⟩,
      ⟨hs.flag, by simp, fun _ => hs.joined (by rw [hexit]; decide), fun _ => hdrained.1⟩, ?_⟩
    simp [State.rank, hexit, ExitPc.rank]
  case h_4 => cases h

theorem Stopping.step {a : Action c} (hs : Stopping s) (hquiet : Quiet s a) (h : step s a = some t) : Progress s t := by
  cases a with
  | producer => exact hs.stepProducer h
  | producerInterrupted => exact hquiet.elim
  | write i b =>
    cases b with
    | step => exact hs.stepWrite h
    | call => exact hquiet.elim
    | interrupted => exact hquiet.elim
  | read i b =>
    apply hs.stepRead ?_ h
    rintro ppos rfl
    exact hquiet
  | exit => exact hs.stepExit h

/-! ### Where a run ends -/

theorem producer_fn_blocked (h : producer_fn true false m p = none) :
    p.pc = .returned ∨ (p.pc = .downFree ∧ m.free_slots.count = 0) ∨ (p.pc = .lock ∧ m.buf_lock.owner ≠ none) := by
  obtain ⟨pc, value⟩ := p
  cases pc with
  | returned => exact .inl rfl
  | downFree =>
    exact .inr (.inl ⟨rfl, Semaphore.down_eq_none.mp (System.eq_none_of_bind h fun _ => Option.some_ne_none _)⟩)
  | lock =>
    exact .inr (.inr ⟨rfl, Mutex.mutex_lock_eq_none.mp (System.eq_none_of_bind h fun _ => Option.some_ne_none _)⟩)
  | _ => cases h

theorem demo_proc_write_blocked {entry : Bool} {i : Fin c.writes} {pc : WritePc c}
    (h : demo_proc_write entry i m pc .step = none) :
    pc.inFlight = false ∨ (pc.waits = true ∧ m.filled_slots.count = 0) ∨
      (pc.critical = false ∧ pc.waits = false ∧ m.buf_lock.owner ≠ none) := by
  cases pc with
  | notCalled => exact .inl rfl
  | returned => exact .inl rfl
  | downFilled count =>
    exact .inr (.inl ⟨rfl, Semaphore.down_eq_none.mp (System.eq_none_of_bind h fun _ => Option.some_ne_none _)⟩)
  | lock count =>
    exact .inr (.inr ⟨rfl, rfl, Mutex.mutex_lock_eq_none.mp (System.eq_none_of_bind h fun _ => Option.some_ne_none _)⟩)
  | _ => cases h

theorem demo_proc_read_blocked {entry : Bool} {i : Fin c.reads} {pc : ReadPc}
    (h : ∀ a, (∀ ppos, a ≠ .call ppos) → demo_proc_read entry i m pc a = none) :
    pc.inFlight = false ∨ (pc.critical = false ∧ m.buf_lock.owner ≠ none) := by
  cases pc with
  | notCalled => exact .inl rfl
  | returned => exact .inl rfl
  | lock =>
    exact .inr ⟨rfl, Mutex.mutex_lock_eq_none.mp (System.eq_none_of_bind (h .step nofun) fun _ => Option.some_ne_none _)⟩
  | arguments p q free filled =>
    cases p with
    | none => cases h .produced nofun
    | some p =>
      cases q with
      | none => cases h .consumed nofun
      | some q =>
        cases free with
        | none => cases h .free nofun
        | some free =>
          cases filled with
          | none => cases h .filled nofun
          | some filled => cases h .step nofun
  | _ => cases h .step nofun

theorem WritePc.moving_of_critical {pc : WritePc c} (h : pc.critical = true) : pc.inFlight = true ∧ pc.waits = false := by
  cases pc <;> first | exact ⟨rfl, rfl⟩ | cases h

/-- Outside its call and in its wait a writer holds no permit. -/
theorem WritePc.holds_nothing {pc : WritePc c} (h : pc.inFlight = false ∨ pc.waits = true) :
    pc.loaded = 0 ∧ pc.taken = 0 := by
  rcases h with h | h
  · cases pc <;> first | exact ⟨rfl, rfl⟩ | cases h
  · cases pc <;> first | exact ⟨rfl, rfl⟩ | cases h

theorem ReadPc.inFlight_of_critical {pc : ReadPc} (h : pc.critical = true) : pc.inFlight = true := by
  cases pc <;> first | rfl | cases h

section Stuck

variable (hi : Inv s) (hs : Stopping s) (hstuck : (system c).Stuck Quiet s)

include hs hstuck in
theorem stuck_producer : s.producer.pc = .returned ∨
    (s.producer.pc = .downFree ∧ s.shared.free_slots.count = 0) ∨
    (s.producer.pc = .lock ∧ s.shared.buf_lock.owner ≠ none) := by
  apply producer_fn_blocked
  have hnone : s.stepProducer false = none := hstuck .producer trivial
  rw [← hs.flag]
  exact System.eq_none_of_bind hnone fun _ => Option.some_ne_none _

include hstuck in
theorem stuck_write (i : Fin c.writes) : (s.writes i).inFlight = false ∨
    ((s.writes i).waits = true ∧ s.shared.filled_slots.count = 0) ∨
    ((s.writes i).critical = false ∧ (s.writes i).waits = false ∧ s.shared.buf_lock.owner ≠ none) := by
  have hnone : s.stepWrite i .step = none := hstuck (.write i .step) trivial
  apply @demo_proc_write_blocked c s.shared s.exit.entry i
  exact System.eq_none_of_bind hnone fun _ => Option.some_ne_none _

include hstuck in
theorem stuck_read (i : Fin c.reads) : (s.reads i).inFlight = false ∨
    ((s.reads i).critical = false ∧ s.shared.buf_lock.owner ≠ none) := by
  apply @demo_proc_read_blocked c s.shared s.exit.entry i
  intro a ha
  have hquiet : Quiet s (.read i a) := by
    cases a <;> first | trivial | exact absurd rfl (ha _)
  have hnone : s.stepRead i a = none := hstuck (.read i a) hquiet
  exact System.eq_none_of_bind hnone fun _ => Option.some_ne_none _

include hi hs hstuck in
/-- The holder of the mutex is never blocked. -/
theorem stuck_unlocked : s.shared.buf_lock.owner = none := by
  by_contra hown
  obtain ⟨th, hth⟩ := Option.ne_none_iff_exists'.mp hown
  have hin := (hi.lock th).mp hth
  cases th with
  | producer =>
    have hpc : s.producer.pc.critical = true := hin
    rcases stuck_producer hs hstuck with h | ⟨h, -⟩ | ⟨h, -⟩ <;> rw [h] at hpc <;> cases hpc
  | writer i =>
    have hpc : (s.writes i).critical = true := hin
    rcases stuck_write hstuck i with h | ⟨h, -⟩ | ⟨h, -⟩
    · rw [(WritePc.moving_of_critical hpc).1] at h
      cases h
    · rw [(WritePc.moving_of_critical hpc).2] at h
      cases h
    · rw [h] at hpc
      cases hpc
  | reader i =>
    have hpc : (s.reads i).critical = true := hin
    rcases stuck_read hstuck i with h | ⟨h, -⟩
    · rw [ReadPc.inFlight_of_critical hpc] at h
      cases h
    · rw [h] at hpc
      cases hpc

include hi hs hstuck in
/-- The writers that cannot move wait for a filled slot, and there is none. -/
theorem stuck_write_waits (i : Fin c.writes) : (s.writes i).inFlight = false ∨
    ((s.writes i).waits = true ∧ s.shared.filled_slots.count = 0) := by
  rcases stuck_write hstuck i with h | h | ⟨-, -, h⟩
  · exact .inl h
  · exact .inr h
  · exact absurd (stuck_unlocked hi hs hstuck) h

include hi hs hstuck in
/-- A producer that cannot move has returned, if a run with its permits would not have stopped here. -/
theorem stuck_producer_returned (hcan : CanUnload s) : s.producer.pc = .returned := by
  rcases stuck_producer hs hstuck with h | ⟨hpc, hzero⟩ | ⟨-, h⟩
  · exact h
  · exfalso
    have hfull := hi.tokens.free
    have hfilled := hi.tokens.filled
    have hidle : ∀ w : WritePc c → Nat, (∀ pc, pc.inFlight = false ∨ pc.waits = true → w pc = 0) →
        Threads.total w s.writes = 0 := by
      intro w hw
      apply Threads.total_eq_zero.mpr
      intro i
      apply hw
      rcases stuck_write_waits hi hs hstuck i with h | ⟨h, -⟩
      · exact .inl h
      · exact .inr h
    have hloaded := hidle WritePc.loaded fun _ h => (WritePc.holds_nothing h).1
    have htaken := hidle WritePc.taken fun _ h => (WritePc.holds_nothing h).2
    obtain ⟨i, hin⟩ := (hcan.producer hpc).resolve_left (by omega)
    obtain ⟨-, hempty⟩ := (stuck_write_waits hi hs hstuck i).resolve_left (by simp [hin])
    have hpos := c.poolSize_pos
    simp only [hpc, ProducerPc.taken, ProducerPc.stored] at hfull hfilled
    omega
  · exact absurd (stuck_unlocked hi hs hstuck) h

include hi hs hstuck in
/-- Where nothing can move, the exit path has returned exactly if the module could unload. -/
theorem stuck_returned_iff : CanUnload s ↔ s.exit = .returned := by
  constructor
  · intro hcan
    have hreturned := stuck_producer_returned hi hs hstuck hcan
    have hwrites : ∀ i, (s.writes i).inFlight = false := by
      intro i
      rcases stuck_write_waits hi hs hstuck i with h | ⟨hwait, hzero⟩
      · exact h
      · have hle := hcan.writers
        have hpos : 0 < Threads.count WritePc.waits s.writes := Threads.count_pos.mpr ⟨i, hwait⟩
        rw [hreturned] at hle
        simp only [ProducerPc.willGive] at hle
        omega
    have hreads : ∀ i, (s.reads i).inFlight = false := by
      intro i
      rcases stuck_read hstuck i with h | ⟨-, h⟩
      · exact h
      · exact absurd (stuck_unlocked hi hs hstuck) h
    have hnone : sem_demo_exit s = none := hstuck .exit trivial
    cases hexit : s.exit with
    | notStarted => exact absurd hexit hs.started
    | join => simp [sem_demo_exit, hexit, hreturned] at hnone
    | drain => simp [sem_demo_exit, hexit, hwrites, hreads] at hnone
    | returned => rfl
  · intro hexit
    have hreturned := hs.joined (by rw [hexit]; nofun)
    have hwrites := hs.drained hexit
    refine ⟨fun hpc => absurd (hreturned.symm.trans hpc) nofun, ?_⟩
    have hzero : Threads.count WritePc.waits s.writes = 0 := by
      apply Threads.count_eq_zero.mpr
      intro i
      have hout := hwrites i
      cases hpc : s.writes i <;> rw [hpc] at hout <;> first | rfl | cases hout
    omega

end Stuck

/-! ### Runs -/

/-- What each step keeps holds along a run without new calls and signals. -/
theorem Stopping.steps (hs : Stopping s) (hrun : (system c).Steps Quiet s t) :
    Stopping t ∧ (CanUnload s ↔ CanUnload t) := by
  induction hrun with
  | refl => exact ⟨hs, Iff.rfl⟩
  | tail _ hquiet hstep ih =>
    have hprog := ih.1.step hquiet hstep
    exact ⟨hprog.stopping, ih.2.trans hprog.canUnload⟩

/-- The first step of the exit path sets the flag and changes nothing that `CanUnload` looks at. -/
theorem exit_starts (hexit : s.exit = .notStarted) (h : step s .exit = some t) :
    Stopping t ∧ (CanUnload s ↔ CanUnload t) := by
  simp only [step, sem_demo_exit, hexit, Option.some.injEq] at h
  subst h
  exact ⟨⟨rfl, nofun, fun hjoin => absurd rfl hjoin, nofun⟩,
    ⟨fun hcan => ⟨hcan.producer, hcan.writers⟩, fun hcan => ⟨hcan.producer, hcan.writers⟩⟩⟩

/-- The module unloads from a state whatever the interleaving, exactly when `CanUnload` holds there. -/
theorem unload_iff {s₁ : State c} (hs : (system c).Reachable s) (hexit : s.exit = .notStarted)
    (hstart : step s .exit = some s₁) :
    (∀ t, (system c).Steps Quiet s₁ t → ¬ Hung t) ↔ CanUnload s := by
  obtain ⟨hstop, hcan⟩ := exit_starts hexit hstart
  have hs₁ : (system c).Reachable s₁ := hs.step (a := .exit) hstart
  rw [hcan]
  constructor
  · intro hnever
    have hprog : ∀ s a t, Stopping s → Quiet s a → (system c).step s a = some t → Stopping t ∧ t.rank < s.rank := by
      intro s a t hs hquiet h
      have hp := hs.step hquiet h
      exact ⟨hp.stopping, hp.rank⟩
    obtain ⟨t, hrun, ht, hstuck⟩ := System.exists_stuck State.rank hprog hstop
    have hinv := Inv.of_reachable (hs₁.steps hrun)
    rw [(hstop.steps hrun).2, stuck_returned_iff hinv ht hstuck]
    by_contra hexit'
    exact hnever t hrun ⟨ht.started, hexit', hstuck⟩
  · rintro hcan t hrun ⟨-, hexit', hstuck⟩
    obtain ⟨ht, hkept⟩ := hstop.steps hrun
    have hinv := Inv.of_reachable (hs₁.steps hrun)
    exact hexit' ((stuck_returned_iff hinv ht hstuck).mp (hkept.mp hcan))

/-- The pool is full and the producer waits for a free slot. -/
def full : State demo := ((system demo).run (initial demo) (List.replicate 53 .producer)).get rfl

theorem full_reachable : (system demo).Reachable full :=
  .of_run rfl (fun _ _ _ => trivial) (Option.some_get _).symm

theorem full_hangs :
    ¬ ∀ s s₁ t : State demo, (system demo).Reachable s → s.exit = .notStarted → step s .exit = some s₁ →
      (system demo).Steps Quiet s₁ t → ¬ Hung t := by
  intro hnever
  apply hnever full { full with exit := .join, should_stop := true } _ full_reachable rfl rfl .refl
  refine ⟨nofun, nofun, ?_⟩
  intro a hquiet
  cases a with
  | producer => rfl
  | producerInterrupted => exact hquiet.elim
  | write i b => cases b <;> first | exact hquiet.elim | rfl
  | read i b => cases b <;> first | exact hquiet.elim | rfl
  | exit => rfl

/-- One value in the pool, the producer asleep and a write in its wait. -/
def oneWaits : State demo :=
  ((system demo).run (initial demo) (List.replicate 12 .producer ++ [.write ⟨0, Nat.one_pos⟩ (.call 2)])).get rfl

theorem oneWaits_unloads : CanUnload oneWaits ∧
    ∀ t, (system demo).Steps Quiet { oneWaits with exit := .join, should_stop := true } t → ¬ Hung t := by
  have hreach : (system demo).Reachable oneWaits := .of_run rfl (fun _ _ _ => trivial) (Option.some_get _).symm
  have hcan : CanUnload oneWaits := ⟨nofun, by decide⟩
  exact ⟨hcan, (unload_iff hreach rfl rfl).mpr hcan⟩

end Armv8Driver.SemDemo
