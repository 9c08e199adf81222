import Armv8Driver.SemDemo.Unload

/-!
# The pool fills up

`sem_demo` in use, with no new calls and no signals. The producer goes on as long as it gets a free slot, and every call
gives one back: so the steps to come are counted from the state, whatever their order. When they are over every call has
been served, and the pool is full.
-/

namespace Armv8Driver.SemDemo

open Kernel Transition

variable {c : Config} {s t : State c} {m m' : Shared c} {p p' : Producer c}

/-- No new call, no signal and no unload. -/
def settling (_ : State c) : Action c → Bool
  | .producer | .write _ .step => true
  | .read _ a => match a with | .call _ => false | _ => true
  | _ => false

/-- The steps of the producer until it waits for a free slot. -/
def ProducerPc.toWait : ProducerPc c → Nat
  | .downFree | .returned => 0
  | .shouldStop => 1
  | .sleep => 2
  | .upFilled => 3
  | .unlock => 4
  | .nextValue => 5
  | .storeCount _ => 6
  | .loadCount => 7
  | .storeIdx _ => 8
  | .loadIdx => 9
  | .storeSlot _ => 10
  | .loadSlot => 11
  | .lock => 12

/-- The slots that are free or that a call will free. -/
def State.slotsToFill (s : State c) : Nat := s.shared.free_slots.count + Threads.count WritePc.inFlight s.writes

/-- The steps to come; the producer makes 13 for each slot. -/
def State.work (s : State c) : Nat :=
  13 * s.slotsToFill + s.producer.pc.toWait + Threads.total WritePc.rank s.writes + Threads.total ReadPc.rank s.reads

/-- The call has not loaded its value. -/
def WritePc.unserved : WritePc c → Bool
  | .downFilled _ | .lock _ | .loadSlot _ | .loadBuffer .. => true
  | _ => false

/-- The values consumed, with those that the calls will consume. -/
def State.demand (s : State c) : Nat := s.shared.consumed.length + Threads.count WritePc.unserved s.writes

/-- The module is in use and its thread runs. -/
structure InUse (s : State c) : Prop where
  inv : Inv s
  exit : s.exit = .notStarted
  flag : s.should_stop = false
  running : s.producer.pc ≠ .returned

/-! ### What a step does -/

/-- The flag is set by `sem_demo_exit`. -/
theorem flag_of_reachable (hs : (system c).Reachable s) : s.exit = .notStarted → s.should_stop = false := by
  refine hs.invariant (I := fun s => s.exit = .notStarted → s.should_stop = false) ?_ ?_
  · rintro s rfl -
    rfl
  · intro s a t hi h
    cases a with
    | exit =>
      intro hexit
      have h' : sem_demo_exit s = some t := h
      unfold sem_demo_exit at h'
      split at h'
      case h_4 => cases h'
      case h_1 =>
        cases h'
        cases hexit
      all_goals
        obtain ⟨-, hs⟩ := Option.ite_none_right_eq_some.mp h'
        cases hs
        cases hexit
    | _ =>
      obtain ⟨_, -, ht⟩ := Option.bind_eq_some_iff.mp h
      cases ht
      exact hi

structure ProducerSettles (m : Shared c) (p : Producer c) (m' : Shared c) (p' : Producer c) : Prop where
  work : 13 * m'.free_slots.count + p'.pc.toWait + 1 = 13 * m.free_slots.count + p.pc.toWait
  running : p'.pc ≠ .returned
  consumed : m'.consumed = m.consumed

theorem producer_fn_settles (h : producer_fn false false m p = some (m', p')) : ProducerSettles m p m' p' := by
  obtain ⟨pc, value⟩ := p
  cases pc with
  | returned => cases h
  | downFree =>
    obtain ⟨free, hfree, hs⟩ := Option.bind_eq_some_iff.mp h
    cases hs
    have hcount := Semaphore.down_eq_some.mp hfree
    refine ⟨?_, nofun, rfl⟩
    simp only [ProducerPc.toWait]
    omega
  | lock =>
    obtain ⟨l, -, hs⟩ := Option.bind_eq_some_iff.mp h
    cases hs
    exact ⟨rfl, nofun, rfl⟩
  | _ =>
    cases h
    exact ⟨rfl, nofun, rfl⟩

structure WriteSettles (m : Shared c) (pc : WritePc c) (m' : Shared c) (pc' : WritePc c) : Prop where
  slots : m'.free_slots.count + pc'.inFlight.toNat = m.free_slots.count + pc.inFlight.toNat
  rank : pc'.rank + 1 = pc.rank
  demand : m'.consumed.length + pc'.unserved.toNat = m.consumed.length + pc.unserved.toNat

theorem demo_proc_write_settles {entry : Bool} {i : Fin c.writes} {pc pc' : WritePc c}
    (h : demo_proc_write entry i m pc .step = some (m', pc')) : WriteSettles m pc m' pc' := by
  cases pc with
  | notCalled => cases h
  | returned => cases h
  | downFilled count =>
    obtain ⟨filled, -, hs⟩ := Option.bind_eq_some_iff.mp h
    cases hs
    exact ⟨rfl, rfl, rfl⟩
  | lock count =>
    obtain ⟨l, -, hs⟩ := Option.bind_eq_some_iff.mp h
    cases hs
    exact ⟨rfl, rfl, rfl⟩
  | loadBuffer count slot =>
    cases h
    exact ⟨rfl, rfl, by rw [List.length_append]; rfl⟩
  | _ =>
    cases h
    exact ⟨rfl, rfl, rfl⟩

theorem demo_proc_read_settles {entry : Bool} {i : Fin c.reads} {pc pc' : ReadPc} {a : ReadStep} {l : Mutex (Thread c)}
    (ha : ∀ ppos, a ≠ .call ppos) (h : demo_proc_read entry i m pc a = some (l, pc')) : pc'.rank + 1 = pc.rank := by
  cases demo_proc_read_move h with
  | atEnd => exact absurd rfl (ha _)
  | call => exact absurd rfl (ha _)
  | lock | report | unlock | copy => rfl
  | _ =>
    simp only [ReadPc.rank, Option.isNone_none, Option.isNone_some, Bool.toNat_true, Bool.toNat_false]
    omega

/-- Each step is one of those to come, and it leaves what will have been consumed. -/
theorem InUse.step {a : Action c} (hs : InUse s) (hsettling : settling s a = true) (h : step s a = some t) :
    InUse t ∧ t.work + 1 = s.work ∧ t.demand = s.demand := by
  have hinv : Inv t := hs.inv.step h
  cases a with
  | producer =>
    obtain ⟨⟨m', p'⟩, hstep, ht⟩ := Option.bind_eq_some_iff.mp h
    rw [hs.flag] at hstep
    obtain ⟨hwork, hrunning, hconsumed⟩ := producer_fn_settles hstep
    cases ht
    refine ⟨⟨hinv, hs.exit, hs.flag, hrunning⟩, ?_, ?_⟩
    · simp only [State.work, State.slotsToFill]
      omega
    · simp only [State.demand, hconsumed]
  | producerInterrupted => cases hsettling
  | write i b =>
    cases b with
    | step =>
      obtain ⟨⟨m', pc'⟩, hstep, ht⟩ := Option.bind_eq_some_iff.mp h
      obtain ⟨hslots, hrank, hdemand⟩ := demo_proc_write_settles hstep
      have hin := Threads.count_update WritePc.inFlight s.writes i pc'
      have hunserved := Threads.count_update WritePc.unserved s.writes i pc'
      have htotal := Threads.total_update WritePc.rank s.writes i pc'
      cases ht
      refine ⟨⟨hinv, hs.exit, hs.flag, hs.running⟩, ?_, ?_⟩
      · simp only [State.work, State.slotsToFill]
        omega
      · simp only [State.demand]
        omega
    | _ => cases hsettling
  | read i b =>
    obtain ⟨⟨l, pc'⟩, hstep, ht⟩ := Option.bind_eq_some_iff.mp h
    have hnew : ∀ ppos, b ≠ .call ppos := by
      rintro ppos rfl
      cases hsettling
    have hrank := demo_proc_read_settles hnew hstep
    have htotal := Threads.total_update ReadPc.rank s.reads i pc'
    cases ht
    refine ⟨⟨hinv, hs.exit, hs.flag, hs.running⟩, ?_, rfl⟩
    simp only [State.work, State.slotsToFill]
    omega
  | exit => cases hsettling

/-! ### Where the steps end -/

theorem producer_fn_waits (h : producer_fn false false m p = none) :
    p.pc = .returned ∨ (p.pc = .downFree ∧ m.free_slots.count = 0) ∨ (p.pc = .lock ∧ m.buf_lock.owner ≠ none) := by
  obtain ⟨pc, value⟩ := p
  cases pc with
  | returned => exact .inl rfl
  | downFree =>
    exact .inr (.inl ⟨rfl, Semaphore.down_eq_none.mp (System.eq_none_of_bind h fun _ => Option.some_ne_none _)⟩)
  | lock =>
    exact .inr (.inr ⟨rfl, Mutex.mutex_lock_eq_none.mp (System.eq_none_of_bind h fun _ => Option.some_ne_none _)⟩)
  | _ => cases h

section Settled

variable (hs : InUse s) (hstuck : ∀ a, settling s a = true → step s a = none)

include hs hstuck in
theorem settled_producer : (s.producer.pc = .downFree ∧ s.shared.free_slots.count = 0) ∨
    (s.producer.pc = .lock ∧ s.shared.buf_lock.owner ≠ none) := by
  have hnone : s.stepProducer false = none := hstuck .producer rfl
  have hblocked : producer_fn s.should_stop false s.shared s.producer = none :=
    System.eq_none_of_bind hnone fun _ => Option.some_ne_none _
  rw [hs.flag] at hblocked
  exact (producer_fn_waits hblocked).resolve_left hs.running

include hstuck in
theorem settled_write (i : Fin c.writes) : (s.writes i).inFlight = false ∨
    ((s.writes i).waits = true ∧ s.shared.filled_slots.count = 0) ∨
    ((s.writes i).critical = false ∧ (s.writes i).waits = false ∧ s.shared.buf_lock.owner ≠ none) := by
  have hnone : s.stepWrite i .step = none := hstuck (.write i .step) rfl
  exact demo_proc_write_blocked (System.eq_none_of_bind hnone fun _ => Option.some_ne_none _)

include hstuck in
theorem settled_read (i : Fin c.reads) : (s.reads i).inFlight = false ∨
    ((s.reads i).critical = false ∧ s.shared.buf_lock.owner ≠ none) := by
  apply @demo_proc_read_blocked c s.shared s.exit.entry i
  intro a ha
  have hsettling : settling s (.read i a) = true := by
    cases a <;> first | rfl | exact absurd rfl (ha _)
  have hnone : s.stepRead i a = none := hstuck (.read i a) hsettling
  exact System.eq_none_of_bind hnone fun _ => Option.some_ne_none _

include hs hstuck in
/-- The holder of the mutex can always go on. -/
theorem settled_unlocked : s.shared.buf_lock.owner = none := by
  by_contra hown
  obtain ⟨th, hth⟩ := Option.ne_none_iff_exists'.mp hown
  have hin := (hs.inv.lock th).mp hth
  cases th with
  | producer =>
    have hpc : s.producer.pc.critical = true := hin
    rcases settled_producer hs hstuck with ⟨h, -⟩ | ⟨h, -⟩ <;> rw [h] at hpc <;> cases hpc
  | writer i =>
    have hpc : (s.writes i).critical = true := hin
    obtain ⟨hmoving, hwaits⟩ := WritePc.moving_of_critical hpc
    rcases settled_write hstuck i with h | ⟨h, -⟩ | ⟨h, -⟩
    · exact Bool.noConfusion (h.symm.trans hmoving)
    · exact Bool.noConfusion (h.symm.trans hwaits)
    · exact Bool.noConfusion (h.symm.trans hpc)
  | reader i =>
    have hpc : (s.reads i).critical = true := hin
    rcases settled_read hstuck i with h | ⟨h, -⟩
    · exact Bool.noConfusion (h.symm.trans (ReadPc.inFlight_of_critical hpc))
    · exact Bool.noConfusion (h.symm.trans hpc)

end Settled

/-- Every call has returned, and the producer waits with all slots filled. -/
structure Full (s : State c) : Prop where
  producer : s.producer.pc = .downFree
  writes : ∀ i, (s.writes i).inFlight = false
  reads : ∀ i, (s.reads i).inFlight = false
  free : s.shared.free_slots.count = 0
  filled : s.shared.filled_slots.count = c.poolSize
  produced : s.shared.produced.length = s.shared.consumed.length + c.poolSize

theorem InUse.full (hs : InUse s) (hstuck : ∀ a, settling s a = true → SemDemo.step s a = none) : Full s := by
  have hunlocked := settled_unlocked hs hstuck
  obtain ⟨hpc, hfree⟩ := (settled_producer hs hstuck).resolve_right fun h => h.2 hunlocked
  have hwaits : ∀ i, (s.writes i).inFlight = false ∨ (s.writes i).waits = true ∧ s.shared.filled_slots.count = 0 := by
    intro i
    rcases settled_write hstuck i with h | h | ⟨-, -, h⟩
    · exact .inl h
    · exact .inr h
    · exact absurd hunlocked h
  have hnothing : ∀ i, (s.writes i).loaded = 0 ∧ (s.writes i).taken = 0 := fun i =>
    WritePc.holds_nothing ((hwaits i).imp_right And.left)
  have hloaded : Threads.total WritePc.loaded s.writes = 0 := Threads.total_eq_zero.mpr fun i => (hnothing i).1
  have htaken : Threads.total WritePc.taken s.writes = 0 := Threads.total_eq_zero.mpr fun i => (hnothing i).2
  have hslots := hs.inv.tokens.free
  have hvalues := hs.inv.tokens.filled
  rw [hpc, hfree, hloaded] at hslots
  rw [hpc, htaken] at hvalues
  simp only [ProducerPc.taken, ProducerPc.stored] at hslots hvalues
  have hpos := c.poolSize_pos
  refine ⟨hpc, fun i => ?_, fun i => ?_, hfree, by omega, by omega⟩
  · exact (hwaits i).resolve_right fun h => by omega
  · exact (settled_read hstuck i).resolve_right fun h => h.2 hunlocked

theorem WritePc.idle {pc : WritePc c} (h : pc.inFlight = false) : pc.rank = 0 ∧ pc.unserved = false := by
  cases pc <;> first | exact ⟨rfl, rfl⟩ | cases h

theorem ReadPc.rank_idle {pc : ReadPc} (h : pc.inFlight = false) : pc.rank = 0 := by
  cases pc <;> first | rfl | cases h

theorem Full.work (hf : Full s) : s.work = 0 := by
  have hin : Threads.count WritePc.inFlight s.writes = 0 := Threads.count_eq_zero.mpr hf.writes
  have hwrites : Threads.total WritePc.rank s.writes = 0 :=
    Threads.total_eq_zero.mpr fun i => (WritePc.idle (hf.writes i)).1
  have hreads : Threads.total ReadPc.rank s.reads = 0 := Threads.total_eq_zero.mpr fun i => ReadPc.rank_idle (hf.reads i)
  rw [State.work, State.slotsToFill, hf.free, hin, hf.producer, hwrites, hreads]
  rfl

theorem Full.demand (hf : Full s) : s.demand = s.shared.consumed.length := by
  have hserved : Threads.count WritePc.unserved s.writes = 0 :=
    Threads.count_eq_zero.mpr fun i => (WritePc.idle (hf.writes i)).2
  rw [State.demand, hserved]
  rfl

/-- While no call is made, no signal comes and the module stays, the state fixes how many steps there will be, in
whatever order: nothing is left to do exactly after `work` of them. Then every write has consumed its value, every call
has returned and the pool is full, with the producer waiting for a slot. -/
theorem pool_fills (c : Config) (s t : State c) (moves : List (Action c)) (hs : (system c).Reachable s)
    (hexit : s.exit = .notStarted) (hproducer : s.producer.pc ≠ .returned)
    (hrun : ((system c).checked settling).run s moves = some t) :
    moves.length + t.work = s.work ∧ ((∀ a, settling t a = true → step t a = none) ↔ t.work = 0) ∧
      (t.work = 0 → Full t ∧ t.shared.consumed.length = s.demand) := by
  have hinUse : InUse s := ⟨.of_reachable hs, hexit, flag_of_reachable hs hexit, hproducer⟩
  have hstep : ∀ u a v, InUse u ∧ u.demand = s.demand → ((system c).checked settling).step u a = some v →
      (InUse v ∧ v.demand = s.demand) ∧ v.work + 1 = u.work := by
    rintro u a v ⟨hu, hdemand⟩ h
    obtain ⟨ha, h⟩ := Option.ite_none_right_eq_some.mp h
    obtain ⟨hv, hwork, hsame⟩ := hu.step ha h
    exact ⟨⟨hv, hsame.trans hdemand⟩, hwork⟩
  obtain ⟨⟨ht, hdemand⟩, hlength⟩ := System.length_add_eq_of_run State.work hstep ⟨hinUse, rfl⟩ hrun
  have hstuck : t.work = 0 → ∀ a, settling t a = true → step t a = none := by
    intro hzero a ha
    by_contra hsome
    obtain ⟨u, hu⟩ := Option.ne_none_iff_exists'.mp hsome
    have hwork := (ht.step ha hu).2.1
    omega
  refine ⟨hlength, ⟨fun h => (ht.full h).work, hstuck⟩, fun hzero => ?_⟩
  have hfull := ht.full (hstuck hzero)
  exact ⟨hfull, hfull.demand.symm.trans hdemand⟩

theorem four_slots : 0 < 4 := by decide

def busy : Config := ⟨4, four_slots, 2, 1⟩

/-- Two writes and a read are called before anything has been produced. -/
def called : State busy :=
  ((system busy).run (initial busy) [.write ⟨0, Nat.two_pos⟩ (.call 2), .write ⟨1, Nat.one_lt_two⟩ (.call 2),
    .read ⟨0, Nat.one_pos⟩ (.call 0)]).get rfl

/-- Two values, the three calls, and the four values that stay. -/
def busyMoves : List (Action busy) :=
  List.replicate 26 .producer ++ List.replicate 10 (.write ⟨1, Nat.one_lt_two⟩ .step) ++
    List.replicate 10 (.write ⟨0, Nat.two_pos⟩ .step) ++
      [ReadStep.step, .filled, .produced, .free, .consumed, .step, .step, .step].map (.read ⟨0, Nat.one_pos⟩) ++
        List.replicate 53 .producer

theorem called_fills : ∃ t, ((system busy).checked settling).run called busyMoves = some t ∧ Full t ∧
    t.shared.consumed.length = 2 := by
  have hcalled : (system busy).Reachable called := .of_run rfl (fun _ _ _ => trivial) (Option.some_get _).symm
  have hrun : ((system busy).checked settling).run called busyMoves =
      some ((((system busy).checked settling).run called busyMoves).get rfl) := (Option.some_get _).symm
  obtain ⟨hlength, -, hend⟩ := pool_fills busy called _ busyMoves hcalled rfl nofun hrun
  have hwork : called.work = busyMoves.length := by decide
  obtain ⟨hfull, hconsumed⟩ := hend (by omega)
  exact ⟨_, hrun, hfull, hconsumed.trans (by decide)⟩

end Armv8Driver.SemDemo
