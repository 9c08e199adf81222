import Armv8Driver.SemDemo.Fifo

/-!
# The statistics of `sem_demo`

`demo_proc_read` holds the mutex, so the two counters stand still while it reads, and each is at the number
of values stored or loaded. The two semaphores do not stand still, but a permit that is in the hands of a
thread is missing from both: each count is in its bound at each moment, so the four numbers are, whenever
they are read.
-/

namespace Armv8Driver.SemDemo

open Kernel Transition

variable {c : Config} {s t : State c} {m m' : Shared c} {p p' : Producer c} {intr stop : Bool}

/-- The increments that `produced_count` has seen. -/
def increments (m : Shared c) (p : Producer c) : Nat := m.produced.length - p.pc.countLag

/-- The report of a call, once its four numbers are read. -/
def ReadPc.report : ReadPc → Option Report
  | .unlock r | .copy r => some r
  | .returned r => r
  | _ => none

/-- What is in the pool is between the two semaphores. -/
structure Report.Consistent (poolSize : Nat) (r : Report) : Prop where
  filled : (r.filled_slots : Int) ≤ r.produced.toInt - r.consumed.toInt
  free : r.produced.toInt - r.consumed.toInt ≤ poolSize - r.free_slots
  both : r.free_slots + r.filled_slots ≤ poolSize

/-- The semaphores say exactly what is in the pool. -/
structure Report.Exact (poolSize : Nat) (r : Report) : Prop where
  filled : (r.filled_slots : Int) = r.produced.toInt - r.consumed.toInt
  free : r.produced.toInt - r.consumed.toInt = poolSize - r.free_slots
  both : r.free_slots + r.filled_slots = poolSize

/-- No thread is between its `down` and its `up`. -/
structure AtRest (s : State c) : Prop where
  producer : s.producer.pc.taken = 0 ∧ s.producer.pc.stored = 0
  writes : ∀ i, (s.writes i).taken = 0 ∧ (s.writes i).loaded = 0

/-- The numbers as they stand. -/
def State.report (s : State c) : Report where
  produced := s.shared.produced_count
  consumed := s.shared.consumed_count
  free_slots := s.shared.free_slots.count
  filled_slots := s.shared.filled_slots.count

/-! ### The counters under the mutex -/

theorem ProducerPc.countLag_le {pc : ProducerPc c} : pc.countLag ≤ pc.stored := by
  cases pc <;> simp [ProducerPc.countLag, ProducerPc.stored]

theorem ProducerPc.countLag_eq_zero {pc : ProducerPc c} (h : pc.critical = false) : pc.countLag = 0 := by
  cases pc <;> first | rfl | cases h

theorem WritePc.countLag_eq_zero {pc : WritePc c} (h : pc.critical = false ∨ pc.loaded = 0) : pc.countLag = 0 := by
  rcases h with h | h <;> cases pc <;> first | rfl | cases h

theorem ProducerData.produced_count (hd : ProducerData m p) (hlag : p.pc.countLag = 0) :
    m.produced_count = BitVec.ofNat 32 m.produced.length := by
  have hcount := hd.count
  rw [hlag] at hcount
  simpa using hcount

theorem WriteData.consumed_count {w : Fin c.writes → WritePc c} (hd : WriteData m w) (hlag : ∀ i, (w i).countLag = 0) :
    m.consumed_count = BitVec.ofNat 32 m.consumed.length := by
  have hcount := hd.count
  rw [Threads.total_eq_zero.mpr hlag] at hcount
  simpa using hcount

theorem producer_fn_outside (hpc : p.pc.critical = false) (h : producer_fn stop intr m p = some (m', p')) :
    m'.produced = m.produced ∧ m'.produced_count = m.produced_count := by
  obtain ⟨pc, value⟩ := p
  cases intr with
  | true =>
    cases pc <;> cases h
    exact ⟨rfl, rfl⟩
  | false =>
    cases pc with
    | downFree =>
      obtain ⟨free, -, hs⟩ := Option.bind_eq_some_iff.mp h
      cases hs
      exact ⟨rfl, rfl⟩
    | lock =>
      obtain ⟨l, -, hs⟩ := Option.bind_eq_some_iff.mp h
      cases hs
      exact ⟨rfl, rfl⟩
    | shouldStop | upFilled | sleep =>
      cases h
      exact ⟨rfl, rfl⟩
    | returned => cases h
    | _ => cases hpc

theorem producer_fn_increments (h : producer_fn stop intr m p = some (m', p')) : increments m p ≤ increments m' p' := by
  obtain ⟨pc, value⟩ := p
  cases intr with
  | true =>
    cases pc <;> cases h
    exact Nat.le_refl _
  | false =>
    cases pc with
    | downFree =>
      obtain ⟨free, -, hs⟩ := Option.bind_eq_some_iff.mp h
      cases hs
      exact Nat.le_refl _
    | lock =>
      obtain ⟨l, -, hs⟩ := Option.bind_eq_some_iff.mp h
      cases hs
      exact Nat.le_refl _
    | shouldStop =>
      cases h
      cases stop <;> exact Nat.le_refl _
    | storeSlot slot =>
      cases h
      simp [increments, ProducerPc.countLag]
    | storeCount n =>
      cases h
      simp [increments, ProducerPc.countLag]
    | returned => cases h
    | _ =>
      cases h
      exact Nat.le_refl _

/-! ### The reader -/

/-- What a call has read under the mutex. -/
def ReadPc.Reading (m : Shared c) : ReadPc → Prop
  | .arguments p q free filled =>
    (∀ w ∈ p, w = m.produced_count) ∧ (∀ w ∈ q, w = m.consumed_count) ∧
      (∀ f ∈ free, f + m.produced.length ≤ c.poolSize + m.consumed.length) ∧
      ∀ f ∈ filled, f + m.consumed.length ≤ m.produced.length
  | .unlock r =>
    r.produced = m.produced_count ∧ r.consumed = m.consumed_count ∧
      r.free_slots + m.produced.length ≤ c.poolSize + m.consumed.length ∧
      r.filled_slots + m.consumed.length ≤ m.produced.length
  | _ => True

/-- A report as it is after `n` increments of `produced_count` and `k` of `consumed_count`. -/
structure Report.Taken (poolSize : Nat) (r : Report) (n k : Nat) : Prop where
  produced : r.produced = BitVec.ofNat 32 n
  consumed : r.consumed = BitVec.ofNat 32 k
  free : r.free_slots + n ≤ poolSize + k
  filled : r.filled_slots + k ≤ n

theorem toInt_ofNat {n : Nat} (h : n < 2 ^ 31) : (BitVec.ofNat 32 n).toInt = n := by
  rw [BitVec.toInt_eq_toNat_of_lt (by rw [BitVec.toNat_ofNat]; omega), BitVec.toNat_ofNat]
  omega

/-- Below the wrap the words are the numbers. -/
theorem Report.Taken.consistent {poolSize n k : Nat} {r : Report} (h : r.Taken poolSize n k) (hwrap : n < 2 ^ 31) :
    r.Consistent poolSize := by
  obtain ⟨hp, hq, hfree, hfilled⟩ := h
  have hp' : r.produced.toInt = n := by rw [hp, toInt_ofNat hwrap]
  have hq' : r.consumed.toInt = k := by rw [hq, toInt_ofNat (by omega)]
  exact ⟨by omega, by omega, by omega⟩

/-- Each count is in its bound at each moment. -/
theorem Tokens.bounds (h : Tokens s) :
    s.shared.free_slots.count + s.shared.produced.length ≤ c.poolSize + s.shared.consumed.length ∧
      s.shared.filled_slots.count + s.shared.consumed.length ≤ s.shared.produced.length := by
  have hfree := h.free
  have hfilled := h.filled
  exact ⟨by omega, by omega⟩

theorem demo_proc_read_reading {entry : Bool} {i : Fin c.reads} {pc pc' : ReadPc} {a : ReadStep} {l : Mutex (Thread c)}
    (htokens : Tokens s) (hr : pc.Reading s.shared) (h : demo_proc_read entry i s.shared pc a = some (l, pc')) :
    pc'.Reading s.shared := by
  obtain ⟨hfree, hfilled⟩ := htokens.bounds
  cases demo_proc_read_move h with
  | lock => exact ⟨nofun, nofun, nofun, nofun⟩
  | produced =>
    obtain ⟨-, hq, hf, hg⟩ := hr
    exact ⟨fun w hw => (Option.some.inj hw).symm, hq, hf, hg⟩
  | consumed =>
    obtain ⟨hp, -, hf, hg⟩ := hr
    exact ⟨hp, fun w hw => (Option.some.inj hw).symm, hf, hg⟩
  | free =>
    obtain ⟨hp, hq, -, hg⟩ := hr
    exact ⟨hp, hq, fun f hf => Option.some.inj hf ▸ hfree, hg⟩
  | filled =>
    obtain ⟨hp, hq, hf, -⟩ := hr
    exact ⟨hp, hq, hf, fun f hf => Option.some.inj hf ▸ hfilled⟩
  | @report p q free filled =>
    obtain ⟨hp, hq, hf, hg⟩ := hr
    exact ⟨hp p rfl, hq q rfl, hf free rfl, hg filled rfl⟩
  | _ => trivial

/-- What the readers have read and reported, and by how many increments. -/
structure Reported (s : State c) : Prop where
  reading : ∀ i, (s.reads i).Reading s.shared
  taken : ∀ i r, (s.reads i).critical = false → (s.reads i).report = some r →
    ∃ n k, r.Taken c.poolSize n k ∧ n ≤ increments s.shared s.producer

theorem ReadPc.reading_of_not_critical {pc : ReadPc} (h : pc.critical = false) : pc.Reading m := by
  cases pc <;> trivial

theorem ReadPc.Reading.congr {pc : ReadPc} (h : pc.Reading m) (hp : m'.produced = m.produced ∧ m'.produced_count = m.produced_count)
    (hq : m'.consumed = m.consumed ∧ m'.consumed_count = m.consumed_count) : pc.Reading m' := by
  cases pc <;> first | trivial | simpa only [ReadPc.Reading, hp.1, hp.2, hq.1, hq.2] using h

/-- While a reader is inside its critical section the producer and the writers are outside of theirs. -/
theorem Inv.reader_alone {i : Fin c.reads} (hi : Inv s) (hin : (s.reads i).critical = true) :
    s.producer.pc.critical = false ∧ ∀ j, (s.writes j).critical = false := by
  have hin' : s.critical (.reader i) = true := hin
  constructor
  · by_contra hother
    have hother' : s.critical .producer = true := by simpa [State.critical] using hother
    cases hi.lock.unique hother' hin'
  · intro j
    by_contra hother
    have hother' : s.critical (.writer j) = true := by simpa [State.critical] using hother
    cases hi.lock.unique hother' hin'

/-- A report that is complete is one of the moment. -/
theorem Inv.taken {i : Fin c.reads} {r : Report} (hi : Inv s) (hr : (s.reads i).Reading s.shared)
    (hpc : s.reads i = .unlock r) : r.Taken c.poolSize s.shared.produced.length s.shared.consumed.length := by
  obtain ⟨hproducer, hwriters⟩ := hi.reader_alone (i := i) (by rw [hpc]; rfl)
  have hp := hi.producer.produced_count (ProducerPc.countLag_eq_zero hproducer)
  have hq := hi.writer.consumed_count fun j => WritePc.countLag_eq_zero (.inl (hwriters j))
  rw [hpc] at hr
  obtain ⟨hrp, hrq, hfree, hfilled⟩ := hr
  exact ⟨hrp.trans hp, hrq.trans hq, hfree, hfilled⟩

theorem Inv.increments_eq {i : Fin c.reads} (hi : Inv s) (hin : (s.reads i).critical = true) :
    increments s.shared s.producer = s.shared.produced.length := by
  rw [increments, ProducerPc.countLag_eq_zero (hi.reader_alone hin).1, Nat.sub_zero]

theorem Reported.stepProducer (hi : Inv s) (hr : Reported s) (h : s.stepProducer intr = some t) : Reported t := by
  obtain ⟨⟨m', p'⟩, hstep, hs⟩ := Option.bind_eq_some_iff.mp h
  cases hs
  obtain ⟨-, hcount, hconsumed⟩ := (producer_fn_spec hstep).frame
  constructor
  · intro i
    cases hin : (s.reads i).critical with
    | true => exact (hr.reading i).congr (producer_fn_outside (hi.reader_alone hin).1 hstep) ⟨hconsumed, hcount⟩
    | false => exact ReadPc.reading_of_not_critical hin
  · intro i r hin hrep
    obtain ⟨n, k, htaken, hle⟩ := hr.taken i r hin hrep
    exact ⟨n, k, htaken, hle.trans (producer_fn_increments hstep)⟩

theorem Reported.stepWrite {i : Fin c.writes} {a : WriteStep} (hi : Inv s) (hr : Reported s)
    (h : s.stepWrite i a = some t) : Reported t := by
  obtain ⟨⟨m', pc'⟩, hstep, hs⟩ := Option.bind_eq_some_iff.mp h
  cases hs
  have hspec := demo_proc_write_spec hstep
  obtain ⟨-, -, hcount, hproduced⟩ := hspec.frame
  constructor
  · intro j
    cases hin : (s.reads j).critical with
    | true =>
      have hout := (hi.reader_alone hin).2 i
      have hconsumed : m'.consumed = s.shared.consumed := by
        apply hspec.load.resolve_right
        rintro ⟨count, slot, hpc, -⟩
        rw [hpc] at hout
        cases hout
      exact (hr.reading j).congr ⟨hproduced, hcount⟩ ⟨hconsumed, (hspec.outside hout).2⟩
    | false => exact ReadPc.reading_of_not_critical hin
  · intro j r hin hrep
    obtain ⟨n, k, htaken, hle⟩ := hr.taken j r hin hrep
    refine ⟨n, k, htaken, ?_⟩
    rw [increments, hproduced]
    exact hle

/-- A call has its report from its critical section. -/
theorem demo_proc_read_report {entry : Bool} {i : Fin c.reads} {pc pc' : ReadPc} {a : ReadStep} {l : Mutex (Thread c)}
    {r : Report} (h : demo_proc_read entry i m pc a = some (l, pc')) (hout : pc'.critical = false)
    (hrep : pc'.report = some r) : pc = .unlock r ∨ pc.critical = false ∧ pc.report = some r := by
  cases demo_proc_read_move h with
  | unlock =>
    cases hrep
    exact .inl rfl
  | copy =>
    cases hrep
    exact .inr ⟨rfl, rfl⟩
  | atEnd => cases hrep
  | call => cases hrep
  | _ => cases hout

theorem Reported.stepRead {i : Fin c.reads} {a : ReadStep} (hi : Inv s) (hr : Reported s)
    (h : s.stepRead i a = some t) : Reported t := by
  obtain ⟨⟨l, pc'⟩, hstep, hs⟩ := Option.bind_eq_some_iff.mp h
  cases hs
  constructor
  · intro j
    by_cases hj : j = i
    · subst hj
      simp only [Function.update_self]
      exact (demo_proc_read_reading hi.tokens (hr.reading j) hstep).congr ⟨rfl, rfl⟩ ⟨rfl, rfl⟩
    · simp only [Function.update_of_ne hj]
      exact (hr.reading j).congr ⟨rfl, rfl⟩ ⟨rfl, rfl⟩
  · intro j r hin hrep
    by_cases hj : j = i
    · subst hj
      simp only [Function.update_self] at hin hrep
      rcases demo_proc_read_report hstep hin hrep with hpc | ⟨hout, hold⟩
      · have hlen := hi.increments_eq (i := j) (by rw [hpc]; rfl)
        exact ⟨_, _, hi.taken (hr.reading j) hpc, hlen.ge⟩
      · exact hr.taken j r hout hold
    · simp only [Function.update_of_ne hj] at hin hrep
      exact hr.taken j r hin hrep

theorem Reported.step {a : Action c} (hi : Inv s) (hr : Reported s) (h : step s a = some t) : Reported t := by
  cases a with
  | producer => exact hr.stepProducer hi h
  | producerInterrupted => exact hr.stepProducer hi h
  | write i b => exact hr.stepWrite hi h
  | read i b => exact hr.stepRead hi h
  | exit =>
    rw [sem_demo_exit_frame h]
    exact ⟨hr.reading, hr.taken⟩

theorem reported_of_reachable (hs : (system c).Reachable s) : Inv s ∧ Reported s := by
  refine hs.invariant (I := fun s => Inv s ∧ Reported s) ?_ ?_
  · rintro s rfl
    exact ⟨.initial, fun _ => trivial, nofun⟩
  · exact fun s a t hi h => ⟨hi.1.step h, hi.2.step hi.1 h⟩

/-- At rest each permit is in a semaphore and each value is counted. -/
theorem Inv.exact (hi : Inv s) (hrest : AtRest s) (hwrap : increments s.shared s.producer < 2 ^ 31) :
    s.report.Exact c.poolSize := by
  obtain ⟨htaken, hstored⟩ := hrest.producer
  have hlag : s.producer.pc.countLag = 0 := Nat.le_zero.mp (hstored ▸ ProducerPc.countLag_le)
  have hwrites : Threads.total WritePc.loaded s.writes = 0 := Threads.total_eq_zero.mpr fun i => (hrest.writes i).2
  have hwrites' : Threads.total WritePc.taken s.writes = 0 := Threads.total_eq_zero.mpr fun i => (hrest.writes i).1
  have hp := hi.producer.produced_count hlag
  have hq := hi.writer.consumed_count fun i => WritePc.countLag_eq_zero (.inr (hrest.writes i).2)
  have hfree := hi.tokens.free
  have hfilled := hi.tokens.filled
  rw [increments, hlag, Nat.sub_zero] at hwrap
  have hp' : s.report.produced.toInt = s.shared.produced.length := by
    rw [State.report, hp, toInt_ofNat hwrap]
  have hq' : s.report.consumed.toInt = s.shared.consumed.length := by
    rw [State.report, hq, toInt_ofNat (by omega)]
  have hf : s.report.free_slots = s.shared.free_slots.count := rfl
  have hg : s.report.filled_slots = s.shared.filled_slots.count := rfl
  exact ⟨by omega, by omega, by omega⟩

/-- As long as the counters have not wrapped, every report puts what is in the pool between the two
semaphores, and where no thread is between its `down` and its `up` the numbers agree. -/
theorem reports_consistent (hs : (system c).Reachable s) (hwrap : increments s.shared s.producer < 2 ^ 31) :
    (∀ i r, (s.reads i).report = some r → r.Consistent c.poolSize) ∧ (AtRest s → s.report.Exact c.poolSize) := by
  obtain ⟨hi, hr⟩ := reported_of_reachable hs
  refine ⟨fun i r hrep => ?_, fun hrest => hi.exact hrest hwrap⟩
  cases hin : (s.reads i).critical with
  | false =>
    obtain ⟨n, k, htaken, hle⟩ := hr.taken i r hin hrep
    exact htaken.consistent (by omega)
  | true =>
    have hlen := hi.increments_eq hin
    cases hpc : s.reads i with
    | unlock r' =>
      rw [hpc] at hrep
      obtain rfl : r' = r := Option.some.inj hrep
      exact (hi.taken (hr.reading i) hpc).consistent (by omega)
    | _ => simp [hpc, ReadPc.report, ReadPc.critical] at hrep hin

def onlyRead : Fin demo.reads := ⟨0, Nat.one_pos⟩

/-- The producer gives the permit of a stored value while a call reads. -/
def tornRead : State demo :=
  ((system demo).run (initial demo) (List.replicate 11 .producer ++
    [.read onlyRead (.call 0), .read onlyRead .step, .read onlyRead .filled, .producer, .read onlyRead .produced,
      .read onlyRead .free, .read onlyRead .consumed, .read onlyRead .step, .read onlyRead .step,
      .read onlyRead .step])).get rfl

/-- The report says one value, three free slots and no filled one. -/
theorem tornRead_consistent :
    (tornRead.reads onlyRead).report = some ⟨1, 0, 3, 0⟩ ∧ Report.Consistent 4 ⟨1, 0, 3, 0⟩ ∧
      tornRead.report.Exact 4 := by
  have hreach : (system demo).Reachable tornRead := .of_run rfl (fun _ _ _ => trivial) (Option.some_get _).symm
  have hreport : (tornRead.reads onlyRead).report = some ⟨1, 0, 3, 0⟩ := rfl
  obtain ⟨hconsistent, hexact⟩ := reports_consistent hreach (by decide)
  exact ⟨hreport, hconsistent _ _ hreport, hexact ⟨⟨rfl, rfl⟩, by decide⟩⟩

end Armv8Driver.SemDemo
