import Armv8Driver.SemDemo.Model

/-!
# The pool as a bounded queue

Slots are claimed by permits outside the mutex, indices move inside it. `Tokens` counts every permit,
those of the semaphores and those in the hands of a thread, against the values stored and loaded so
far. A value stored and not yet incremented past, or loaded and not yet counted, is a lag of one thread;
with the lags added the indices and counters are those of the two sequences.
-/

namespace Armv8Driver.SemDemo

open Kernel Transition

variable {c : Config} {s t : State c} {m m' : Shared c} {p p' : Producer c} {intr stop : Bool}

/-! ### What a thread holds at a program counter -/

/-- A free permit taken, for a slot not yet stored to. -/
def ProducerPc.taken : ProducerPc c → Nat
  | .lock | .loadSlot | .storeSlot _ => 1
  | _ => 0

/-- A slot stored to, whose permit is not yet given. -/
def ProducerPc.stored : ProducerPc c → Nat
  | .loadIdx | .storeIdx _ | .loadCount | .storeCount _ | .nextValue | .unlock | .upFilled => 1
  | _ => 0

/-- How far `prod_idx`, `produced_count` and `value` are behind the stores. -/
def ProducerPc.idxLag : ProducerPc c → Nat
  | .loadIdx | .storeIdx _ => 1
  | _ => 0

def ProducerPc.countLag : ProducerPc c → Nat
  | .loadIdx | .storeIdx _ | .loadCount | .storeCount _ => 1
  | _ => 0

def ProducerPc.valueLag : ProducerPc c → Nat
  | .loadIdx | .storeIdx _ | .loadCount | .storeCount _ | .nextValue => 1
  | _ => 0

def WritePc.taken : WritePc c → Nat
  | .lock _ | .loadSlot _ | .loadBuffer .. => 1
  | _ => 0

def WritePc.loaded : WritePc c → Nat
  | .loadIdx _ | .storeIdx .. | .loadCount _ | .storeCount .. | .unlock _ | .upFree _ => 1
  | _ => 0

def WritePc.idxLag : WritePc c → Nat
  | .loadIdx _ | .storeIdx .. => 1
  | _ => 0

def WritePc.countLag : WritePc c → Nat
  | .loadIdx _ | .storeIdx .. | .loadCount _ | .storeCount .. => 1
  | _ => 0

/-- What a thread has loaded is still what the variable holds. -/
def ProducerPc.Fresh (m : Shared c) : ProducerPc c → Prop
  | .storeSlot slot => slot = m.prod_idx
  | .storeIdx idx => idx = Ring.next m.prod_idx
  | .storeCount n => n = m.produced_count + 1
  | _ => True

def WritePc.Fresh (m : Shared c) : WritePc c → Prop
  | .loadBuffer _ slot => slot = m.cons_idx
  | .storeIdx _ idx => idx = Ring.next m.cons_idx
  | .storeCount _ n => n = m.consumed_count + 1
  | _ => True

def State.critical (s : State c) : Thread c → Bool
  | .producer => s.producer.pc.critical
  | .writer i => (s.writes i).critical
  | .reader i => (s.reads i).critical

/-- The first `n` values of a thread that counts up from 0 in an `int`. -/
def values (n : Nat) : List Word := (List.range n).map (BitVec.ofNat 32)

theorem values_prefix {n k : Nat} (h : n ≤ k) : values n <+: values k := by
  obtain ⟨j, rfl⟩ := Nat.exists_eq_add_of_le h
  rw [values, values, List.range_add, List.map_append]
  exact List.prefix_append _ _

theorem values_succ (n : Nat) : values (n + 1) = values n ++ [BitVec.ofNat 32 n] := by
  simp [values, List.range_succ]

/-! ### What a step does -/

/-- What a step of the producer does to the lock, the permits and the buffer. -/
structure ProducerSpec (m : Shared c) (p : Producer c) (m' : Shared c) (p' : Producer c) : Prop where
  lock : Mutex.Moves .producer m.buf_lock m'.buf_lock p.pc.critical p'.pc.critical
  free : m'.free_slots.count + p'.pc.taken + m'.produced.length =
    m.free_slots.count + p.pc.taken + m.produced.length
  filled : m'.filled_slots.count + p'.pc.stored + m.produced.length =
    m.filled_slots.count + p.pc.stored + m'.produced.length
  frame : m'.cons_idx = m.cons_idx ∧ m'.consumed_count = m.consumed_count ∧ m'.consumed = m.consumed
  store : (m'.buffer = m.buffer ∧ m'.produced = m.produced) ∨
    ∃ slot, p.pc = .storeSlot slot ∧ m'.buffer = Function.update m.buffer slot p.value ∧
      m'.produced = m.produced ++ [p.value]

theorem producer_fn_spec (h : producer_fn stop intr m p = some (m', p')) : ProducerSpec m p m' p' := by
  obtain ⟨pc, value⟩ := p
  cases intr with
  | true =>
    cases pc <;> cases h
    exact ⟨.inl ⟨rfl, rfl⟩, rfl, rfl, ⟨rfl, rfl, rfl⟩, .inl ⟨rfl, rfl⟩⟩
  | false =>
    cases pc with
    | returned => cases h
    | shouldStop =>
      cases h
      cases stop <;> exact ⟨.inl ⟨rfl, rfl⟩, rfl, rfl, ⟨rfl, rfl, rfl⟩, .inl ⟨rfl, rfl⟩⟩
    | downFree =>
      obtain ⟨free, hfree, hs⟩ := Option.bind_eq_some_iff.mp h
      cases hs
      have hcount := Semaphore.down_eq_some.mp hfree
      refine ⟨.inl ⟨rfl, rfl⟩, ?_, rfl, ⟨rfl, rfl, rfl⟩, .inl ⟨rfl, rfl⟩⟩
      simp only [ProducerPc.taken]
      omega
    | lock =>
      obtain ⟨l, hl, hs⟩ := Option.bind_eq_some_iff.mp h
      cases hs
      have hown := Mutex.mutex_lock_eq_some.mp hl
      exact ⟨.inr (.inl ⟨hown.1, hown.2, rfl⟩), rfl, rfl, ⟨rfl, rfl, rfl⟩, .inl ⟨rfl, rfl⟩⟩
    | storeSlot slot =>
      cases h
      refine ⟨.inl ⟨rfl, rfl⟩, ?_, ?_, ⟨rfl, rfl, rfl⟩, .inr ⟨slot, rfl, rfl, rfl⟩⟩
      · simp only [ProducerPc.taken, List.length_append, List.length_singleton]
        omega
      · simp only [ProducerPc.stored, List.length_append, List.length_singleton]
        omega
    | unlock =>
      cases h
      exact ⟨.inr (.inr ⟨rfl, rfl, rfl⟩), rfl, rfl, ⟨rfl, rfl, rfl⟩, .inl ⟨rfl, rfl⟩⟩
    | upFilled =>
      cases h
      exact ⟨.inl ⟨rfl, rfl⟩, rfl, rfl, ⟨rfl, rfl, rfl⟩, .inl ⟨rfl, rfl⟩⟩
    | _ =>
      cases h
      exact ⟨.inl ⟨rfl, rfl⟩, rfl, rfl, ⟨rfl, rfl, rfl⟩, .inl ⟨rfl, rfl⟩⟩

/-- The variables that only the producer stores to: with its lag added, each is at the number of stores. -/
structure ProducerData (m : Shared c) (p : Producer c) : Prop where
  fresh : p.pc.Fresh m
  produced : m.produced = values m.produced.length
  idx : Ring.next^[p.pc.idxLag] m.prod_idx = Ring.slot c.poolSize_pos m.produced.length
  count : m.produced_count + BitVec.ofNat 32 p.pc.countLag = BitVec.ofNat 32 m.produced.length
  value : p.value + BitVec.ofNat 32 p.pc.valueLag = BitVec.ofNat 32 m.produced.length

theorem producer_fn_data (hd : ProducerData m p) (h : producer_fn stop intr m p = some (m', p')) :
    ProducerData m' p' := by
  obtain ⟨pc, value⟩ := p
  obtain ⟨hfresh, hproduced, hidx, hcount, hvalue⟩ := hd
  cases intr with
  | true =>
    cases pc <;> cases h
    exact ⟨trivial, hproduced, hidx, hcount, hvalue⟩
  | false =>
    cases pc with
    | returned => cases h
    | shouldStop =>
      cases h
      cases stop <;> exact ⟨trivial, hproduced, hidx, hcount, hvalue⟩
    | downFree =>
      obtain ⟨free, -, hs⟩ := Option.bind_eq_some_iff.mp h
      cases hs
      exact ⟨trivial, hproduced, hidx, hcount, hvalue⟩
    | lock =>
      obtain ⟨l, -, hs⟩ := Option.bind_eq_some_iff.mp h
      cases hs
      exact ⟨trivial, hproduced, hidx, hcount, hvalue⟩
    | storeSlot slot =>
      cases h
      have hlen : (m.produced ++ [value]).length = m.produced.length + 1 := by simp
      have hval : value = BitVec.ofNat 32 m.produced.length := by simpa [ProducerPc.valueLag] using hvalue
      refine ⟨trivial, ?_, ?_, ?_, ?_⟩
      · rw [hlen, values_succ, ← hproduced, hval]
      · show Ring.next m.prod_idx = _
        rw [hlen, ← Ring.next_slot, ← hidx]
        rfl
      · show m.produced_count + 1#32 = _
        rw [hlen, BitVec.ofNat_add, ← hcount]
        simp [ProducerPc.countLag]
      · show value + 1#32 = _
        rw [hlen, BitVec.ofNat_add, ← hval]
    | loadSlot =>
      cases h
      exact ⟨rfl, hproduced, hidx, hcount, hvalue⟩
    | loadIdx =>
      cases h
      exact ⟨rfl, hproduced, hidx, hcount, hvalue⟩
    | storeIdx idx =>
      cases h
      cases hfresh
      exact ⟨trivial, hproduced, hidx, hcount, hvalue⟩
    | loadCount =>
      cases h
      exact ⟨rfl, hproduced, hidx, hcount, hvalue⟩
    | storeCount n =>
      cases h
      cases hfresh
      exact ⟨trivial, hproduced, hidx, by simpa [ProducerPc.countLag] using hcount, hvalue⟩
    | nextValue =>
      cases h
      exact ⟨trivial, hproduced, hidx, hcount, by simpa [ProducerPc.valueLag] using hvalue⟩
    | _ =>
      cases h
      exact ⟨trivial, hproduced, hidx, hcount, hvalue⟩

/-- What a step of a writer does to the lock, the permits and the consumer's variables. -/
structure WriteSpec (i : Fin c.writes) (m : Shared c) (pc : WritePc c) (m' : Shared c) (pc' : WritePc c) : Prop where
  lock : Mutex.Moves (.writer i) m.buf_lock m'.buf_lock pc.critical pc'.critical
  free : m'.free_slots.count + pc'.loaded + m.consumed.length = m.free_slots.count + pc.loaded + m'.consumed.length
  filled : m'.filled_slots.count + pc'.taken + m'.consumed.length =
    m.filled_slots.count + pc.taken + m.consumed.length
  frame : m'.buffer = m.buffer ∧ m'.prod_idx = m.prod_idx ∧ m'.produced_count = m.produced_count ∧ m'.produced = m.produced
  outside : pc.critical = false → m'.cons_idx = m.cons_idx ∧ m'.consumed_count = m.consumed_count
  load : m'.consumed = m.consumed ∨ ∃ count slot, pc = .loadBuffer count slot ∧ m'.consumed = m.consumed ++ [m.buffer slot]
  fresh : pc.Fresh m → pc'.Fresh m'
  idx : pc.Fresh m → ∃ k, m'.consumed.length = m.consumed.length + k ∧
    Ring.next^[pc'.idxLag] m'.cons_idx = Ring.next^[pc.idxLag + k] m.cons_idx ∧
    m'.consumed_count + BitVec.ofNat 32 pc'.countLag = m.consumed_count + BitVec.ofNat 32 (pc.countLag + k)

theorem demo_proc_write_spec {entry : Bool} {i : Fin c.writes} {pc pc' : WritePc c} {a : WriteStep}
    (h : demo_proc_write entry i m pc a = some (m', pc')) : WriteSpec i m pc m' pc' := by
  have hstay : ∀ m : Shared c, m.buffer = m.buffer ∧ m.prod_idx = m.prod_idx ∧
      m.produced_count = m.produced_count ∧ m.produced = m.produced := fun _ => ⟨rfl, rfl, rfl, rfl⟩
  cases pc with
  | notCalled =>
    cases a with
    | call count =>
      cases entry <;> cases h
      exact ⟨.inl ⟨rfl, rfl⟩, rfl, rfl, hstay m, fun _ => ⟨rfl, rfl⟩, .inl rfl, fun _ => trivial, fun _ => ⟨0, rfl, rfl, rfl⟩⟩
    | _ => cases h
  | downFilled count =>
    cases a with
    | call => cases h
    | interrupted =>
      cases h
      exact ⟨.inl ⟨rfl, rfl⟩, rfl, rfl, hstay m, fun _ => ⟨rfl, rfl⟩, .inl rfl, fun _ => trivial, fun _ => ⟨0, rfl, rfl, rfl⟩⟩
    | step =>
      obtain ⟨filled, hfilled, hs⟩ := Option.bind_eq_some_iff.mp h
      cases hs
      have hcount := Semaphore.down_eq_some.mp hfilled
      refine ⟨.inl ⟨rfl, rfl⟩, rfl, ?_, hstay m, fun _ => ⟨rfl, rfl⟩, .inl rfl, fun _ => trivial, fun _ => ⟨0, rfl, rfl, rfl⟩⟩
      simp only [WritePc.taken]
      omega
  | lock count =>
    cases a with
    | step =>
      obtain ⟨l, hl, hs⟩ := Option.bind_eq_some_iff.mp h
      cases hs
      have hown := Mutex.mutex_lock_eq_some.mp hl
      exact ⟨.inr (.inl ⟨hown.1, hown.2, rfl⟩), rfl, rfl, hstay m, fun _ => ⟨rfl, rfl⟩, .inl rfl, fun _ => trivial,
        fun _ => ⟨0, rfl, rfl, rfl⟩⟩
    | _ => cases h
  | loadBuffer count slot =>
    cases a with
    | step =>
      cases h
      have hlen : (m.consumed ++ [m.buffer slot]).length = m.consumed.length + 1 := by simp
      refine ⟨.inl ⟨rfl, rfl⟩, ?_, ?_, hstay m, nofun, .inr ⟨count, slot, rfl, rfl⟩, fun _ => trivial,
        fun _ => ⟨1, hlen, rfl, rfl⟩⟩
      · simp only [WritePc.loaded, hlen]
        omega
      · simp only [WritePc.taken, hlen]
        omega
    | _ => cases h
  | storeIdx count idx =>
    cases a with
    | step =>
      cases h
      refine ⟨.inl ⟨rfl, rfl⟩, rfl, rfl, hstay m, nofun, .inl rfl, fun _ => trivial, ?_⟩
      intro hfresh
      cases hfresh
      exact ⟨0, rfl, rfl, rfl⟩
    | _ => cases h
  | storeCount count n =>
    cases a with
    | step =>
      cases h
      refine ⟨.inl ⟨rfl, rfl⟩, rfl, rfl, hstay m, nofun, .inl rfl, fun _ => trivial, ?_⟩
      intro hfresh
      cases hfresh
      exact ⟨0, rfl, rfl, by simp [WritePc.countLag]⟩
    | _ => cases h
  | unlock count =>
    cases a with
    | step =>
      cases h
      exact ⟨.inr (.inr ⟨rfl, rfl, rfl⟩), rfl, rfl, hstay m, nofun, .inl rfl, fun _ => trivial, fun _ => ⟨0, rfl, rfl, rfl⟩⟩
    | _ => cases h
  | upFree count =>
    cases a with
    | step =>
      cases h
      refine ⟨.inl ⟨rfl, rfl⟩, rfl, rfl, hstay m, fun _ => ⟨rfl, rfl⟩, .inl rfl, fun _ => trivial, fun _ => ⟨0, rfl, rfl, rfl⟩⟩
    | _ => cases h
  | returned ret => cases a <;> cases h
  | _ =>
    cases a with
    | step =>
      cases h
      exact ⟨.inl ⟨rfl, rfl⟩, rfl, rfl, hstay m, nofun, .inl rfl, fun _ => rfl, fun _ => ⟨0, rfl, rfl, rfl⟩⟩
    | _ => cases h

theorem demo_proc_read_lock {entry : Bool} {i : Fin c.reads} {pc pc' : ReadPc} {a : ReadStep} {l : Mutex (Thread c)}
    (h : demo_proc_read entry i m pc a = some (l, pc')) :
    Mutex.Moves (.reader i) m.buf_lock l pc.critical pc'.critical := by
  cases demo_proc_read_move h with
  | lock hl =>
    have hown := Mutex.mutex_lock_eq_some.mp hl
    exact .inr (.inl ⟨hown.1, hown.2, rfl⟩)
  | unlock => exact .inr (.inr ⟨rfl, rfl, rfl⟩)
  | _ => exact .inl ⟨rfl, rfl⟩

/-! ### The invariant -/

/-- Every permit is in a semaphore or in the hands of a thread. -/
structure Tokens (s : State c) : Prop where
  free : s.shared.free_slots.count + s.producer.pc.taken + s.shared.produced.length + Threads.total WritePc.loaded s.writes =
    c.poolSize + s.shared.consumed.length
  filled : s.shared.filled_slots.count + s.producer.pc.stored + s.shared.consumed.length + Threads.total WritePc.taken s.writes =
    s.shared.produced.length

/-- The variables that only writers store to: with the lags added, each is at the number of loads. -/
structure WriteData (m : Shared c) (w : Fin c.writes → WritePc c) : Prop where
  fresh : ∀ i, (w i).Fresh m
  consumed : m.consumed = values m.consumed.length
  idx : Ring.next^[Threads.total WritePc.idxLag w] m.cons_idx = Ring.slot c.poolSize_pos m.consumed.length
  count : m.consumed_count + BitVec.ofNat 32 (Threads.total WritePc.countLag w) = BitVec.ofNat 32 m.consumed.length

structure Inv (s : State c) : Prop where
  lock : s.shared.buf_lock.Held s.critical
  tokens : Tokens s
  producer : ProducerData s.shared s.producer
  writer : WriteData s.shared s.writes
  ring : Ring.Holds c.poolSize_pos (BitVec.ofNat 32) s.shared.buffer s.shared.consumed.length s.shared.produced.length

theorem Inv.initial : Inv (initial c) where
  lock th := by cases th <;> simp [SemDemo.initial, State.critical, ProducerPc.critical, WritePc.critical, ReadPc.critical]
  tokens := by
    have hloaded : Threads.total WritePc.loaded (SemDemo.initial c).writes = 0 := Threads.total_eq_zero.mpr fun _ => rfl
    have htaken : Threads.total WritePc.taken (SemDemo.initial c).writes = 0 := Threads.total_eq_zero.mpr fun _ => rfl
    exact ⟨by rw [hloaded]; rfl, by rw [htaken]; rfl⟩
  producer := ⟨trivial, rfl, Fin.ext (Nat.zero_mod _).symm, rfl, rfl⟩
  writer := by
    have hidx : Threads.total WritePc.idxLag (SemDemo.initial c).writes = 0 := Threads.total_eq_zero.mpr fun _ => rfl
    have hcount : Threads.total WritePc.countLag (SemDemo.initial c).writes = 0 := Threads.total_eq_zero.mpr fun _ => rfl
    exact ⟨fun _ => trivial, rfl, by rw [hidx]; exact Fin.ext (Nat.zero_mod _).symm, by rw [hcount]; rfl⟩
  ring := .empty _

theorem WritePc.Fresh.congr {pc : WritePc c} (h : pc.Fresh m) (hidx : m'.cons_idx = m.cons_idx)
    (hcount : m'.consumed_count = m.consumed_count) : pc.Fresh m' := by
  cases pc <;> first | exact trivial | simpa only [WritePc.Fresh, hidx, hcount] using h

theorem WritePc.fresh_of_not_critical {pc : WritePc c} (h : pc.critical = false) : pc.Fresh m := by
  cases pc <;> first | exact trivial | cases h

theorem Inv.stepProducer (hi : Inv s) (h : s.stepProducer intr = some t) : Inv t := by
  obtain ⟨⟨m', p'⟩, hstep, hs⟩ := Option.bind_eq_some_iff.mp h
  cases hs
  have hspec := producer_fn_spec hstep
  obtain ⟨hidx, hcount, hconsumed⟩ := hspec.frame
  refine ⟨?_, ⟨?_, ?_⟩, producer_fn_data hi.producer hstep, ?_, ?_⟩
  · apply hi.lock.step (t := .producer) ?_ hspec.lock
    intro u hu
    cases u with
    | producer => exact absurd rfl hu
    | _ => rfl
  · have hfree := hi.tokens.free
    have hmove := hspec.free
    simp only [hconsumed]
    omega
  · have hfilled := hi.tokens.filled
    have hmove := hspec.filled
    simp only [hconsumed]
    omega
  · exact ⟨fun i => (hi.writer.fresh i).congr hidx hcount, by rw [hconsumed]; exact hi.writer.consumed,
      by rw [hconsumed, hidx]; exact hi.writer.idx, by rw [hconsumed, hcount]; exact hi.writer.count⟩
  · rcases hspec.store with ⟨hbuffer, hproduced⟩ | ⟨slot, hpc, hbuffer, hproduced⟩
    · simp only [hbuffer, hproduced, hconsumed]
      exact hi.ring
    · have hroom : s.shared.produced.length < s.shared.consumed.length + c.poolSize := by
        have hfree := hi.tokens.free
        simp only [hpc, ProducerPc.taken] at hfree
        omega
      have hslot : slot = Ring.slot c.poolSize_pos s.shared.produced.length := by
        have hfresh := hi.producer.fresh
        have hidx' := hi.producer.idx
        rw [hpc] at hfresh hidx'
        exact hfresh.trans hidx'
      have hvalue : s.producer.value = BitVec.ofNat 32 s.shared.produced.length := by
        have hvalue' := hi.producer.value
        simpa [hpc, ProducerPc.valueLag] using hvalue'
      simp only [hbuffer, hproduced, hconsumed, hslot, hvalue, List.length_append, List.length_singleton]
      exact hi.ring.put hroom

/-- A writer inside its critical section has the others outside of theirs. -/
theorem Inv.writer_alone {i j : Fin c.writes} (hi : Inv s) (hin : (s.writes i).critical = true) (hj : j ≠ i) :
    (s.writes j).critical = false := by
  by_contra hother
  have hin' : s.critical (.writer i) = true := hin
  have hother' : s.critical (.writer j) = true := by simpa [State.critical] using hother
  have hsame := hi.lock.unique hother' hin'
  exact hj (by simpa using hsame)

/-- A writer that is about to load finds the oldest value that is not yet consumed. -/
theorem Inv.load_value {i : Fin c.writes} {count : Nat} {slot : Fin c.poolSize} (hi : Inv s)
    (hpc : s.writes i = .loadBuffer count slot) :
    s.shared.buffer slot = BitVec.ofNat 32 s.shared.consumed.length := by
  have hin : (s.writes i).critical = true := by rw [hpc]; rfl
  have hlag : Threads.total WritePc.idxLag s.writes = 0 := by
    apply Threads.total_eq_zero.mpr
    intro j
    by_cases hj : j = i
    · rw [hj, hpc]
      rfl
    · have hout := hi.writer_alone hin hj
      cases hpc' : s.writes j <;> first | rfl | simp [hpc', WritePc.critical] at hout
  have hslot : slot = Ring.slot c.poolSize_pos s.shared.consumed.length := by
    have hfresh := hi.writer.fresh i
    have hidx := hi.writer.idx
    rw [hpc] at hfresh
    rw [hlag] at hidx
    exact hfresh.trans hidx
  have hlt : s.shared.consumed.length < s.shared.produced.length := by
    have hfilled := hi.tokens.filled
    have htaken := Threads.le_total WritePc.taken s.writes i
    simp only [hpc, WritePc.taken] at htaken
    omega
  rw [hslot]
  exact hi.ring.head hlt

theorem Inv.write_data {i : Fin c.writes} {pc' : WritePc c} (hi : Inv s) (hspec : WriteSpec i s.shared (s.writes i) m' pc') :
    WriteData m' (Function.update s.writes i pc') := by
  obtain ⟨k, hlen, hidx, hcount⟩ := hspec.idx (hi.writer.fresh i)
  have hidxLag := Threads.total_update WritePc.idxLag s.writes i pc'
  have hcountLag := Threads.total_update WritePc.countLag s.writes i pc'
  have hidxOwn := Threads.le_total WritePc.idxLag s.writes i
  have hcountOwn := Threads.le_total WritePc.countLag s.writes i
  refine ⟨?_, ?_, ?_, ?_⟩
  · intro j
    by_cases hj : j = i
    · rw [hj, Function.update_self]
      exact hspec.fresh (hi.writer.fresh i)
    · rw [Function.update_of_ne hj]
      cases hin : (s.writes i).critical with
      | true => exact WritePc.fresh_of_not_critical (hi.writer_alone hin hj)
      | false => exact (hi.writer.fresh j).congr (hspec.outside hin).1 (hspec.outside hin).2
  · rcases hspec.load with hsame | ⟨count, slot, hpc, hload⟩
    · rw [hsame]
      exact hi.writer.consumed
    · rw [hload, hi.load_value hpc, List.length_append, List.length_singleton, values_succ, ← hi.writer.consumed]
  · -- the lags of the others stay in front of the step's own move
    obtain ⟨n, hn⟩ := Nat.exists_eq_add_of_le hidxOwn
    have hn' : Threads.total WritePc.idxLag (Function.update s.writes i pc') = n + pc'.idxLag := by omega
    have hn'' : n + ((s.writes i).idxLag + k) = k + Threads.total WritePc.idxLag s.writes := by omega
    rw [hn', Function.iterate_add_apply, hidx, ← Function.iterate_add_apply, hn'', Function.iterate_add_apply,
      hi.writer.idx, Ring.iterate_next_slot, hlen]
  · obtain ⟨n, hn⟩ := Nat.exists_eq_add_of_le hcountOwn
    have hn' : Threads.total WritePc.countLag (Function.update s.writes i pc') = pc'.countLag + n := by omega
    calc m'.consumed_count + BitVec.ofNat 32 (Threads.total WritePc.countLag (Function.update s.writes i pc'))
        = m'.consumed_count + BitVec.ofNat 32 pc'.countLag + BitVec.ofNat 32 n := by
          rw [hn', BitVec.ofNat_add, BitVec.add_assoc]
      _ = s.shared.consumed_count + BitVec.ofNat 32 ((s.writes i).countLag + k) + BitVec.ofNat 32 n := by rw [hcount]
      _ = s.shared.consumed_count + BitVec.ofNat 32 (Threads.total WritePc.countLag s.writes) + BitVec.ofNat 32 k := by
          rw [hn]
          simp only [BitVec.ofNat_add]
          ac_rfl
      _ = BitVec.ofNat 32 m'.consumed.length := by rw [hi.writer.count, ← BitVec.ofNat_add, hlen]

theorem Inv.stepWrite {i : Fin c.writes} {a : WriteStep} (hi : Inv s) (h : s.stepWrite i a = some t) : Inv t := by
  obtain ⟨⟨m', pc'⟩, hstep, hs⟩ := Option.bind_eq_some_iff.mp h
  cases hs
  have hspec := demo_proc_write_spec hstep
  obtain ⟨hbuffer, hidx, hcount, hproduced⟩ := hspec.frame
  refine ⟨?_, ⟨?_, ?_⟩, ?_, hi.write_data hspec, ?_⟩
  · apply hi.lock.step (t := .writer i)
    · intro u hu
      cases u with
      | writer j =>
        have hj : j ≠ i := fun heq => hu (by rw [heq])
        simp only [State.critical, Function.update_of_ne hj]
      | _ => rfl
    · simp only [State.critical, Function.update_self]
      exact hspec.lock
  · have hfree := hi.tokens.free
    have hmove := hspec.free
    have htotal := Threads.total_update WritePc.loaded s.writes i pc'
    simp only [hproduced]
    omega
  · have hfilled := hi.tokens.filled
    have hmove := hspec.filled
    have htotal := Threads.total_update WritePc.taken s.writes i pc'
    simp only [hproduced]
    omega
  · obtain ⟨hfresh, hvalues, hslot, hnum, hvalue⟩ := hi.producer
    refine ⟨?_, by rw [hproduced]; exact hvalues, by rw [hproduced, hidx]; exact hslot,
      by rw [hproduced, hcount]; exact hnum, by rw [hproduced]; exact hvalue⟩
    cases hpc : s.producer.pc <;> simp only [hpc, ProducerPc.Fresh, hidx, hcount] at hfresh ⊢ <;> exact hfresh
  · simp only [hbuffer, hproduced]
    rcases hspec.load with hsame | ⟨count, slot, hpc, hload⟩
    · rw [hsame]
      exact hi.ring
    · rw [hload, List.length_append, List.length_singleton]
      exact hi.ring.take

theorem Inv.stepRead {i : Fin c.reads} {a : ReadStep} (hi : Inv s) (h : s.stepRead i a = some t) : Inv t := by
  obtain ⟨⟨l, pc'⟩, hstep, hs⟩ := Option.bind_eq_some_iff.mp h
  cases hs
  refine ⟨?_, ⟨hi.tokens.free, hi.tokens.filled⟩, ?_, ?_, hi.ring⟩
  · apply hi.lock.step (t := .reader i)
    · intro u hu
      cases u with
      | reader j =>
        have hj : j ≠ i := fun heq => hu (by rw [heq])
        simp only [State.critical, Function.update_of_ne hj]
      | _ => rfl
    · simp only [State.critical, Function.update_self]
      exact demo_proc_read_lock hstep
  · obtain ⟨hfresh, hvalues, hslot, hnum, hvalue⟩ := hi.producer
    exact ⟨by cases hpc : s.producer.pc <;> rw [hpc] at hfresh <;> exact hfresh, hvalues, hslot, hnum, hvalue⟩
  · exact ⟨fun j => (hi.writer.fresh j).congr rfl rfl, hi.writer.consumed, hi.writer.idx, hi.writer.count⟩

theorem Inv.step {a : Action c} (hi : Inv s) (h : step s a = some t) : Inv t := by
  cases a with
  | producer => exact hi.stepProducer h
  | producerInterrupted => exact hi.stepProducer h
  | write i a => exact hi.stepWrite h
  | read i a => exact hi.stepRead h
  | exit =>
    rw [sem_demo_exit_frame h]
    exact ⟨fun th => by cases th <;> exact hi.lock _, ⟨hi.tokens.free, hi.tokens.filled⟩, hi.producer, hi.writer, hi.ring⟩

theorem Inv.of_reachable (hs : (system c).Reachable s) : Inv s :=
  hs.invariant (fun _ h => h ▸ Inv.initial) fun _ _ _ hi h => hi.step h

/-! ### The queue -/

/-- The values consumed are the first values produced, in order; the others are still in the pool. -/
structure Fifo (s : State c) : Prop where
  consumed : s.shared.consumed = values s.shared.consumed.length
  produced : s.shared.produced = values s.shared.produced.length
  order : s.shared.consumed <+: s.shared.produced
  pending : ∀ k, s.shared.consumed.length ≤ k → k < s.shared.produced.length →
    s.shared.buffer (Ring.slot c.poolSize_pos k) = BitVec.ofNat 32 k
  bound : s.shared.produced.length ≤ s.shared.consumed.length + c.poolSize
  counters : ∃ n, n ≤ c.poolSize ∧ s.shared.produced_count = s.shared.consumed_count + BitVec.ofNat 32 n

/-- A thread that has not counted its value yet is also one that has not given its permit. -/
theorem Inv.counters (hi : Inv s) :
    ∃ n, n ≤ c.poolSize ∧ s.shared.produced_count = s.shared.consumed_count + BitVec.ofNat 32 n := by
  have hfree := hi.tokens.free
  have hfilled := hi.tokens.filled
  have hproduced := hi.producer.count
  have hconsumed := hi.writer.count
  have hstored : s.producer.pc.countLag ≤ s.producer.pc.stored := by
    cases s.producer.pc <;> simp [ProducerPc.countLag, ProducerPc.stored]
  have hloaded : Threads.total WritePc.countLag s.writes ≤ Threads.total WritePc.loaded s.writes := by
    apply Threads.total_mono
    intro pc
    cases pc <;> simp [WritePc.countLag, WritePc.loaded]
  generalize Threads.total WritePc.countLag s.writes = lag at *
  generalize s.producer.pc.countLag = lag' at *
  obtain ⟨n, hn⟩ : ∃ n, n + (s.shared.consumed.length + lag') = s.shared.produced.length + lag :=
    ⟨s.shared.produced.length + lag - (s.shared.consumed.length + lag'), by omega⟩
  refine ⟨n, by omega, ?_⟩
  have hwords := congrArg (BitVec.ofNat 32) hn
  simp only [BitVec.ofNat_add, ← hproduced, ← hconsumed] at hwords
  grind

theorem Inv.fifo (hi : Inv s) : Fifo s := by
  have hfree := hi.tokens.free
  have hfilled := hi.tokens.filled
  have hle : s.shared.consumed.length ≤ s.shared.produced.length := by omega
  refine ⟨hi.writer.consumed, hi.producer.produced, ?_, hi.ring, by omega, hi.counters⟩
  rw [hi.writer.consumed, hi.producer.produced]
  exact values_prefix hle

/-! ### Interrupted calls -/

/-- The call has received a permit: it is past the wait, or has returned something else than an error. -/
def WritePc.served : WritePc c → Prop
  | .notCalled | .downFilled _ => False
  | .returned ret => 0 ≤ ret
  | _ => True

/-- Whatever a call does to the shared variables, it does after its wait. -/
theorem demo_proc_write_served {entry : Bool} {i : Fin c.writes} {pc pc' : WritePc c} {a : WriteStep}
    (h : demo_proc_write entry i m pc a = some (m', pc')) : (m' = m ∨ pc'.served) ∧ (pc.served → pc'.served) := by
  cases pc with
  | notCalled =>
    cases a <;> cases entry <;> cases h
    exact ⟨.inl rfl, nofun⟩
  | downFilled count =>
    cases a with
    | call => cases h
    | interrupted =>
      cases h
      exact ⟨.inl rfl, nofun⟩
    | step =>
      obtain ⟨filled, -, hs⟩ := Option.bind_eq_some_iff.mp h
      cases hs
      exact ⟨.inr trivial, fun _ => trivial⟩
  | lock count =>
    cases a with
    | step =>
      obtain ⟨l, -, hs⟩ := Option.bind_eq_some_iff.mp h
      cases hs
      exact ⟨.inr trivial, fun _ => trivial⟩
    | _ => cases h
  | upFree count =>
    cases a <;> cases h
    exact ⟨.inr (Int.natCast_nonneg count), fun _ => Int.natCast_nonneg count⟩
  | returned ret => cases a <;> cases h
  | _ =>
    cases a <;> cases h
    exact ⟨.inr trivial, fun _ => trivial⟩

theorem step_served {a : Action c} {i : Fin c.writes} (hserved : (s.writes i).served) (h : step s a = some t) :
    (t.writes i).served := by
  cases a with
  | producer =>
    obtain ⟨_, -, hs⟩ := Option.bind_eq_some_iff.mp h
    cases hs
    exact hserved
  | producerInterrupted =>
    obtain ⟨_, -, hs⟩ := Option.bind_eq_some_iff.mp h
    cases hs
    exact hserved
  | write j b =>
    obtain ⟨⟨m', pc'⟩, hstep, hs⟩ := Option.bind_eq_some_iff.mp h
    cases hs
    by_cases hj : i = j
    · subst hj
      simp only [Function.update_self]
      exact (demo_proc_write_served hstep).2 hserved
    · simp only [Function.update_of_ne hj]
      exact hserved
  | read j b =>
    obtain ⟨_, -, hs⟩ := Option.bind_eq_some_iff.mp h
    cases hs
    exact hserved
  | exit =>
    rw [sem_demo_exit_frame h]
    exact hserved

/-- A call that has changed a shared variable will not return `-ERESTARTSYS`. -/
theorem changed_not_interrupted {i : Fin c.writes} {a : WriteStep} {u : State c} (h : step s (.write i a) = some t)
    (hchange : t.shared ≠ s.shared) (hrun : (system c).Steps System.Any t u) :
    u.writes i ≠ .returned (-ERESTARTSYS) := by
  obtain ⟨⟨m', pc'⟩, hstep, hs⟩ := Option.bind_eq_some_iff.mp h
  cases hs
  have hserved : ((Function.update s.writes i pc') i).served := by
    rw [Function.update_self]
    exact (demo_proc_write_served hstep).1.resolve_left hchange
  have hlater : (u.writes i).served := hrun.invariant (I := fun s => (s.writes i).served) hserved fun _ _ _ hi _ h => step_served hi h
  intro hret
  rw [hret] at hlater
  have hnonneg : 0 ≤ -ERESTARTSYS := hlater
  exact absurd hnonneg (by decide)

/-- `sem_demo` is a bounded queue, and a call that returns `-ERESTARTSYS` leaves no trace. -/
theorem fifo_of_reachable (hs : (system c).Reachable s) :
    Fifo s ∧ ∀ i a t, step s (.write i a) = some t → t.shared ≠ s.shared →
      ∀ u, (system c).Steps System.Any t u → u.writes i ≠ .returned (-ERESTARTSYS) :=
  ⟨(Inv.of_reachable hs).fifo, fun _ _ _ h hchange _ hrun => changed_not_interrupted h hchange hrun⟩

/-- The module as it is built, with one call of each handler. -/
def demo : Config := ⟨4, by decide, 1, 1⟩

/-- The producer stores one value and a write takes it. -/
def oneItem : List (Action demo) :=
  let i : Fin demo.writes := ⟨0, by decide⟩
  List.replicate 12 .producer ++ .write i (.call 2) :: List.replicate 10 (.write i .step)

theorem oneItem_fifo :
    ∃ s, (system demo).run (initial demo) oneItem = some s ∧ s.shared.consumed = [0] ∧ Fifo s := by
  refine ⟨((system demo).run (initial demo) oneItem).get rfl, rfl, rfl, ?_⟩
  exact (fifo_of_reachable (System.ReachableUnder.of_run rfl (fun _ _ _ => trivial) (Option.some_get _).symm)).1

end Armv8Driver.SemDemo
