import Armv8Driver.IrqDemo.History

/-!
# The wake-ups of `irq_demo`

Readers take tokens, `complete` makes them, and each `complete` has an increment of its own: so a reader
that comes through its wait finds at least as many events counted as readers have come through. The last
event is never lost either: while it is on its way the work item will call `complete`, and afterwards it
has called it.
-/

namespace Armv8Driver.IrqDemo

open Kernel Transition

variable {c : Config} {s t : State c} {m m' : Shared c} {log : List (Event c)}

/-- `irq_demo_exit` is not called and `event_done` is not saturated, so that `complete` adds one token and
a wait takes one. -/
def Counting (s : State c) (a : Action c) : Prop := NoExit s a ∧ s.shared.event_done.done < UINT_MAX

instance (s : State c) (a : Action c) : Decidable (Counting s a) :=
  inferInstanceAs (Decidable (NoExit s a ∧ s.shared.event_done.done < UINT_MAX))

/-- The readers that have come through their wait, in this order. -/
def passes (log : List (Event c)) : List (Fin c.reads) :=
  log.filterMap fun e => match e with
    | .pass i => some i
    | _ => none

/-- No top half is between its increment and its `schedule_work`, and the work item is neither queued nor
running. -/
structure Settled (s : State c) : Prop where
  timer : s.timer.counted = false
  writes : ∀ i, (s.writes i).counted = false
  queued : s.shared.queued = false
  worker : s.worker = none

/-- A `complete` has been called after the last increment. -/
def Answered (log : List (Event c)) : Prop :=
  ∃ before after, log = before ++ .complete :: after ∧ Event.increment ∉ after

theorem Settled.pending (hs : Settled s) : s.pending = 0 := by
  have hwrites : Threads.count WritePc.counted s.writes = 0 := Threads.count_eq_zero.mpr hs.writes
  rw [State.pending, hs.timer, hwrites]
  rfl

/-! ### The last event -/

theorem Answered.append (h : Answered log) {o : Option (Event c)} (ho : o ≠ some .increment) :
    Answered (log ++ o.toList) := by
  obtain ⟨before, after, rfl, hafter⟩ := h
  refine ⟨before, after ++ o.toList, by rw [List.append_assoc, List.cons_append], ?_⟩
  rw [List.mem_append, Option.mem_toList]
  rintro (h | h)
  · exact hafter h
  · exact ho h

/-- The last event is on its way, or it has been answered. -/
def LastKept (s : State c) (log : List (Event c)) : Prop :=
  Event.increment ∈ log → 0 < s.pending ∨ s.shared.queued = true ∨ s.worker.isSome = true ∨ Answered log

theorem WorkStep.lastKept {o : Option (Event c)} (hs : LastKept s log) (h : WorkStep s t o) :
    LastKept t (log ++ o.toList) := by
  intro hmem
  cases h with
  | other he hp hq hw =>
    have hne : o ≠ some .increment := fun heq => Bool.noConfusion (he _ heq)
    have hold : Event.increment ∈ log := by
      rcases List.mem_append.mp hmem with hold | hnew
      · exact hold
      · exact absurd (Option.mem_toList.mp hnew) hne
    rw [hp, hq, hw]
    rcases hs hold with h | h | h | h
    · exact .inl h
    · exact .inr (.inl h)
    · exact .inr (.inr (.inl h))
    · exact .inr (.inr (.inr (h.append hne)))
  | increment hp hq hw => exact .inl (by omega)
  | schedule hp hq hw => exact .inr (.inl hq)
  | start hp hq hq' hw hw' => exact .inr (.inr (.inl hw'))
  | complete hp hq hw hw' => exact .inr (.inr (.inr ⟨log, [], rfl, List.not_mem_nil⟩))

/-! ### The tokens -/

theorem Fallback.tokenStep {a : Action c} (hmode : c.irq_num < 0) (hs : Fallback s) (hok : NoExit s a)
    (h : step s a = some t) : TokenStep s.shared t.shared (event s a) := by
  cases a with
  | module ret =>
    rw [(hs.module hmode hok h).2]
    exact .other nofun nofun rfl
  | timerFires =>
    obtain ⟨-, hs⟩ := Option.ite_none_right_eq_some.mp h
    cases hs
    exact .other nofun nofun rfl
  | timer =>
    obtain ⟨⟨m', armed', pc'⟩, hstep, ht⟩ := Option.bind_eq_some_iff.mp h
    have htoken := fallback_timer_fn_token hstep
    cases ht
    exact htoken
  | irqFires =>
    obtain ⟨-, hs⟩ := Option.ite_none_right_eq_some.mp h
    cases hs
    exact .other nofun nofun rfl
  | isr =>
    obtain ⟨b, hisr, -⟩ := Option.bind_eq_some_iff.mp h
    rw [hs.isr] at hisr
    cases hisr
  | thread =>
    rcases (threaded_isr_spec h).1 with hwoken | hthread
    · rw [hs.woken] at hwoken
      cases hwoken
    · exact absurd hs.thread hthread
  | worker =>
    obtain ⟨⟨m', b'⟩, hstep, ht⟩ := Option.bind_eq_some_iff.mp h
    have htoken := fallback_workqueue_fn_token hstep
    cases ht
    exact htoken
  | read i a =>
    obtain ⟨⟨m', pc'⟩, hstep, ht⟩ := Option.bind_eq_some_iff.mp h
    have htoken := irq_demo_read_token hstep
    cases ht
    exact htoken
  | write i a =>
    obtain ⟨⟨m', pc'⟩, hstep, ht⟩ := Option.bind_eq_some_iff.mp h
    have htoken := irq_demo_trigger_write_token hstep
    cases ht
    exact htoken

/-- A token is with the completion or with the reader that has come through its wait. -/
def TokensKept (s : State c) (log : List (Event c)) : Prop :=
  (passes log).length + s.shared.event_done.done = log.count .complete

theorem passes_append (o : Option (Event c)) : passes (log ++ o.toList) = passes log ++ passes o.toList :=
  List.filterMap_append

theorem passes_eq_nil {o : Option (Event c)} (h : ∀ i, o ≠ some (.pass i)) : passes o.toList = [] := by
  rcases o with - | e
  · rfl
  · cases e <;> first | rfl | exact absurd rfl (h _)

theorem TokenStep.tokensKept {o : Option (Event c)} (hexact : s.shared.event_done.done < UINT_MAX)
    (hs : TokensKept s log) (h : TokenStep s.shared t.shared o) : TokensKept t (log ++ o.toList) := by
  unfold TokensKept at hs ⊢
  rw [passes_append, List.length_append, List.count_append]
  cases h with
  | other hc hp hdone =>
    have hnone : o.toList.count Event.complete = 0 := by
      rw [List.count_eq_zero, Option.mem_toList]
      exact hc
    rw [passes_eq_nil hp, hnone, hdone]
    exact hs
  | complete hdone =>
    have hnone : passes (some (Event.complete (c := c))).toList = [] := rfl
    rw [hdone, Completion.complete_done, Nat.min_eq_left hexact, hnone, Option.toList_some, List.count_singleton_self,
      List.length_nil]
    omega
  | pass i hdone =>
    obtain ⟨hpos, htaken⟩ := Completion.wait_for_completion_eq_some.mp hdone
    rw [if_neg (Nat.ne_of_lt hexact)] at htaken
    have hone : passes (some (Event.pass i)).toList = [i] := rfl
    have hnone : (some (Event.pass i)).toList.count Event.complete = 0 := rfl
    rw [htaken, hone, hnone, List.length_singleton]
    omega

/-! ### What the readers report -/

theorem irq_demo_read_moves {entry fallback : Bool} {i : Fin c.reads} {pc pc' : ReadPc} {a : ReadStep}
    (h : irq_demo_read entry fallback i m pc a = some (m', pc')) :
    (pc.event i m a = none ∧ (pc'.early = true → pc.early = true) ∧ (pc'.late = true → pc.late = true)) ∨
    (pc.event i m a = some (.pass i) ∧ pc.early = true ∧ pc'.early = false) ∨
    (pc.event i m a = some (.load i m.event_count) ∧ pc.late = true ∧ pc'.early = false) := by
  cases irq_demo_read_move h with
  | wait => exact .inr (.inl ⟨rfl, rfl, rfl⟩)
  | load => exact .inr (.inr ⟨rfl, rfl, rfl⟩)
  | call => exact .inl ⟨rfl, fun _ => rfl, nofun⟩
  | lock => exact .inl ⟨rfl, nofun, fun _ => rfl⟩
  | unlock => exact .inl ⟨rfl, nofun, fun _ => rfl⟩
  | _ => exact .inl ⟨rfl, nofun, nofun⟩

theorem TopHalf.event_work {h : TopHalf} {e : Event c} (he : h.event = some e) : e.isWork = true := by
  cases h <;> cases he
  rfl

theorem BottomHalf.event_work {b : Option BottomHalf} {e : Event c} (he : b.bind BottomHalf.event = some e) :
    e.isWork = true := by
  obtain ⟨b, -, he⟩ := Option.bind_eq_some_iff.mp he
  cases b <;> cases he
  rfl

/-- Only the step of a reader has an event of a reader. -/
theorem event_work {a : Action c} (ha : ∀ i b, a ≠ .read i b) {e : Event c} (he : event s a = some e) :
    e.isWork = true := by
  cases a with
  | timer =>
    simp only [event] at he
    cases hpc : s.timer with
    | top h =>
      rw [hpc] at he
      exact TopHalf.event_work he
    | _ =>
      rw [hpc] at he
      cases he
      try rfl
  | isr =>
    obtain ⟨h, -, he⟩ := Option.bind_eq_some_iff.mp he
    exact TopHalf.event_work he
  | thread => exact BottomHalf.event_work he
  | worker => exact BottomHalf.event_work he
  | read i b => exact absurd rfl (ha i b)
  | write i b =>
    simp only [event, WritePc.event] at he
    split at he
    · exact TopHalf.event_work he
    · cases he
      rfl
    · cases he
  | _ => cases he

/-- What the log says about a reader follows where it is, and the `k`-th reader to come through its wait has
read a counter of at least `k`. -/
structure Reported (s : State c) (log : List (Event c)) : Prop where
  early : ∀ i, (s.reads i).early = true → .pass i ∉ log ∧ ∀ n, .load i n ∉ log
  late : ∀ i, (s.reads i).late = true → .pass i ∈ log
  load : ∀ k i n, (passes log)[k]? = some i → .load i n ∈ log → k + 1 ≤ n

theorem mem_append_toList {o : Option (Event c)} {e : Event c} : e ∈ log ++ o.toList ↔ e ∈ log ∨ o = some e := by
  rw [List.mem_append, Option.mem_toList]

theorem Reported.other {o : Option (Event c)} (hr : Reported s log) (hreads : t.reads = s.reads)
    (hwork : ∀ e, o = some e → e.isWork = true) : Reported t (log ++ o.toList) := by
  have hnopass : ∀ i, o ≠ some (.pass i) := fun i ho => Bool.noConfusion (hwork _ ho)
  have hnoload : ∀ i n, o ≠ some (.load i n) := fun i n ho => Bool.noConfusion (hwork _ ho)
  constructor
  · intro i hi
    rw [hreads] at hi
    obtain ⟨hpass, hload⟩ := hr.early i hi
    simp only [mem_append_toList, not_or]
    exact ⟨⟨hpass, hnopass i⟩, fun n => ⟨hload n, hnoload i n⟩⟩
  · intro i hi
    rw [hreads] at hi
    exact mem_append_toList.mpr (.inl (hr.late i hi))
  · intro k i n hk hload
    rw [passes_append, passes_eq_nil hnopass, List.append_nil] at hk
    exact hr.load k i n hk ((mem_append_toList.mp hload).resolve_right (hnoload i n))

section Read

variable {i : Fin c.reads} {pc' : ReadPc} (hr : Reported s log) (hreads : t.reads = Function.update s.reads i pc')

include hr hreads in
theorem Reported.idle (hearly : pc'.early = true → (s.reads i).early = true)
    (hlate : pc'.late = true → (s.reads i).late = true) : Reported t log := by
  constructor
  · intro j hj
    rw [hreads] at hj
    by_cases hji : j = i
    · subst hji
      exact hr.early j (hearly (by rwa [Function.update_self] at hj))
    · exact hr.early j (by rwa [Function.update_of_ne hji] at hj)
  · intro j hj
    rw [hreads] at hj
    by_cases hji : j = i
    · subst hji
      exact hr.late j (hlate (by rwa [Function.update_self] at hj))
    · exact hr.late j (by rwa [Function.update_of_ne hji] at hj)
  · exact hr.load

include hr hreads in
theorem Reported.pass (hbefore : (s.reads i).early = true) (hafter : pc'.early = false) :
    Reported t (log ++ [.pass i]) := by
  obtain ⟨-, hfresh⟩ := hr.early i hbefore
  constructor
  · intro j hj
    rw [hreads] at hj
    have hji : j ≠ i := by
      rintro rfl
      rw [Function.update_self, hafter] at hj
      cases hj
    rw [Function.update_of_ne hji] at hj
    obtain ⟨hpass, hload⟩ := hr.early j hj
    simp [hpass, hload, hji]
  · intro j hj
    rw [hreads] at hj
    by_cases hji : j = i
    · subst hji
      exact List.mem_append_right _ List.mem_cons_self
    · exact List.mem_append_left _ (hr.late j (by rwa [Function.update_of_ne hji] at hj))
  · intro k j n hk hload
    have hold : .load j n ∈ log := by simpa using hload
    have hpasses : passes (log ++ [Event.pass i]) = passes log ++ [i] := passes_append (some _)
    rw [hpasses] at hk
    by_cases hlt : k < (passes log).length
    · rw [List.getElem?_append_left hlt] at hk
      exact hr.load k j n hk hold
    · rw [List.getElem?_append_right (by omega)] at hk
      have hji : i = j := by
        have hmem := List.mem_of_getElem? hk
        exact (List.mem_singleton.mp hmem).symm
      exact absurd hold (hji ▸ hfresh n)

include hr hreads in
theorem Reported.loads (hbefore : (s.reads i).late = true) (hafter : pc'.early = false) {count : Nat}
    (hle : (passes log).length ≤ count) : Reported t (log ++ [.load i count]) := by
  have hpassed := hr.late i hbefore
  constructor
  · intro j hj
    rw [hreads] at hj
    have hji : j ≠ i := by
      rintro rfl
      rw [Function.update_self, hafter] at hj
      cases hj
    rw [Function.update_of_ne hji] at hj
    obtain ⟨hpass, hload⟩ := hr.early j hj
    simp [hpass, hload, hji]
  · intro j hj
    rw [hreads] at hj
    by_cases hji : j = i
    · exact List.mem_append_left _ (hji ▸ hpassed)
    · exact List.mem_append_left _ (hr.late j (by rwa [Function.update_of_ne hji] at hj))
  · intro k j n hk hload
    have hpasses : passes (log ++ [Event.load i count]) = passes log := by
      rw [show [Event.load i count] = (some (Event.load i count)).toList from rfl, passes_append]
      exact List.append_nil _
    rw [hpasses] at hk
    rcases List.mem_append.mp hload with hold | hnew
    · exact hr.load k j n hk hold
    · obtain ⟨-, rfl⟩ := Event.load.inj (List.mem_singleton.mp hnew)
      obtain ⟨hlt, -⟩ := List.getElem?_eq_some_iff.mp hk
      omega

end Read

theorem Reported.step {a : Action c} (hle : (passes log).length ≤ s.shared.event_count) (hr : Reported s log)
    (h : step s a = some t) : Reported t (log ++ (event s a).toList) := by
  by_cases ha : ∀ i b, a ≠ .read i b
  · have hreads : t.reads = s.reads := by
      funext i
      rcases step_reads h i with hsame | ⟨b, -, -, hread, -⟩
      · exact hsame
      · exact absurd hread (ha i b)
    exact hr.other hreads fun _ he => event_work ha he
  · simp only [not_forall, not_not] at ha
    obtain ⟨i, b, rfl⟩ := ha
    obtain ⟨⟨m', pc'⟩, hstep, ht⟩ := Option.bind_eq_some_iff.mp h
    cases ht
    simp only [event]
    rcases irq_demo_read_moves hstep with ⟨he, hearly, hlate⟩ | ⟨he, hbefore, hafter⟩ | ⟨he, hbefore, hafter⟩
    · rw [he, Option.toList_none, List.append_nil]
      exact hr.idle rfl hearly hlate
    · rw [he]
      exact hr.pass rfl hbefore hafter
    · rw [he]
      exact hr.loads rfl hbefore hafter hle

/-! ### Every run -/

theorem lastKept (hmode : c.irq_num < 0) {x : State c × List (Event c)}
    (hx : (history c).ReachableUnder (fun x a => Counting x.1 a) x) : LastKept x.1 x.2 := by
  refine hx.log_invariant ?_ ?_
  · intro s _ hmem
    cases hmem
  · intro s log a t hs hi hok h
    have hfall : Fallback s := fallback_of_reachable hmode (System.ReachableUnder.mono (fun _ _ hok => hok.1) hs.forget)
    exact (hfall.workStep hmode hok.1 h).lastKept hi

theorem tokensKept (hmode : c.irq_num < 0) {x : State c × List (Event c)}
    (hx : (history c).ReachableUnder (fun x a => Counting x.1 a) x) : TokensKept x.1 x.2 := by
  refine hx.log_invariant ?_ ?_
  · rintro s rfl
    rfl
  · intro s log a t hs hi hok h
    have hfall : Fallback s := fallback_of_reachable hmode (System.ReachableUnder.mono (fun _ _ hok => hok.1) hs.forget)
    exact (hfall.tokenStep hmode hok.1 h).tokensKept hok.2 hi

/-- While the counter has not wrapped, no more readers have come through than there are events counted. -/
theorem passes_le_event_count (hmode : c.irq_num < 0) {x : State c × List (Event c)}
    (hx : (history c).ReachableUnder (fun x a => Counting x.1 a) x)
    (hwrap : x.2.count .increment < 2 ^ c.longBits) : (passes x.2).length ≤ x.1.shared.event_count := by
  have htokens : (passes x.2).length + x.1.shared.event_done.done = x.2.count .complete := tokensKept hmode hx
  have hbalance := balance hmode (fun _ _ hok => hok.1) hx
  rw [event_count_eq hx, Nat.mod_eq_of_lt hwrap]
  omega

theorem reported (hmode : c.irq_num < 0) {x : State c × List (Event c)}
    (hx : (history c).ReachableUnder (fun x a => Counting x.1 a) x)
    (hwrap : x.2.count .increment < 2 ^ c.longBits) : Reported x.1 x.2 := by
  refine hx.log_invariant (I := fun s log => log.count .increment < 2 ^ c.longBits → Reported s log) ?_ ?_ hwrap
  · rintro s rfl -
    exact ⟨fun i _ => ⟨List.not_mem_nil, fun n => List.not_mem_nil⟩, nofun, nofun⟩
  · intro s log a t hs hi hok h hwrap
    rw [List.count_append] at hwrap
    have hold : log.count .increment < 2 ^ c.longBits := by omega
    exact (hi hold).step (passes_le_event_count hmode hs hold) h

/-- In the fallback mode, however the timer, the trigger writes, the work item and the readers interleave:
the `k`-th reader to come through its wait reads a counter of at least `k`, and where nothing is on its way
the last event has been answered. -/
theorem wakeups_kept (hmode : c.irq_num < 0) {x : State c × List (Event c)}
    (hx : (history c).ReachableUnder (fun x a => Counting x.1 a) x)
    (hwrap : x.2.count .increment < 2 ^ c.longBits) :
    (∀ k i n, (passes x.2)[k]? = some i → .load i n ∈ x.2 → k + 1 ≤ n) ∧
      (.increment ∈ x.2 → Settled x.1 → Answered x.2) := by
  refine ⟨(reported hmode hx hwrap).load, fun hmem hsettled => ?_⟩
  have hpending := hsettled.pending
  rcases lastKept hmode hx hmem with h | h | h | h
  · omega
  · rw [hsettled.queued] at h
    cases h
  · rw [hsettled.worker] at h
    cases h
  · exact h

/-- One reader and no trigger writes. -/
def oneReader : Config := ⟨-1, 64, 1, 0⟩

/-- The module is loaded, the timer fires once, the work item runs and a reader takes its token. -/
def oneEvent : State oneReader × List (Event oneReader) :=
  (((history oneReader).checked fun x a => decide (Counting x.1 a)).run (initial oneReader, [])
    (List.replicate 5 (.module 0) ++ .timerFires :: List.replicate 6 .timer ++ List.replicate 3 .worker ++
      [.read ⟨0, Nat.one_pos⟩ (.call 0 96), .read ⟨0, Nat.one_pos⟩ .wait, .read ⟨0, Nat.one_pos⟩ .step,
        .read ⟨0, Nat.one_pos⟩ .step])).get rfl

theorem oneEvent_kept :
    (passes oneEvent.2)[0]? = some ⟨0, Nat.one_pos⟩ ∧ .load ⟨0, Nat.one_pos⟩ 1 ∈ oneEvent.2 ∧ 0 + 1 ≤ 1 ∧
      Answered oneEvent.2 := by
  have hreach : (history oneReader).ReachableUnder (fun x a => Counting x.1 a) oneEvent :=
    ⟨(initial oneReader, []), ⟨rfl, rfl⟩, .of_checked (fun _ _ h => of_decide_eq_true h) (Option.some_get _).symm⟩
  have hpass : (passes oneEvent.2)[0]? = some ⟨0, Nat.one_pos⟩ := rfl
  have hload : .load ⟨0, Nat.one_pos⟩ 1 ∈ oneEvent.2 := by decide
  have hsettled : Settled oneEvent.1 := ⟨rfl, fun i => i.elim0, rfl, rfl⟩
  obtain ⟨hcount, hanswered⟩ := wakeups_kept (by decide) hreach (by decide)
  exact ⟨hpass, hload, hcount 0 _ 1 hpass hload, hanswered (by decide) hsettled⟩

end Armv8Driver.IrqDemo
