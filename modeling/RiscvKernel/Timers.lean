import RiscvKernel.Timed
import RiscvKernel.TimedWait

/-!
# Timed waits between two events

`Kernel.Timers`: between two events the current thread runs, and just the
waiting threads with a record in the sleeping list have the mark of a timed wait.

* `sleep_timers`, `semTimedWait_timers`, `dispatch_timers`: the
  current thread gives up the hart;
* `semSignal_timers`: the first waiting thread is woken and its timeout cancelled;
* `tick_timers`: the threads whose alarm is due are woken.
-/

namespace RiscvKernel
open Function Intrusive Placement DeltaList

structure Kernel.Timers (k : Kernel) (b : Threads) (recs : List Nat)
    (live : Multiset (Nat × Nat)) : Prop extends timed : k.Timed b recs live where
  running : ∀ {t}, b.loc t = some (.spot .running) ↔ t = k.scheduler.threadCurrent
  current : k.scheduler.threadCurrent ≠ 0
  kernelMain : k.scheduler.kernelMain ≠ 0
  main : ∀ {p}, b.loc k.scheduler.kernelMain = some p → p = .queue .ready ∨ p = .spot .running
  marks : ∀ {t s}, b.loc t = some (.queue (.sem s)) →
    (k.slice t = 0 ↔ ∃ r ∈ recs, (k.sleeping r).thread = t)
  slices : ∀ {t}, b.loc t = some (.queue .ready) ∨ b.loc t = some (.spot .running) ∨
    t = k.scheduler.kernelMain → k.slice t ≠ 0

/-- A kernel without timed waits. -/
theorem Kernel.Inv.timers {k : Kernel} {b : Threads} {recs : List Nat} (inv : k.Inv b recs) :
    k.Timers b recs k.view.kept := by
  have sleeper : ∀ r ∈ recs, b.loc (k.sleeping r).thread = some (.spot (.asleep r)) :=
    fun r hr => inv.places.sleeper hr
  have slice : ∀ {t}, k.view.Thread t → k.slice t ≠ 0 := fun {t} ht => by
    have : k.slice t = 1 ∨ k.slice t = 2 := inv.places.slices ht
    omega
  refine ⟨⟨inv.places.rings, ⟨inv.places.sleepers, inv.places.range⟩, inv.owns, ?_,
    fun r hr _ => sleeper r hr, fun r hr => ?_, fun r hr waits => ?_⟩, inv.running,
    thread_pos inv.owns inv.current_thread, thread_pos inv.owns (Or.inr rfl), inv.places.main,
    fun {t s} ht => ?_, fun {t} ht => ?_⟩
  · refine List.Nodup.map_on (fun r hr r' hr' same => ?_) inv.places.sleepers.nodup
    have h := sleeper r hr
    rw [same, sleeper r' hr'] at h
    simpa using h.symm
  · exact thread_pos inv.owns (inv.places.known (by rw [sleeper r hr]; simp))
  · exact absurd (inv.places.untimed r hr) waits
  · have known := slice (inv.places.known (t := t) (by rw [ht]; simp))
    simp only [known, false_iff, not_exists, not_and]
    rintro r hr rfl
    rw [sleeper r hr] at ht
    cases ht
  · rcases ht with ht | ht | ht
    · exact slice (inv.places.known (by rw [ht]; simp))
    · exact slice (inv.places.known (by rw [ht]; simp))
    · exact slice (Or.inr ht)

/-! ## Giving up the hart -/

section
variable {k k' : Kernel} {b : Threads} {recs : List Nat} {live : Multiset (Nat × Nat)}

theorem switch_rings (rings : k.Rings b) (idle : ∀ t, b.loc t ≠ some (.spot .running))
    (main : ∀ {p}, b.loc k.scheduler.kernelMain = some p →
      p = .queue .ready ∨ p = .spot .running) :
    ∃ b' n, (switch k).Rings b' ∧ (switch k).scheduler.threadCurrent = n ∧
      b'.loc = update b.loc n (some (.spot .running)) ∧
      (b.loc n = some (.queue .ready) ∨ b.loc n = none ∧ n = k.scheduler.kernelMain) ∧
      ∀ i, i ≠ .ready → b'.queue i = b.queue i := by
  have ring : IsRing k.links (k.view.head .ready) (b.queue .ready) := rings.ring .ready trivial
  unfold switch Kernel.Rings
  show ∃ b' n, Family (yield _ _ _).view.links (yield _ _ _).view.head
    (yield _ _ _).view.Active b' ∧ _
  rw [yield_view, yield_scheduler]
  cases hq : b.queue .ready with
  | nil =>
    have empty : k.view.head .ready = 0 := ring.head_null.mpr hq
    have free : b.loc k.scheduler.kernelMain = none := by
      cases hl : b.loc k.scheduler.kernelMain with
      | none => rfl
      | some p =>
        rcases main hl with rfl | rfl
        · have hm := b.mem_queue.mpr hl
          rw [hq] at hm
          exact absurd hm List.not_mem_nil
        · exact absurd hl (idle _)
    rw [schedulerNext_empty k empty]
    exact ⟨b.move k.scheduler.kernelMain (some .running) (Board.loose_of_none free), _,
      rings.same_queues rfl, rfl, rfl, Or.inr ⟨free, rfl⟩, fun _ _ => rfl⟩
  | cons r rs =>
    rw [hq] at ring
    have first : k.view.head .ready ≠ 0 := fun e => by simpa using ring.head_null.mp e
    obtain ⟨-, current, view⟩ := schedulerNext_first k first
    obtain ⟨head, popped⟩ := Family.pop rings (i := .ready) trivial hq
    have here := b.loc_head hq
    have head : k.view.head .ready = r := head
    rw [view, current, head]
    have free : (b.dequeue .ready r rs hq).loc r = none := by simp
    refine ⟨(b.dequeue .ready r rs hq).move r (some .running) (Board.loose_of_none free), r,
      popped.same_queues rfl, rfl, ?_, Or.inl here, fun i hi => ?_⟩
    · simp
    · exact update_of_ne hi ..

/-- The current thread has gone to the place `p`, and `n` runs. -/
structure Kernel.Passed (k k' : Kernel) (b b' : Threads) (p : Place QueueId Spot) (n : Nat) :
    Prop where
  rings : k'.Rings b'
  loc : b'.loc = update (update b.loc k.scheduler.threadCurrent (some p)) n (some (.spot .running))
  current : k'.scheduler.threadCurrent = n
  main : k'.scheduler.kernelMain = k.scheduler.kernelMain
  next : b.loc n = some (.queue .ready) ∨ n = k.scheduler.kernelMain ∨
    n = k.scheduler.threadCurrent ∧ p = .queue .ready

theorem Kernel.Timers.loose (timers : k.Timers b recs live) :
    b.Loose k.scheduler.threadCurrent := Board.loose_of_spot (timers.running.mpr rfl)

theorem switch_kernelMain (k : Kernel) :
    (switch k).scheduler.kernelMain = k.scheduler.kernelMain := by
  unfold switch
  rw [yield_scheduler]
  unfold schedulerNext
  split <;> rfl

/-- The current thread goes to sleep with the record `p`. -/
theorem Kernel.Timers.passed_asleep (timers : k.Timers b recs live) (k₁ : Kernel) {p : Nat}
    (user : k.scheduler.threadCurrent ≠ k.scheduler.kernelMain) (links : k₁.links = k.links)
    (head : k₁.head = k.head) (opened : k₁.hist.opened = k.hist.opened)
    (main : k₁.scheduler.kernelMain = k.scheduler.kernelMain) :
    ∃ b' n, k.Passed (switch k₁) b b' (.spot (.asleep p)) n := by
  have rings : k₁.Rings (b.move k.scheduler.threadCurrent (some (.asleep p)) timers.loose) :=
    (timers.rings.congr _ links head opened).same_queues rfl
  obtain ⟨b', n, rings', current, loc, next, others⟩ := switch_rings rings
    (fun t => by
      rw [Board.move_loc, update_apply]
      split
      · simp
      · next h => exact fun e => h (timers.running.mp e))
    (fun {q} hq => by
      rw [Board.move_loc, main, update_of_ne user.symm] at hq
      exact timers.main hq)
  refine ⟨b', n, rings', loc, current, (switch_kernelMain k₁).trans main, ?_⟩
  rw [main, Board.move_loc, update_apply] at next
  rcases next with ready | ⟨-, e⟩
  · split at ready
    · simp at ready
    · exact Or.inl ready
  · exact Or.inr (Or.inl e)

theorem Kernel.Rings.semPush {s t : Nat} (rings : k.Rings b) (opened : s ∈ k.hist.opened)
    (nonzero : t ≠ 0) (free : b.loc t = none) :
    (semPush k s t).Rings (b.enqueue (.sem s) t free) := by
  have pushed := Family.push rings (i := .sem s) opened nonzero free
  show Family (RiscvKernel.semPush k s t).view.links (RiscvKernel.semPush k s t).view.head
    (RiscvKernel.semPush k s t).view.Active _
  rw [semPush_view]
  exact pushed

/-- The current thread goes to the ring of `s`. -/
theorem Kernel.Timers.passed_wait (timers : k.Timers b recs live) (k₁ : Kernel) {s : Nat}
    (user : k.scheduler.threadCurrent ≠ k.scheduler.kernelMain) (links : k₁.links = k.links)
    (head : k₁.head = k.head) (hist : k₁.hist.opened = k.hist.opened)
    (main : k₁.scheduler.kernelMain = k.scheduler.kernelMain) (opened : s ∈ k.hist.opened) :
    ∃ b' n, k.Passed (semPush (switch k₁) s k.scheduler.threadCurrent) b b' (.queue (.sem s)) n ∧
      b'.queue (.sem s) = b.queue (.sem s) ++ [k.scheduler.threadCurrent] := by
  have rings : k₁.Rings (b.move k.scheduler.threadCurrent none timers.loose) :=
    (timers.rings.congr _ links head hist).same_queues rfl
  obtain ⟨b', n, rings', current, loc, next, others⟩ := switch_rings rings
    (fun t => by
      rw [Board.move_loc, update_apply]
      split
      · simp
      · next h => exact fun e => h (timers.running.mp e))
    (fun {q} hq => by
      rw [Board.move_loc, main, update_of_ne user.symm] at hq
      exact timers.main hq)
  rw [main, Board.move_loc] at next
  have other : n ≠ k.scheduler.threadCurrent := by
    rintro rfl
    rcases next with ready | ⟨-, e⟩
    · simp at ready
    · exact user e
  have free : b'.loc k.scheduler.threadCurrent = none := by
    rw [loc, update_of_ne other.symm]
    simp
  have opened' : s ∈ (switch k₁).hist.opened := by
    rw [switch_hist, hist]
    exact opened
  refine ⟨_, n, ⟨rings'.semPush opened' timers.current free, ?_, current,
    (switch_kernelMain k₁).trans main, ?_⟩, ?_⟩
  · rw [Board.enqueue_loc, loc, Board.move_loc, update_comm other, update_idem]
  · rw [update_of_ne other] at next
    exact next.imp id fun h => Or.inl h.2
  · rw [Board.enqueue_queue, update_self, others _ (by simp), Board.move_queue]

/-- The current thread goes to the end of the ready queue. -/
theorem Kernel.Timers.passed_dispatch (timers : k.Timers b recs live) :
    ∃ b' n, k.Passed (dispatch k) b b' (.queue .ready) n := by
  have rings : k.Rings (b.move k.scheduler.threadCurrent none timers.loose) :=
    timers.rings.same_queues rfl
  have free : (b.move k.scheduler.threadCurrent none timers.loose).loc
      k.scheduler.threadCurrent = none := by simp
  obtain ⟨b', n, rings', current, loc, next, others⟩ :=
    switch_rings (rings.push timers.current free)
    (fun t => by
      rw [Board.enqueue_loc, Board.move_loc, update_idem, update_apply]
      split
      · simp
      · next h => exact fun e => h (timers.running.mp e))
    (fun {q} hq => by
      have hq : update (update b.loc _ _) _ _ k.scheduler.kernelMain = some q := hq
      rw [update_idem, update_apply] at hq
      split at hq
      · exact Or.inl (Option.some.inj hq).symm
      · exact timers.main hq)
  refine ⟨b', n, rings', ?_, current, switch_kernelMain _, ?_⟩
  · rw [loc, Board.enqueue_loc, Board.move_loc, update_idem]
  · rw [Board.enqueue_loc, Board.move_loc, update_idem, update_apply] at next
    rcases next with ready | ⟨-, e⟩
    · split at ready
      · next e => exact Or.inr (Or.inr ⟨e, rfl⟩)
      · exact Or.inl ready
    · exact Or.inr (Or.inl e)

/-- Threads that neither run nor are ready stay where they are. -/
theorem Kernel.Passed.stays {b' : Threads} {p q : Place QueueId Spot} {n t : Nat}
    (passed : k.Passed k' b b' p n) (timers : k.Timers b recs live) (here : b.loc t = some q)
    (ready : q ≠ .queue .ready) (running : q ≠ .spot .running) :
    b'.loc t = some q ∧ t ≠ k.scheduler.threadCurrent := by
  have apart : t ≠ k.scheduler.threadCurrent := by
    rintro rfl
    rw [timers.running.mpr rfl] at here
    exact running (Option.some.inj here).symm
  have other : t ≠ n := by
    rintro rfl
    rcases passed.next with e | e | ⟨e, -⟩
    · rw [here] at e
      exact ready (Option.some.inj e)
    · rw [e] at here
      exact (timers.main here).elim ready running
    · exact apart e
  exact ⟨by rw [passed.loc, update_of_ne other, update_of_ne apart, here], apart⟩

/-- **Giving up the hart.** -/
theorem Kernel.Timers.pass {b' : Threads} {p : Place QueueId Spot} {n : Nat} {recs' : List Nat}
    {live' : Multiset (Nat × Nat)} (timers : k.Timers b recs live) (passed : k.Passed k' b b' p n)
    (timed : k'.Timed b' recs' live') (away : p ≠ .spot .running)
    (user : k.scheduler.threadCurrent = k.scheduler.kernelMain → p = .queue .ready)
    (slice : ∀ t, t ≠ k.scheduler.threadCurrent → k'.slice t = k.slice t)
    (records : ∀ t, t ≠ k.scheduler.threadCurrent →
      ((∃ r ∈ recs', (k'.sleeping r).thread = t) ↔ ∃ r ∈ recs, (k.sleeping r).thread = t))
    (mark : ∀ s, p = .queue (.sem s) → (k'.slice k.scheduler.threadCurrent = 0 ↔
      ∃ r ∈ recs', (k'.sleeping r).thread = k.scheduler.threadCurrent))
    (fresh : p = .queue .ready → k'.slice k.scheduler.threadCurrent ≠ 0) :
    k'.Timers b' recs' live' := by
  have loc : ∀ t, b'.loc t = if t = n then some (.spot .running)
      else if t = k.scheduler.threadCurrent then some p else b.loc t := by
    intro t
    rw [passed.loc, update_apply, update_apply]
  have sliceMain : k'.slice k.scheduler.kernelMain ≠ 0 := by
    by_cases e : k.scheduler.kernelMain = k.scheduler.threadCurrent
    · rw [e]
      exact fresh (user e.symm)
    · rw [slice _ e]
      exact timers.slices (Or.inr (Or.inr rfl))
  have sliceNext : k'.slice n ≠ 0 := by
    rcases passed.next with ready | e | ⟨e, here⟩
    · by_cases e : n = k.scheduler.threadCurrent
      · subst e
        rw [timers.running.mpr rfl] at ready
        cases ready
      · rw [slice _ e]
        exact timers.slices (Or.inl ready)
    · rw [e]
      exact sliceMain
    · rw [e]
      exact fresh here
  refine ⟨timed, fun {t} => ?_, ?_, by rw [passed.main]; exact timers.kernelMain, fun {q} hq => ?_,
    fun {t s} ht => ?_, fun {t} ht => ?_⟩
  · rw [passed.current, loc]
    split
    · next e => simp [e]
    · next e =>
      simp only [e, iff_false]
      split
      · exact fun h => away (Option.some.inj h)
      · next h => exact fun h' => h (timers.running.mp h')
  · rw [passed.current]
    rcases passed.next with ready | e | ⟨e, -⟩
    · rintro rfl
      exact timers.rings.not_null .ready (b.mem_queue.mpr ready)
    · rw [e]
      exact timers.kernelMain
    · rw [e]
      exact timers.current
  · rw [passed.main, loc] at hq
    split at hq
    · exact Or.inr (Option.some.inj hq).symm
    · split at hq
      · next e => exact Or.inl ((Option.some.inj hq).symm.trans (user e.symm))
      · exact timers.main hq
  · rw [loc] at ht
    split at ht
    · cases ht
    · split at ht
      · next e =>
        rw [e]
        exact mark s (Option.some.inj ht)
      · next e =>
        rw [slice t e, records t e]
        exact timers.marks ht
  · rw [passed.main, loc] at ht
    by_cases next : t = n
    · rw [next]
      exact sliceNext
    · rw [if_neg next] at ht
      by_cases e : t = k.scheduler.threadCurrent
      · rw [if_pos e] at ht
        rcases ht with ready | running | main
        · rw [e]
          exact fresh (Option.some.inj ready)
        · exact absurd (Option.some.inj running) away
        · rw [main]
          exact sliceMain
      · rw [if_neg e] at ht
        rcases ht with ready | running | main
        · rw [slice t e]
          exact timers.slices (Or.inl ready)
        · exact absurd (timers.running.mp running) e
        · rw [main]
          exact sliceMain

/-! ## The sleeping list -/

/-- The thread `th` has a record for the semaphore `s`, which is 0 for a sleep,
and `n` ticks left. -/
def Kernel.Alarm (k : Kernel) (recs : List Nat) (th s n : Nat) : Prop :=
  (∃ r ∈ recs, (k.sleeping r).thread = th ∧ (k.sleeping r).semaphore = s) ∧
    (th, n) ∈ times 0 (entries k.sleeping recs)

/-- The sleeping list and the heap are those of `k`. -/
structure Kernel.SameSleepers (k k' : Kernel) : Prop where
  sleeping : k'.sleeping = k.sleeping
  links : k'.sleepLinks = k.sleepLinks
  head : k'.scheduler.sleepingThreads = k.scheduler.sleepingThreads
  heap : k'.heap = k.heap

theorem Kernel.SameSleepers.alarms (same : k.SameSleepers k') (alarms : k.Alarms recs) :
    k'.Alarms recs := by
  refine ⟨?_, ?_⟩
  · rw [same.links, same.head]
    exact alarms.ring
  · rw [same.sleeping]
    exact alarms.range

theorem Kernel.Timed.keep {b' : Threads} (timed : k.Timed b recs live) (same : k.SameSleepers k')
    (rings : k'.Rings b')
    (stays : ∀ r ∈ recs, b'.loc (k.sleeping r).thread = b.loc (k.sleeping r).thread) :
    k'.Timed b' recs live := by
  refine ⟨rings, same.alarms timed.alarms, ?_, ?_, ?_, ?_, ?_⟩
  · rw [same.heap]
    exact timed.holds
  · rw [same.sleeping]
    exact timed.once
  · rw [same.sleeping]
    exact fun r hr untimed => (stays r hr).trans (timed.asleep r hr untimed)
  · rw [same.sleeping]
    exact timed.nonzero
  · rw [same.sleeping]
    exact fun r hr waits => (stays r hr).trans (timed.waiting r hr waits)

/-- Where the thread of a record is. -/
theorem Kernel.Timed.place (timed : k.Timed b recs live) {r : Nat} (hr : r ∈ recs) :
    ∃ q, b.loc (k.sleeping r).thread = some q ∧ q ≠ .queue .ready ∧ q ≠ .spot .running := by
  by_cases untimed : (k.sleeping r).semaphore = 0
  · exact ⟨_, timed.asleep r hr untimed, by simp, by simp⟩
  · exact ⟨_, timed.waiting r hr untimed, by simp, by simp⟩

theorem Kernel.Timers.notCurrent (timers : k.Timers b recs live) {r : Nat} (hr : r ∈ recs) :
    (k.sleeping r).thread ≠ k.scheduler.threadCurrent := by
  obtain ⟨q, here, -, running⟩ := timers.place hr
  rintro e
  rw [e, timers.running.mpr rfl] at here
  exact running (Option.some.inj here).symm

theorem Kernel.Passed.records {b' : Threads} {p : Place QueueId Spot} {n : Nat}
    (passed : k.Passed k' b b' p n) (timers : k.Timers b recs live) :
    ∀ r ∈ recs, b'.loc (k.sleeping r).thread = b.loc (k.sleeping r).thread := by
  intro r hr
  obtain ⟨q, here, ready, running⟩ := timers.place hr
  rw [(passed.stays timers here ready running).1, here]

/-- A record of the current thread is new in the sleeping list. -/
theorem Kernel.Timers.insert {k₀ k₁ : Kernel} {b' : Threads} {time s n r : Nat}
    {front back : List Nat} {q : Place QueueId Spot} (timers : k.Timers b recs live)
    (start : k₀.sleeping = k.sleeping)
    (put : k₀.PutToSleep k₁ recs k.scheduler.threadCurrent time s r front back)
    (holds : k₁.heap.Holds ((r, sizeInBlocks 40) ::ₘ (recordBlocks recs + live)))
    (same : k₁.SameSleepers k') (passed : k.Passed k' b b' q n)
    (apart : n ≠ k.scheduler.threadCurrent)
    (place : q = if s = 0 then .spot (.asleep r) else .queue (.sem s)) :
    k'.Timed b' (front ++ r :: back) live := by
  have perm : (front ++ r :: back).Perm (r :: recs) := put.split ▸ List.perm_middle
  have mem : ∀ x ∈ front ++ r :: back, x = r ∨ x ∈ recs := fun x hx =>
    List.mem_cons.mp (perm.mem_iff.mp hx)
  have here : b'.loc k.scheduler.threadCurrent = some q := by
    rw [passed.loc, update_of_ne apart.symm, update_self]
  have thread : (k'.sleeping r).thread = k.scheduler.threadCurrent := by
    rw [same.sleeping, put.thread]
  have semaphore : (k'.sleeping r).semaphore = s := by
    rw [same.sleeping, put.semaphore]
  have others : ∀ x ∈ recs, (k'.sleeping x).thread = (k.sleeping x).thread ∧
      (k'.sleeping x).semaphore = (k.sleeping x).semaphore := by
    rw [same.sleeping, ← start]
    exact put.others
  refine ⟨passed.rings, same.alarms put.alarms, ?_, ?_, fun x hx => ?_, fun x hx => ?_,
    fun x hx => ?_⟩
  · have blocks : recordBlocks (front ++ r :: back) = recordBlocks (r :: recs) :=
      congrArg (Multiset.map _) (Quotient.sound perm)
    rw [same.heap, blocks, recordBlocks_cons, Multiset.cons_add]
    exact holds
  · refine ((perm.map _).nodup_iff).mpr (List.nodup_cons.mpr ⟨?_, ?_⟩)
    · simp only [thread, List.mem_map, not_exists, not_and]
      intro x hx e
      rw [(others x hx).1] at e
      exact timers.notCurrent hx e
    · rw [List.map_congr_left fun x hx => (others x hx).1]
      exact timers.once
  · rcases mem x hx with rfl | hx
    · rw [thread, semaphore]
      exact fun e => by rw [here, place, if_pos e]
    · rw [(others x hx).1, (others x hx).2, passed.records timers x hx]
      exact timers.asleep x hx
  · rcases mem x hx with rfl | hx
    · rw [thread]
      exact timers.current
    · rw [(others x hx).1]
      exact timers.nonzero x hx
  · rcases mem x hx with rfl | hx
    · rw [thread, semaphore]
      exact fun e => by rw [here, place, if_neg e]
    · rw [(others x hx).1, (others x hx).2, passed.records timers x hx]
      exact timers.waiting x hx

theorem Kernel.Passed.apart {b' : Threads} {p : Place QueueId Spot} {n : Nat}
    (passed : k.Passed k' b b' p n) (timers : k.Timers b recs live)
    (user : k.scheduler.threadCurrent ≠ k.scheduler.kernelMain) (away : p ≠ .queue .ready) :
    n ≠ k.scheduler.threadCurrent := by
  rintro rfl
  rcases passed.next with ready | e | ⟨-, e⟩
  · rw [timers.running.mpr rfl] at ready
    cases ready
  · exact user e
  · exact away e

/-- The alarms of `k` are still set. -/
def Kernel.KeepsAlarms (k k' : Kernel) (recs recs' : List Nat) : Prop :=
  ∀ {th s n}, k.Alarm recs th s n → k'.Alarm recs' th s n

theorem Kernel.SameSleepers.keeps (same : k.SameSleepers k') : k.KeepsAlarms k' recs recs := by
  intro th s n alarm
  unfold Kernel.Alarm
  rw [same.sleeping]
  exact alarm

/-- The threads with a record, but for the one with the new record. -/
theorem Kernel.PutToSleep.owners {k₁ : Kernel} {th time s r t : Nat} {front back : List Nat}
    (put : k.PutToSleep k₁ recs th time s r front back) (other : t ≠ th) :
    (∃ x ∈ front ++ r :: back, (k₁.sleeping x).thread = t) ↔
      ∃ x ∈ recs, (k.sleeping x).thread = t := by
  have split := put.split
  constructor
  · rintro ⟨x, hx, e⟩
    have hx : x = r ∨ x ∈ recs := by
      rw [split]
      simpa [or_left_comm] using hx
    rcases hx with rfl | hx
    · exact absurd (e.symm.trans put.thread) other
    · exact ⟨x, hx, (put.others x hx).1.symm.trans e⟩
  · rintro ⟨x, hx, e⟩
    refine ⟨x, ?_, (put.others x hx).1.trans e⟩
    rw [split] at hx
    simp only [List.mem_append, List.mem_cons] at hx ⊢
    exact hx.imp id Or.inr

/-- A new record keeps the other alarms and sets one more. -/
theorem Kernel.PutToSleep.alarm {k₁ : Kernel} {th time s r : Nat} {front back : List Nat}
    (put : k.PutToSleep k₁ recs th time s r front back) (same : k₁.SameSleepers k') :
    k.KeepsAlarms k' recs (front ++ r :: back) ∧ k'.Alarm (front ++ r :: back) th s time := by
  obtain ⟨early, late, old, new⟩ := put.times
  constructor
  · rintro th' s' n ⟨⟨x, hx, thread, semaphore⟩, mem⟩
    unfold Kernel.Alarm
    rw [same.sleeping]
    refine ⟨⟨x, ?_, (put.others x hx).1.trans thread, (put.others x hx).2.trans semaphore⟩, ?_⟩
    · have hx : x ∈ front ++ back := put.split ▸ hx
      simp only [List.mem_append, List.mem_cons] at hx ⊢
      exact hx.imp id Or.inr
    · rw [old] at mem
      rw [new]
      simp only [List.mem_append, List.mem_cons] at mem ⊢
      exact mem.imp id Or.inr
  · unfold Kernel.Alarm
    rw [same.sleeping]
    exact ⟨⟨r, by simp, put.thread, put.semaphore⟩, by rw [new]; simp⟩

/-! ## The events -/

theorem switch_sleepers (k : Kernel) : k.SameSleepers (switch k) := by
  have view := switch_view k
  refine ⟨?_, ?_, ?_, switch_heap k⟩
  · refine (congrArg View.sleeping view).trans ?_
    split <;> rfl
  · refine (congrArg View.sleepLinks view).trans ?_
    split <;> rfl
  · refine (congrArg View.sleepHead view).trans ?_
    split <;> rfl

variable {s time : Nat}

/-- **Sleeping.** -/
theorem sleep_timers (timers : k.Timers b recs live)
    (user : k.scheduler.threadCurrent ≠ k.scheduler.kernelMain)
    (room : k.heap.HasRoom (sizeInBlocks 40)) (pos : 1 ≤ time) (lt : time < 2 ^ 64) :
    ∃ k₁ b' r n front back, schedulerTimeout k k.scheduler.threadCurrent time 0 = .ok k₁ ∧
      k.PutToSleep k₁ recs k.scheduler.threadCurrent time 0 r front back ∧
      k.Passed (switch k₁) b b' (.spot (.asleep r)) n ∧
      (switch k₁).Timers b' (front ++ r :: back) live ∧
      k.KeepsAlarms (switch k₁) recs (front ++ r :: back) ∧
      (switch k₁).Alarm (front ++ r :: back) k.scheduler.threadCurrent 0 time := by
  obtain ⟨k₁, r, front, back, eq, put, -, holds⟩ := schedulerTimeout_spec timers.alarms timers.holds
    (fun r hr => by simp [recordBlocks, hr]) (records_length_le timers.holds) room pos lt
    k.scheduler.threadCurrent 0
  obtain ⟨b', n, passed⟩ := timers.passed_asleep k₁ (p := r) user (by rw [put.frame])
    (by rw [put.frame]; rfl) (by rw [put.frame]) (by rw [put.frame])
  obtain ⟨keeps, alarm⟩ := put.alarm (switch_sleepers k₁)
  have apart := passed.apart timers user (by simp)
  have timed := timers.insert rfl put holds (switch_sleepers k₁) passed apart rfl
  have sleeping := (switch_sleepers k₁).sleeping
  refine ⟨k₁, b', r, n, front, back, eq, put, passed, timers.pass passed timed (by simp)
    (fun e => absurd e user) (fun t _ => ?_) (fun t ht => ?_) (by simp) (by simp), keeps, alarm⟩
  · rw [switch_slice, put.frame]
    rfl
  · rw [sleeping]
    exact put.owners ht

/-- **Dispatching.** -/
theorem dispatch_timers (timers : k.Timers b recs live) :
    ∃ b' n, k.Passed (dispatch k) b b' (.queue .ready) n ∧ (dispatch k).Timers b' recs live ∧
      k.KeepsAlarms (dispatch k) recs recs := by
  obtain ⟨b', n, passed⟩ := timers.passed_dispatch
  have same : k.SameSleepers (dispatch k) := by
    have := switch_sleepers (schedulerPush k k.scheduler.threadCurrent)
    exact ⟨this.sleeping, this.links, this.head, this.heap⟩
  refine ⟨b', n, passed, timers.pass passed (timers.keep same passed.rings (passed.records timers))
    (by simp) (fun _ => rfl) (fun t ht => ?_) (fun t _ => by rw [same.sleeping]) (by simp)
    (fun _ => ?_), same.keeps⟩
  · rw [dispatch_slice, update_of_ne ht]
  · rw [dispatch_slice, update_self]
    decide

theorem waited_head (k : Kernel) (s : Nat) : (k.waited s).head = k.head :=
  congrArg View.head (modifySem_view k s (fun x => { x with val := toI32 (x.val - 1) }) rfl)

/-- What `__sem_wait` does to a caller it blocks. -/
theorem semWait_blocks (low : toI32 ((k.sem s).val - 1) < 0) :
    semWait k s = (1, semPush (switch (k.waited s)) s k.scheduler.threadCurrent) :=
  (semWait_run k s).trans (if_pos low)

theorem semPush_sleepers (k : Kernel) (s : Nat) :
    k.SameSleepers (semPush (switch (k.waited s)) s k.scheduler.threadCurrent) := by
  have same := switch_sleepers (k.waited s)
  exact ⟨same.sleeping, same.links, same.head, same.heap⟩

theorem semPush_slice (k : Kernel) (s : Nat) :
    (semPush (switch (k.waited s)) s k.scheduler.threadCurrent).slice = k.slice :=
  switch_slice (k.waited s)

/-- The same place for everyone, and the same alarms. -/
theorem Kernel.Timers.congr (timers : k.Timers b recs live) (same : k.SameSleepers k')
    (links : k'.links = k.links) (head : k'.head = k.head)
    (opened : k'.hist.opened = k.hist.opened) (slice : k'.slice = k.slice)
    (current : k'.scheduler.threadCurrent = k.scheduler.threadCurrent)
    (main : k'.scheduler.kernelMain = k.scheduler.kernelMain) : k'.Timers b recs live := by
  refine ⟨timers.keep same (timers.rings.congr _ links head opened) fun _ _ => rfl, ?_, ?_, ?_, ?_,
    ?_,
    ?_⟩
  · rw [current]
    exact timers.running
  · rw [current]
    exact timers.current
  · rw [main]
    exact timers.kernelMain
  · rw [main]
    exact timers.main
  · rw [slice, same.sleeping]
    exact timers.marks
  · rw [slice, main]
    exact timers.slices

theorem marked_slice (k : Kernel) : k.marked.slice = update k.slice
    k.scheduler.threadCurrent 0 := by
  funext t
  show (update k.thread k.scheduler.threadCurrent _ t).timeLeft = _
  rw [update_apply, update_apply]
  split <;> rfl

/-- **A timed wait** that blocks. -/
theorem semTimedWait_timers (timers : k.Timers b recs live)
    (user : k.scheduler.threadCurrent ≠ k.scheduler.kernelMain) (opened : s ∈ k.hist.opened)
    (nonzero : s ≠ 0) (low : toI32 ((k.sem s).val - 1) < 0)
    (room : k.heap.HasRoom (sizeInBlocks 40)) (pos : 1 ≤ time) (lt : time < 2 ^ 64) :
    ∃ k₁ k' b' r n front back, k.marked.PutToSleep k₁ recs k.scheduler.threadCurrent time s r
        front back ∧ k' = semPush (switch (k₁.waited s)) s k.scheduler.threadCurrent ∧
      semTimedWait k s time = .ok (1, k') ∧ k.Passed k' b b' (.queue (.sem s)) n ∧
      k'.slice = update k.slice k.scheduler.threadCurrent 0 ∧
      b'.queue (.sem s) = b.queue (.sem s) ++ [k.scheduler.threadCurrent] ∧
      k'.Timers b' (front ++ r :: back) live ∧ k.KeepsAlarms k' recs (front ++ r :: back) ∧
      k'.Alarm (front ++ r :: back) k.scheduler.threadCurrent s time := by
  obtain ⟨k₁, r, front, back, eq, put, -, holds⟩ := schedulerTimeout_spec (k := k.marked)
    ⟨timers.alarms.ring, timers.alarms.range⟩ timers.holds
    (fun r hr => by simp [recordBlocks, hr]) (records_length_le timers.holds) room pos lt
    k.scheduler.threadCurrent s
  have frame := put.frame
  have sem : k₁.sem = k.sem := by rw [frame]; rfl
  have current : k₁.scheduler.threadCurrent = k.scheduler.threadCurrent := by rw [frame]; rfl
  have wait : semWait k₁ s = (1, semPush (switch (k₁.waited s)) s k₁.scheduler.threadCurrent) :=
    semWait_blocks (by rwa [sem])
  have run : semTimedWait k s time = .ok (semWait k₁ s) := by
    unfold semTimedWait
    show schedulerTimeout k.marked _ _ _ >>= _ = _
    rw [eq]
    rfl
  rw [wait] at run
  have same := semPush_sleepers k₁ s
  rw [current] at run same
  have slice : (semPush (switch (k₁.waited s)) s k.scheduler.threadCurrent).slice =
      update k.slice k.scheduler.threadCurrent 0 := by
    have slice := semPush_slice k₁ s
    rw [current] at slice
    rw [slice, ← marked_slice, frame]
    rfl
  obtain ⟨b', n, passed, queue⟩ := timers.passed_wait (k₁.waited s) (s := s) user
    (by show k₁.links = _; rw [frame]; rfl)
    ((waited_head k₁ s).trans (by rw [frame]; rfl)) (by show k₁.hist.opened = _; rw [frame]; rfl)
    (by show k₁.scheduler.kernelMain = _; rw [frame]; rfl) opened
  obtain ⟨keeps, alarm⟩ := put.alarm same
  have timed := timers.insert (show k.marked.sleeping = k.sleeping from rfl) put holds same passed
    (passed.apart timers user (by simp)) (if_neg nonzero).symm
  refine ⟨k₁, _, b', r, n, front, back, put, rfl, run, passed, slice, queue,
    timers.pass passed timed (by simp) (fun e => absurd e user) (fun t ht => ?_) (fun t ht => ?_)
      (fun s' _ => ?_) (by simp), keeps, alarm⟩
  · rw [slice, update_of_ne ht]
  · rw [same.sleeping]
    exact put.owners ht
  · rw [slice, update_self]
    obtain ⟨⟨x, hx, thread, -⟩, -⟩ := alarm
    exact ⟨fun _ => ⟨x, hx, thread⟩, fun _ => rfl⟩

/-- The timeout of the first waiting thread can be cancelled when it is alone or
not at the head of the list. -/
def Kernel.Cancellable (k : Kernel) (recs : List Nat) (s : Nat) : Prop :=
  ∀ r ∈ recs.head?, (k.sleeping r).thread = (k.sem s).waitingThreads → recs = [r]

/-- A signal takes the first waiting thread off the ring and off the sleeping list. -/
theorem taken_cancelled {t : Nat} {ws : List Nat} (timers : k.Timers b recs live)
    (first : b.queue (.sem s) = t :: ws) (head : (k.sem s).waitingThreads = t)
    (fits : k.Cancellable recs s) :
    ∃ k₂, (if (k.thread t).timeLeft = 0 then schedulerRemoveTimeout (k.taken s) t
        else .ok (k.taken s)) = .ok k₂ ∧ (k.taken s).SleepersOnly k₂ ∧ k.Cancelled k₂ recs live t ∧
      ∀ x, (k₂.sleeping x).thread = (k.sleeping x).thread ∧
        (k₂.sleeping x).semaphore = (k.sleeping x).semaphore := by
  have marks := timers.marks (b.loc_head first)
  by_cases timed : k.slice t = 0
  · obtain ⟨r, hr, here⟩ := marks.mp timed
    have once : (recs.map fun r => (k.sleeping r).thread).count t = 1 :=
      List.count_eq_one_of_mem timers.once (here ▸ List.mem_map_of_mem hr)
    obtain ⟨k₂, removed, only, -, cancelled, same⟩ := schedulerRemoveTimeout_spec
      (k := k.taken s) ⟨timers.alarms.ring, timers.alarms.range⟩ timers.holds once
      (fun r hr e => fits r hr (e.trans head.symm))
    have timed : (k.thread t).timeLeft = 0 := timed
    rw [if_pos timed]
    exact ⟨k₂, removed, only, ⟨cancelled.ring, cancelled.times, cancelled.holds⟩, same⟩
  · have none : ∀ r ∈ recs, (k.sleeping r).thread ≠ t := fun r hr e => timed (marks.mpr ⟨r, hr, e⟩)
    have all : recs.filter (fun r => (k.sleeping r).thread ≠ t) = recs :=
      List.filter_eq_self.mpr fun r hr => by simpa using none r hr
    have timed : (k.thread t).timeLeft ≠ 0 := timed
    rw [if_neg timed]
    refine ⟨k.taken s, rfl, rfl, ⟨?_, ?_, ?_⟩, fun _ => ⟨rfl, rfl⟩⟩
    · rw [all]
      exact timers.alarms.ring
    · rw [all]
      refine (List.filter_eq_self.mpr fun x hx => ?_).symm
      have mem : x.1 ∈ (times 0 (entries k.sleeping recs)).map Prod.fst := List.mem_map_of_mem hx
      rw [times_fst] at mem
      obtain ⟨y, hy, e⟩ := List.mem_map.mp mem
      obtain ⟨r, hr, rfl⟩ := List.mem_map.mp hy
      simpa [← e] using none r hr
    · rw [all]
      exact timers.holds

theorem Kernel.SleepersOnly.rings {k₂ : Kernel} (only : k.SleepersOnly k₂) (rings : k.Rings b) :
    k₂.Rings b := by
  have e : k₂ = _ := only
  exact rings.congr _ (by rw [e]) (by rw [e]; rfl) (by rw [e])

/-- The first waiting thread `t` of a semaphore is made ready, and its record is gone. -/
theorem Kernel.Timers.wake {k₂ : Kernel} {t : Nat} {ws : List Nat} (timers : k.Timers b recs live)
    (first : b.queue (.sem s) = t :: ws) (free : (b.dequeue (.sem s) t ws first).loc t = none)
    (rings : k'.Rings ((b.dequeue (.sem s) t ws first).enqueue .ready t free))
    (cancelled : k.Cancelled k₂ recs live t)
    (threads : ∀ x, (k₂.sleeping x).thread = (k.sleeping x).thread ∧
      (k₂.sleeping x).semaphore = (k.sleeping x).semaphore)
    (same : k₂.SameSleepers k') (slice : k'.slice = update k.slice t defaultTimeSlice)
    (current : k'.scheduler.threadCurrent = k.scheduler.threadCurrent)
    (main : k'.scheduler.kernelMain = k.scheduler.kernelMain) :
    k'.Timers ((b.dequeue (.sem s) t ws first).enqueue .ready t free)
      (recs.filter fun r => (k.sleeping r).thread ≠ t) live := by
  have here := b.loc_head first
  have loc : ∀ x, ((b.dequeue (.sem s) t ws first).enqueue .ready t free).loc x =
      if x = t then some (.queue .ready) else b.loc x := fun x => by
    rw [Board.enqueue_loc, Board.dequeue_loc, update_idem, update_apply]
  have mem : ∀ r, r ∈ recs.filter (fun r => (k.sleeping r).thread ≠ t) ↔
      r ∈ recs ∧ (k.sleeping r).thread ≠ t := fun r => by simp
  have notCurrent : t ≠ k.scheduler.threadCurrent := by
    rintro rfl
    rw [timers.running.mpr rfl] at here
    cases here
  refine ⟨⟨rings, same.alarms ⟨cancelled.ring, fun x hx => ?_⟩, ?_, ?_, fun r hr => ?_,
    fun r hr => ?_,
    fun r hr => ?_⟩, fun {x} => ?_, ?_, ?_, fun {q} hq => ?_, fun {x s'} hx => ?_, fun {x} hx => ?_⟩
  · rw [cancelled.times] at hx
    exact timers.alarms.range x (List.mem_of_mem_filter hx)
  · rw [same.heap]
    exact cancelled.holds
  · rw [same.sleeping, List.map_congr_left fun x _ => (threads x).1]
    exact timers.once.sublist (List.filter_sublist.map _)
  · obtain ⟨hr, other⟩ := (mem r).mp hr
    rw [same.sleeping, (threads r).1, (threads r).2, loc, if_neg other]
    exact timers.asleep r hr
  · rw [same.sleeping, (threads r).1]
    exact timers.nonzero r ((mem r).mp hr).1
  · obtain ⟨hr, other⟩ := (mem r).mp hr
    rw [same.sleeping, (threads r).1, (threads r).2, loc, if_neg other]
    exact timers.waiting r hr
  · rw [loc, current]
    split
    · next e => simp [e, notCurrent]
    · exact timers.running
  · rw [current]
    exact timers.current
  · rw [main]
    exact timers.kernelMain
  · rw [main, loc] at hq
    split at hq
    · exact Or.inl (Option.some.inj hq).symm
    · exact timers.main hq
  · rw [loc] at hx
    split at hx
    · cases hx
    · next other =>
      rw [slice, update_of_ne other, timers.marks hx, same.sleeping]
      simp only [mem, (threads _).1]
      exact ⟨fun ⟨r, hr, e⟩ => ⟨r, ⟨hr, e ▸ other⟩, e⟩, fun ⟨r, ⟨hr, _⟩, e⟩ => ⟨r, hr, e⟩⟩
  · rw [loc, main] at hx
    rw [slice, update_apply]
    split
    · decide
    · next other =>
      rw [if_neg other] at hx
      exact timers.slices hx

theorem kept_congr (boot : k'.bootBlocks = k.bootBlocks)
    (userBlocks : k'.hist.userBlocks = k.hist.userBlocks) (same : k'.hist.live = k.hist.live)
    (opened : k'.hist.opened = k.hist.opened) (bp : k'.view.bp = k.view.bp) :
    k'.view.kept = k.view.kept := by
  have stack : k'.view.stack = k.view.stack := funext fun t => by
    unfold View.stack
    rw [bp]
  unfold View.kept
  rw [stack]
  show (k'.bootBlocks : Multiset (Nat × Nat)) + (k'.hist.userBlocks : Multiset (Nat × Nat)) +
    (k'.hist.live : Multiset Nat).map _ + (k'.hist.live : Multiset Nat).map _ +
      (k'.hist.opened : Multiset Nat).map _ = _
  rw [boot, userBlocks, same, opened]
  rfl

/-- The threads, their saved registers and what they own are those of `k`. -/
structure Kernel.SameThreads (k k' : Kernel) : Prop where
  saved : k'.saved = k.saved
  kept : k'.view.kept = k.view.kept
  live : k'.hist.live = k.hist.live
  opened : k'.hist.opened = k.hist.opened
  console : k'.console = k.console
  main : k'.scheduler.kernelMain = k.scheduler.kernelMain
  count : k'.scheduler.userThreadCount = k.scheduler.userThreadCount

theorem Kernel.SameThreads.trans {k₁ : Kernel} (first : k.SameThreads k₁)
    (second : k₁.SameThreads k') : k.SameThreads k' :=
  ⟨second.saved.trans first.saved, second.kept.trans first.kept, second.live.trans first.live,
    second.opened.trans first.opened, second.console.trans first.console,
    second.main.trans first.main, second.count.trans first.count⟩

theorem schedulerPush_threads (k : Kernel) (t : Nat) : k.SameThreads (schedulerPush k t) :=
  ⟨schedulerPush_saved k t, kept_congr rfl rfl rfl rfl (schedulerPush_bp k t), rfl, rfl, rfl, rfl,
    rfl⟩

theorem switch_threads (k : Kernel) : k.SameThreads (switch k) := by
  have view := switch_view k
  refine ⟨switch_saved k, ?_, by rw [switch_hist], by rw [switch_hist], switch_console k,
    switch_kernelMain k, ?_⟩
  · rw [view]
    split <;> rfl
  · show (switch k).view.userThreadCount = k.view.userThreadCount
    rw [view]
    split <;> rfl

theorem Kernel.SleepersOnly.threads (only : k.SleepersOnly k') : k.SameThreads k' := by
  have e : k' = _ := only
  rw [e]
  exact ⟨rfl, rfl, rfl, rfl, rfl, rfl, rfl⟩

theorem Kernel.PutToSleep.threads {th r : Nat} {front back : List Nat}
    (put : k.PutToSleep k' recs th time s r front back) : k.SameThreads k' := by
  rw [put.frame]
  exact ⟨rfl, rfl, rfl, rfl, rfl, rfl, rfl⟩

/-- The threads `ts` go from their places to the ready queue, and their records are gone. -/
structure Kernel.Rouses (k k' : Kernel) (b b' : Threads) (recs recs' ts : List Nat) : Prop
    extends threads : k.SameThreads k' where
  loc : ∀ t, b'.loc t = if t ∈ ts then some (.queue .ready) else b.loc t
  placed : ∀ t ∈ ts, b.loc t ≠ none
  records : ∀ r ∈ recs, (k.sleeping r).thread ∉ ts → r ∈ recs'
  same : ∀ r, (k'.sleeping r).thread = (k.sleeping r).thread ∧
    (k'.sleeping r).semaphore = (k.sleeping r).semaphore
  slice : ∀ t, k'.slice t = if t ∈ ts then defaultTimeSlice else k.slice t

theorem signalled_rouses (k : Kernel) (b : Threads) (recs : List Nat) (s : Nat) :
    k.Rouses (k.signalled s) b b recs recs [] :=
  ⟨⟨rfl, rfl, rfl, rfl, rfl, rfl, rfl⟩, by simp, by simp, fun _ hr _ => hr, fun _ => ⟨rfl, rfl⟩,
    fun _ => rfl⟩

/-- The thread `t` is woken by a signal. -/
theorem Kernel.SleepersOnly.rouses {k₂ : Kernel} {b' : Threads} {t : Nat}
    (only : (k.taken s).SleepersOnly k₂) (here : b.loc t ≠ none)
    (loc : ∀ x, b'.loc x = if x = t then some (.queue .ready) else b.loc x)
    (threads : ∀ x, (k₂.sleeping x).thread = (k.sleeping x).thread ∧
      (k₂.sleeping x).semaphore = (k.sleeping x).semaphore) (c : Nat) :
    k.Rouses (schedulerPush (k₂.setContext c regA0 0) t) b b' recs
      (recs.filter fun r => (k.sleeping r).thread ≠ t) [t] := by
  have taken : k.SameThreads (k.taken s) := ⟨rfl, rfl, rfl, rfl, rfl, rfl, rfl⟩
  have answered : k₂.SameThreads (k₂.setContext c regA0 0) := ⟨rfl, rfl, rfl, rfl, rfl, rfl, rfl⟩
  have slice : k₂.slice = k.slice := by
    have e : k₂ = _ := only
    rw [e]
    rfl
  refine ⟨((taken.trans only.threads).trans answered).trans (schedulerPush_threads _ t),
    fun x => by simp [loc], fun x hx => ?_, fun r hr out => ?_, threads, fun x => ?_⟩
  · rwa [List.mem_singleton.mp hx]
  · simpa [hr] using out
  · rw [schedulerPush_slice]
    show update k₂.slice t defaultTimeSlice x = _
    rw [slice, update_apply]
    simp

/-- **Signalling.** -/
theorem semSignal_timers (timers : k.Timers b recs live) (opened : s ∈ k.hist.opened)
    (fits : k.Cancellable recs s) :
    ∃ r k' b' recs', semSignal k s = .ok (r, k') ∧ k'.Timers b' recs' live ∧
      (∃ ts, k.Rouses k' b b' recs recs' ts) ∧
      ∀ {th s' n}, s' ≠ s → k.Alarm recs th s' n → k'.Alarm recs' th s' n := by
  have head : (k.signalled s).head = k.head :=
    congrArg View.head (modifySem_view k s (fun x => { x with val := toI32 (x.val + 1) }) rfl)
  have signalled : (k.signalled s).Timers b recs live :=
    timers.congr ⟨rfl, rfl, rfl, rfl⟩ rfl head rfl rfl rfl rfl
  have ring : IsRing k.links (k.sem s).waitingThreads (b.queue (.sem s)) :=
    timers.rings.ring (.sem s) opened
  have run := semSignal_run k s
  by_cases below : toI32 ((k.sem s).val + 1) ≤ 0
  · cases hq : b.queue (.sem s) with
    | nil =>
      have nobody : (k.sem s).waitingThreads = 0 := ring.head_null.mpr hq
      rw [if_pos below, if_pos nobody] at run
      exact ⟨_, _, b, recs, run, signalled, ⟨[], signalled_rouses k b recs s⟩,
        fun _ alarm => alarm⟩
    | cons t ws =>
      rw [hq] at ring
      obtain ⟨k₂, removed, only, cancelled, threads⟩ := taken_cancelled timers hq ring.head_eq fits
      have here := b.loc_head hq
      have free : (b.dequeue (.sem s) t ws hq).loc t = none := by simp
      have taken : (k.taken s).Rings (b.dequeue (.sem s) t ws hq) := by
        have popped := (Family.pop signalled.rings (i := .sem s) opened hq).2
        show Family (semNext (k.signalled s) s).2.view.links (semNext (k.signalled s) s).2.view.head
          (semNext (k.signalled s) s).2.view.Active _
        rw [semNext_view]
        exact popped
      have nonzero : t ≠ 0 := fun e => ring.not_null (by simp [e])
      have e : k₂ = _ := only
      have rings := ((only.rings taken).congr (k₂.setContext (k₂.thread t).sp regA0 0) rfl rfl
        rfl).push nonzero free
      have slice : k₂.slice = k.slice := by
        rw [e]
        rfl
      refine ⟨0, _, _, recs.filter fun r => (k.sleeping r).thread ≠ t, ?_,
        timers.wake hq free rings cancelled threads ⟨rfl, rfl, rfl, rfl⟩ ?_ ?_ ?_, ⟨[t], ?_⟩, ?_⟩
      · rw [semSignal_wakes ring below, removed]
        rfl
      · rw [schedulerPush_slice]
        exact congrArg (update · t defaultTimeSlice) slice
      · show k₂.scheduler.threadCurrent = _
        rw [e]
        rfl
      · show k₂.scheduler.kernelMain = _
        rw [e]
        rfl
      · refine only.rouses (by rw [here]; simp) (fun x => ?_) threads _
        rw [Board.enqueue_loc, Board.dequeue_loc, update_idem, update_apply]
      · rintro th s' n other ⟨⟨r, hr, rfl, rfl⟩, mem⟩
        have apart : (k.sleeping r).thread ≠ t := by
          intro e
          by_cases untimed : (k.sleeping r).semaphore = 0
          · have loc := timers.asleep r hr untimed
            rw [e, here] at loc
            cases loc
          · have loc := timers.waiting r hr untimed
            rw [e, here] at loc
            exact other (by simpa using loc.symm)
        refine ⟨⟨r, ?_, (threads r).1, (threads r).2⟩, ?_⟩
        · simp [hr, apart]
        · show _ ∈ times 0 (entries k₂.sleeping _)
          rw [cancelled.times]
          exact List.mem_filter.mpr ⟨mem, by simpa using apart⟩
  · rw [if_neg below] at run
    exact ⟨_, _, b, recs, run, signalled, ⟨[], signalled_rouses k b recs s⟩,
      fun _ alarm => alarm⟩

/-- An alarm with one tick left expires in the next tick. -/
theorem Kernel.Timed.expires {th : Nat} (timed : k.Timed b recs live)
    (alarm : k.Alarm recs th s 1) :
    ∃ r ∈ k.expiring recs, (k.sleeping r).thread = th ∧ (k.sleeping r).semaphore = s := by
  obtain ⟨⟨r, hr, rfl, rfl⟩, mem⟩ := alarm
  have due := (due_times (fun r => (countedDown_others k r).1) timed.alarms.countedDown).1
  have now : (k.sleeping r).thread ∈ (k.expiring recs).map fun r => (k.sleeping r).thread := by
    unfold Kernel.expiring
    rw [due]
    exact List.mem_map.mpr ⟨((k.sleeping r).thread, 0), List.mem_filter.mpr
      ⟨List.mem_map.mpr ⟨_, mem, rfl⟩, by simp⟩, rfl⟩
  obtain ⟨r', hr', e⟩ := List.mem_map.mp now
  have mem' : r' ∈ recs := by
    rw [expiring_append_remaining k recs]
    exact List.mem_append_left _ hr'
  exact ⟨r', hr', e, by rw [List.inj_on_of_nodup_map timed.once mem' hr e]⟩

/-- **A tick.** -/
theorem tick_timers (timers : k.Timers b recs live) (alone : k.ExpireAlone b recs) :
    ∃ k' b' recs' ts, schedulerTick k = .ok k' ∧ k'.Timers b' recs' live ∧
      k.Rouses k' b b' recs recs' ts ∧
      (∀ {th s n}, k.Alarm recs th s (n + 2) → k'.Alarm recs' th s (n + 1)) ∧
      (∀ {th s}, k.Alarm recs th s 1 → b'.loc th = some (.queue .ready)) := by
  obtain ⟨k', b', tick, timed, readied, woke⟩ := timed_tick timers.timed alone
  have split := expiring_append_remaining k recs
  let ts := (k.expiring recs).map fun r => (k.sleeping r).thread
  have due := due_times (fun r => (countedDown_others k r).1) timers.alarms.countedDown
  have expired : ∀ r ∈ k.expiring recs, r ∈ recs := fun r hr => by
    rw [split]
    exact List.mem_append_left _ hr
  have away : ∀ t ∈ ts, ∃ q, b.loc t = some q ∧ q ≠ .queue .ready ∧ q ≠ .spot .running := by
    intro t ht
    obtain ⟨r, hr, rfl⟩ := List.mem_map.mp ht
    exact timers.place (expired r hr)
  have sleeping : k'.sleeping = k.countedDown := by rw [woke.frame]
  have current : k'.scheduler.threadCurrent = k.scheduler.threadCurrent := by rw [woke.frame]
  have main : k'.scheduler.kernelMain = k.scheduler.kernelMain := by rw [woke.frame]
  have threads : k.SameThreads k' := by
    have frame := woke.frame
    refine ⟨woke.saved, kept_congr ?_ ?_ ?_ ?_ woke.bp, ?_, ?_, ?_, main, ?_⟩
    · rw [frame]
      rfl
    all_goals rw [frame]
  have rouses : k.Rouses k' b b' recs (k.remaining recs) ts := by
    refine ⟨threads, readied.loc, fun t ht => ?_, fun r hr out => ?_, fun r => ?_, woke.slice⟩
    · obtain ⟨q, here, -⟩ := away t ht
      rw [here]
      simp
    · rw [split] at hr
      exact (List.mem_append.mp hr).resolve_left fun hr => out (List.mem_map_of_mem hr)
    · rw [sleeping]
      exact countedDown_others k r
  refine ⟨k', b', k.remaining recs, ts, tick, ⟨timed, fun {t} => ?_, ?_, ?_, fun {q} hq => ?_,
    fun {t s} ht => ?_, fun {t} ht => ?_⟩, rouses, ?_, ?_⟩
  · rw [readied.loc, current]
    split
    · next h =>
      obtain ⟨q, here, -, running⟩ := away t h
      simp only [Option.some.injEq, reduceCtorEq, false_iff]
      intro e
      rw [timers.running.mpr e] at here
      exact running (Option.some.inj here).symm
    · exact timers.running
  · rw [current]
    exact timers.current
  · rw [main]
    exact timers.kernelMain
  · rw [main, readied.loc] at hq
    split at hq
    · exact Or.inl (Option.some.inj hq).symm
    · exact timers.main hq
  · rw [readied.loc] at ht
    split at ht
    · cases ht
    · next other =>
      rw [woke.slice, if_neg other, timers.marks ht, sleeping]
      simp only [countedDown_others]
      constructor
      · rintro ⟨r, hr, e⟩
        rw [split] at hr
        rcases List.mem_append.mp hr with hr | hr
        · exact absurd (List.mem_map.mpr ⟨r, hr, e⟩) other
        · exact ⟨r, hr, e⟩
      · rintro ⟨r, hr, e⟩
        refine ⟨r, ?_, e⟩
        rw [split]
        exact List.mem_append_right _ hr
  · rw [readied.loc, main] at ht
    rw [woke.slice]
    split
    · decide
    · next other =>
      rw [if_neg other] at ht
      exact timers.slices ht
  · rintro th s n ⟨⟨r, hr, rfl, rfl⟩, mem⟩
    have later : ((k.sleeping r).thread, n + 1) ∈ times 0
      (entries k'.sleeping (k.remaining recs)) := by
      rw [sleeping]
      refine due.2 ▸ List.mem_filter.mpr ⟨List.mem_map.mpr ⟨_, mem, ?_⟩, by simp⟩
      simp
    refine ⟨⟨r, ?_, ?_, ?_⟩, later⟩
    · have fst : (k.sleeping r).thread ∈ (times 0 (entries k'.sleeping (k.remaining recs))).map
          Prod.fst := List.mem_map.mpr ⟨_, later, rfl⟩
      rw [times_fst, sleeping] at fst
      obtain ⟨y, hy, e⟩ := List.mem_map.mp fst
      obtain ⟨r', hr', rfl⟩ := List.mem_map.mp hy
      have mem' : r' ∈ recs := by
        rw [split]
        exact List.mem_append_right _ hr'
      have e : (k.sleeping r').thread = (k.sleeping r).thread := by
        rw [← (countedDown_others k r').1]
        exact e
      rwa [← List.inj_on_of_nodup_map timers.once mem' hr e]
    · rw [sleeping, (countedDown_others k r).1]
    · rw [sleeping, (countedDown_others k r).2]
  · intro th s alarm
    obtain ⟨r, hr, rfl, -⟩ := timers.expires alarm
    have now : (k.sleeping r).thread ∈ (k.expiring recs).map fun r => (k.sleeping r).thread :=
      List.mem_map_of_mem hr
    rw [readied.loc, if_pos now]

/-- A timed wait that blocks keeps memory and the saved registers. -/
theorem semTimedWait_frame {r : Int} (ran : semTimedWait k s time = .ok (r, k')) (blocked : r ≠ 0) :
    k'.mem = k.mem ∧ k'.saved = k.saved := by
  unfold semTimedWait at ran
  obtain ⟨k₁, timeout, ran⟩ := ok_bind ran
  have only : k₁ = _ := schedulerTimeout_only timeout
  have ran : Except.ok (semWait k₁ s) = .ok (r, k') := ran
  have same : k₁.mem = k.mem ∧ k₁.saved = k.saved := by
    rw [only]
    refine ⟨rfl, funext fun t => ?_⟩
    show (if t = k.scheduler.threadCurrent then k.hart.saved else
      (update k.thread k.scheduler.threadCurrent _ t).saved) = _
    by_cases e : t = k.scheduler.threadCurrent
    · simp [Kernel.saved, e]
    · simp [Kernel.saved, e]
  by_cases low : toI32 ((k₁.sem s).val - 1) < 0
  · rw [semWait_blocks low] at ran
    cases ran
    refine ⟨(switch_mem (k₁.waited s)).trans same.1, ?_⟩
    exact (switch_saved (k₁.waited s)).trans same.2
  · have eq : semWait k₁ s = (0, k₁.waited s) := (semWait_run k₁ s).trans (if_neg low)
    rw [eq] at ran
    cases ran
    exact absurd rfl blocked

end

/-! ## The first timed wait -/

/-- The call `sem_timedwait` of the first user thread. -/
def timedWaitCall (k : Kernel) (s time : Nat) : Trap where
  scause := irqEcallUser
  sepc := 0x80000500
  sstatus := 0
  regs := fun i => if i = regA0 then syscallSemTimedWait else if i = regA1 then s else
    if i = regA2 then time else if i = regSp then 2048 else 0
  mem := k.mem
  plic := 0

/-- The kernel in the call of `__sem_timed_wait`. -/
def timedCall (k : Kernel) (s time : Nat) : Kernel := bumpSepc (enter k (timedWaitCall k s time)) 4

theorem bumpSepc_context (k : Kernel) (d : Int) : (bumpSepc k d).context = k.context := rfl

theorem timedCall_context (k : Kernel) (s time : Nat) : (timedCall k s time).context =
    (enter k (timedWaitCall k s time)).context := bumpSepc_context ..

/-- The trap of a timed wait is the call of `__sem_timed_wait`. -/
theorem trap_timedWait {k k' : Kernel} {s time : Nat}
    (ran : semTimedWait (timedCall k s time) s time = .ok (1, k')) :
    trap k (timedWaitCall k s time) = .ok (leave k') := by
  let tr := timedWaitCall k s time
  let k₀ := timedCall k s time
  have regs : tr.regs regA0 = syscallSemTimedWait ∧ tr.regs regA1 = s ∧ tr.regs regA2 = time := by
    simp [tr, timedWaitCall]
  have same : k₀.context = (enter k tr).context := timedCall_context k s time
  have args : k₀.context tr.frame regA0 = syscallSemTimedWait ∧
      k₀.context tr.frame regA1 = s ∧ k₀.context tr.frame regA2 = time := by
    rw [same, enter_arg k tr (by decide) (by decide), enter_arg k tr (by decide) (by decide),
      enter_arg k tr (by decide) (by decide)]
    exact regs
  have handled := irqHandler_user tr.plic (k := enter k tr) rfl
  have frame : (enter k tr).hart.sscratch = tr.frame := rfl
  have call : ∀ k c, handleSyscall k c syscallSemTimedWait = handleSemTimedWait k c :=
    fun _ _ => rfl
  unfold trap
  rw [handled, frame, ← same, args.1, call]
  show handleSemTimedWait k₀ tr.frame >>= _ = _
  rw [handleSemTimedWait, args.2.1, args.2.2, ran]
  rfl

/-- The first user thread `p` calls for a semaphore with no units. -/
structure SmallCall (k : Kernel) (b : Threads) (p s : Nat) : Prop where
  user : FirstUser smallKernel k b p
  opened : k.hist.opened = [s]
  nonzero : s ≠ 0
  empty : (k.sem s).val = 0
  notMain : p ≠ k.scheduler.kernelMain
  room : k.heap.HasRoom (sizeInBlocks 40)

theorem small_call : ∃ k b p s, SmallCall k b p s := by
  obtain ⟨k, b, p, s, user, opened, val, -⟩ := small_open 0 (by decide)
  have inv := user.rest.inv
  refine ⟨k, b, p, s, user, opened, ?_, val, fun e => ?_, ?_⟩
  · exact (inv.owns.starts.2 (s, sizeInBlocks 16)
      (by simp [View.owned, View.kept, Kernel.view, opened])).ne'
  · exact main_not_live inv.owns (by rw [← e, user.live]; exact List.mem_singleton_self p)
  · exact small_room inv user.start user.stop user.live user.userBlocks (by simp [opened])

section
variable {k : Kernel} {b : Threads} {p s : Nat}

theorem SmallCall.inv (small : SmallCall k b p s) (time : Nat) : (timedCall k s time).Inv b [] :=
  (enter_inv small.user.rest.inv _).congr rfl rfl

theorem SmallCall.mem (small : SmallCall k b p s) : s ∈ k.hist.opened := by
  rw [small.opened]
  exact List.mem_singleton_self s

theorem SmallCall.low (small : SmallCall k b p s) : toI32 ((k.sem s).val - 1) < 0 := by
  rw [small.empty]
  decide

theorem SmallCall.user_ne (small : SmallCall k b p s) :
    k.scheduler.threadCurrent ≠ k.scheduler.kernelMain := by
  rw [small.user.current]
  exact small.notMain

end

/-- The first user thread waits for a semaphore that nobody signals. -/
theorem small_timed_wait {k : Kernel} {b : Threads} {p s : Nat} (time : Nat)
    (small : SmallCall k b p s)
    (pos : 1 ≤ time) (lt : time < 2 ^ 64) : ∃ k' b' r,
      semTimedWait (timedCall k s time) s time = .ok (1, k') ∧
      k'.Timers b' [r] (timedCall k s time).view.kept ∧ k'.Alarm [r] p s time ∧
      b'.queue (.sem s) = [p] ∧ k'.context (k'.sp p) regA0 = syscallSemTimedWait := by
  let tr := timedWaitCall k s time
  obtain ⟨k₁, k', b', r, n, front, back, put, -, ran, -, -, queue, timers, -, alarm⟩ :=
    semTimedWait_timers (small.inv time).timers small.user_ne small.mem small.nonzero small.low
      small.room pos lt
  obtain ⟨rfl, rfl⟩ := List.append_eq_nil_iff.mp put.split.symm
  obtain ⟨memory, saved⟩ := semTimedWait_frame ran (by decide)
  have current : (timedCall k s time).scheduler.threadCurrent = p := small.user.current
  rw [current] at alarm queue
  rw [small.user.idle] at queue
  refine ⟨k', b', r, ran, timers, alarm, queue, ?_⟩
  -- the frame is as the trap left it
  obtain ⟨⟨r', hr, thread, -⟩, -⟩ := alarm
  have other : p ≠ k'.scheduler.threadCurrent := thread ▸ timers.notCurrent hr
  have sp : k'.sp p = tr.frame := by
    have here := saved_other other
    rw [saved, ← current, saved_current] at here
    rw [← current]
    exact (congrArg Saved.sp here).symm
  have context : k'.context = (timedCall k s time).context :=
    funext fun c => funext fun i => congrFun memory (slot c i)
  rw [context, timedCall_context, sp, enter_arg k tr (by decide) (by decide)]
  simp [tr, timedWaitCall]

end RiscvKernel
