import RiscvKernel.SemMoves
import RiscvKernel.SleepRuns
import RiscvKernel.Boot

/-!
# Cancelling a timeout

`__scheduler_remove_timeout` unlinks the record of a thread, hands its time to
the next record and frees it. It does not move the head pointer of the list, so
a record at the head may only go when it is alone.

* `signal_cancels_iff`: when a signal that wakes a timed waiter leaves the other
  sleepers as they were.
-/

namespace RiscvKernel
open Function Intrusive DeltaList

/-- The record `r` of the thread `t` between the records of other threads. -/
structure Kernel.Record (k : Kernel) (t : Nat) (front : List Nat) (r : Nat) (back : List Nat) :
    Prop where
  here : (k.sleeping r).thread = t
  before : ∀ x ∈ front, (k.sleeping x).thread ≠ t
  after : ∀ x ∈ back, (k.sleeping x).thread ≠ t

section
variable {k : Kernel} {front back : List Nat} {r t : Nat}

theorem record_of_once
    (once : ((front ++ r :: back).map fun r => (k.sleeping r).thread).count t = 1)
    (here : (k.sleeping r).thread = t) : k.Record t front r back := by
  simp only [List.map_append, List.map_cons, List.count_append, here, List.count_cons_self] at once
  have mine : ∀ x (xs : List Nat), x ∈ xs → (k.sleeping x).thread = t →
      0 < (xs.map fun r => (k.sleeping r).thread).count t :=
    fun x xs hx e => List.count_pos_iff.mpr (e ▸ List.mem_map_of_mem hx)
  refine ⟨here, fun x hx e => ?_, fun x hx e => ?_⟩
  · have := mine x front hx e
    omega
  · have := mine x back hx e
    omega

/-- The thread `t` has just one record in the sleeping list. -/
theorem record_split {recs : List Nat}
    (once : (recs.map fun r => (k.sleeping r).thread).count t = 1) :
    ∃ front r back, recs = front ++ r :: back ∧ k.Record t front r back := by
  obtain ⟨r, hr, here⟩ := List.mem_map.mp (List.count_pos_iff.mp (once ▸ Nat.one_pos))
  obtain ⟨front, back, rfl⟩ := List.append_of_mem hr
  exact ⟨front, r, back, rfl, record_of_once once here⟩

theorem Kernel.Record.others (h : k.Record t front r back) :
    (front ++ r :: back).filter (fun x => (k.sleeping x).thread ≠ t) = front ++ back := by
  rw [List.filter_append, List.filter_cons_of_neg (by simpa using h.here),
    List.filter_eq_self.mpr (by simpa using h.before),
    List.filter_eq_self.mpr (by simpa using h.after)]

theorem others_entries {xs : List Nat} (h : ∀ x ∈ xs, (k.sleeping x).thread ≠ t) :
    ∀ x ∈ entries k.sleeping xs, x.1 ≠ t := by
  simpa [entries] using h

/-- The loop of `__scheduler_remove_timeout` stops at the record of the thread. -/
theorem removeTimeoutSearch_spec (front : List Nat) : ∀ (seen : List Nat) (x : Nat) (fuel : Nat),
    IsRing k.sleepLinks k.scheduler.sleepingThreads (seen ++ x :: (front ++ r :: back)) →
    (∀ y ∈ x :: front, (k.sleeping y).thread ≠ t) → (k.sleeping r).thread = t →
    front.length + 1 < fuel → removeTimeoutSearch k t fuel x = .ok r := by
  induction front with
  | nil =>
    intro seen x fuel ring before here len
    obtain ⟨fuel, rfl⟩ : ∃ n, fuel = n + 2 := ⟨fuel - 2, by simp at len; omega⟩
    have next : k.sleepLinks.next x = r := ring.next_eq
    have moved : k.sleepLinks.next x ≠ k.scheduler.sleepingThreads :=
      ring.next_eq_head.not.mpr (by simp)
    simp only [removeTimeoutSearch, before x List.mem_cons_self, ne_eq, not_false_eq_true, moved,
      and_self, ↓reduceIte]
    simp only [next, here, not_true_eq_false, false_and, ↓reduceIte]
    rfl
  | cons y front ih =>
    intro seen x fuel ring before here len
    obtain ⟨fuel, rfl⟩ : ∃ n, fuel = n + 1 := ⟨fuel - 1, by simp at len; omega⟩
    have next : k.sleepLinks.next x = y := ring.next_eq
    have moved : k.sleepLinks.next x ≠ k.scheduler.sleepingThreads :=
      ring.next_eq_head.not.mpr (by simp)
    rw [next] at moved
    simp only [removeTimeoutSearch, before x List.mem_cons_self, ne_eq, not_false_eq_true, next,
      moved, and_self, ↓reduceIte]
    exact ih (seen ++ [x]) y fuel (by simpa using ring)
      (fun z hz => before z (List.mem_cons_of_mem x hz)) here (by simpa using len)

/-- The search from the head of the list. -/
theorem removeTimeoutSearch_head (ring : IsRing k.sleepLinks k.scheduler.sleepingThreads
    (front ++ r :: back)) (record : k.Record t front r back) {fuel : Nat}
    (len : front.length < fuel) :
    removeTimeoutSearch k t fuel k.scheduler.sleepingThreads = .ok r := by
  cases front with
  | nil =>
    obtain ⟨fuel, rfl⟩ := Nat.exists_eq_add_one.mpr len
    simp only [removeTimeoutSearch, ring.head_eq, record.here, ne_eq, not_true_eq_false, false_and,
      ↓reduceIte]
    rfl
  | cons x front =>
    rw [ring.head_eq]
    exact removeTimeoutSearch_spec front [] x fuel ring record.before record.here
      (by simpa using len)

end

/-! ## What is left -/

/-- The sleeping list is that of `k` without the records of `t`, which are freed;
the heap holds the other records and `live`. -/
structure Kernel.Cancelled (k k' : Kernel) (recs : List Nat) (live : Multiset (Nat × Nat))
    (t : Nat) : Prop where
  ring : IsRing k'.sleepLinks k'.scheduler.sleepingThreads
    (recs.filter fun r => (k.sleeping r).thread ≠ t)
  times : times 0 (entries k'.sleeping (recs.filter fun r => (k.sleeping r).thread ≠ t)) =
    (times 0 (entries k.sleeping recs)).filter (·.1 ≠ t)
  holds : k'.heap.Holds
    (recordBlocks (recs.filter fun r => (k.sleeping r).thread ≠ t) + live)

/-- Handing the time of a removed record to the next one. -/
theorem entries_removed {f : Nat → SleepingThread} (f' : Nat → SleepingThread)
    {front back : List Nat} {d : Nat}
    (nodup : (front ++ back).Nodup)
    (next : ∀ y ∈ back.head?, f' y = { f y with delta := (f y).delta + d })
    (others : ∀ x ∈ front ++ back, (∀ y ∈ back.head?, x ≠ y) → f' x = f x) :
    entries f' (front ++ back) = entries f front ++ lengthen d (entries f back) := by
  obtain ⟨-, nodup', apart⟩ := List.nodup_append.mp nodup
  have before : entries f' front = entries f front := entries_congr fun x hx =>
    others x (by simp [hx]) fun y hy => apart x hx y (List.mem_of_mem_head? hy)
  rw [entries_append, before]
  cases back with
  | nil => rfl
  | cons y ys =>
    have after : entries f' ys = entries f ys := entries_congr fun x hx =>
      others x (by simp [hx]) fun z hz => by
        obtain rfl := Option.some.inj hz
        rintro rfl
        exact (List.nodup_cons.mp nodup').1 hx
    rw [entries_cons, after, next y rfl]
    rfl

section
variable {k : Kernel} {recs : List Nat} {live : Multiset (Nat × Nat)} {t : Nat}

/-- The heap after the record is freed. -/
theorem free_record {k : Kernel} {front back : List Nat} {r : Nat}
    (holds : k.heap.Holds (recordBlocks (front ++ r :: back) + live)) :
    ∃ h', freeOrPanic k r sleepingFreeFailed = .ok { k with heap := h' } ∧ k.heap.Within h' ∧
      h'.Holds (recordBlocks (front ++ back) + live) := by
  have perm : recordBlocks (front ++ r :: back) = recordBlocks (r :: (front ++ back)) :=
    congrArg (Multiset.map _) (Quotient.sound List.perm_middle)
  rw [perm, recordBlocks_cons, Multiset.cons_add] at holds
  exact freeOrPanic_spec holds _

/-- What the code changes when it takes a record off the list. -/
def Kernel.SleepersOnly (k k' : Kernel) : Prop :=
  k' = { k with
    heap := k'.heap, sleeping := k'.sleeping, sleepLinks := k'.sleepLinks
    scheduler := { k.scheduler with sleepingThreads := k'.scheduler.sleepingThreads } }

/-- **The only record.** -/
theorem schedulerRemoveTimeout_alone {r : Nat} (alarms : k.Alarms [r])
    (holds : k.heap.Holds (recordBlocks [r] + live)) (here : (k.sleeping r).thread = t) :
    ∃ k', schedulerRemoveTimeout k t = .ok k' ∧ k.SleepersOnly k' ∧ k.heap.Within k'.heap ∧
      k.Cancelled k' [r] live t ∧ ∀ x, k'.sleeping x = k.sleeping x := by
  obtain ⟨h', eq, within, holds'⟩ := @free_record _ _ [] _ _ holds
  have head := alarms.ring.head_eq
  have nonzero : k.scheduler.sleepingThreads ≠ 0 := fun e =>
    alarms.ring.not_null (by simp [← head, e])
  have alone : k.sleepLinks.next k.scheduler.sleepingThreads = k.scheduler.sleepingThreads := by
    rw [head]
    exact alarms.ring.next_first
  refine ⟨{ k with heap := h', scheduler := { k.scheduler with sleepingThreads := 0 } }, ?_, rfl,
    within, ⟨?_, ?_, ?_⟩, fun _ => rfl⟩
  · unfold schedulerRemoveTimeout
    rw [head] at nonzero alone ⊢
    simp only [nonzero, ↓reduceIte, alone, here, ne_eq, not_true_eq_false, bind, Except.bind,
      eq, pure, Except.pure]
  · simp [here, IsRing]
  · simp [here, times]
  · simpa [here] using holds'

/-- A list of two records or more is searched. -/
theorem schedulerRemoveTimeout_search {front back : List Nat} {r : Nat}
    (ring : IsRing k.sleepLinks k.scheduler.sleepingThreads (front ++ r :: back))
    (record : k.Record t front r back) (several : front ++ back ≠ [])
    (len : front.length ≤ k.heap.nMemBlocks) :
    schedulerRemoveTimeout k t =
      if k.sleepLinks.next r = k.scheduler.sleepingThreads then
        freeOrPanic { k with sleepLinks := k.sleepLinks.unlink r } r sleepingFreeFailed
      else freeOrPanic { k.modifySleeping (k.sleepLinks.next r) fun s =>
          { s with delta := u64 (s.delta + (k.sleeping r).delta) } with
        sleepLinks := k.sleepLinks.unlink r } r sleepingFreeFailed := by
  have nonzero : k.scheduler.sleepingThreads ≠ 0 := fun e => by
    simpa using ring.head_null.mp e
  have more : k.sleepLinks.next k.scheduler.sleepingThreads ≠ k.scheduler.sleepingThreads := by
    cases front with
    | nil =>
      have head : k.scheduler.sleepingThreads = r := ring.head_eq
      have apart := ring.next_eq_head.not.mpr (show back ≠ [] by simpa using several)
      rwa [← head] at apart
    | cons x front =>
      have head : k.scheduler.sleepingThreads = x := ring.head_eq
      have apart := ring.first_only.not.mpr (by simp)
      rwa [← head] at apart
  have search := removeTimeoutSearch_head ring record
    (by omega : front.length < k.heap.nMemBlocks + 1)
  have here := record.here
  unfold schedulerRemoveTimeout
  simp only [nonzero, ↓reduceIte, more, search, bind, Except.bind, here, ne_eq, not_true_eq_false]
  rfl

/-- **The last record**, behind the head. -/
theorem schedulerRemoveTimeout_last {front : List Nat} {r : Nat} (alarms : k.Alarms (front ++ [r]))
    (holds : k.heap.Holds (recordBlocks (front ++ [r]) + live)) (record : k.Record t front r [])
    (behind : front ≠ []) (len : front.length ≤ k.heap.nMemBlocks) :
    ∃ k', schedulerRemoveTimeout k t = .ok k' ∧ k.SleepersOnly k' ∧ k.heap.Within k'.heap ∧
      k.Cancelled k' (front ++ [r]) live t ∧ k'.sleeping = k.sleeping := by
  obtain ⟨h', eq, within, holds'⟩ :=
    free_record (k := { k with sleepLinks := k.sleepLinks.unlink r }) holds
  have last : k.sleepLinks.next r = k.scheduler.sleepingThreads :=
    alarms.ring.next_eq_head.mpr rfl
  refine ⟨{ k with heap := h', sleepLinks := k.sleepLinks.unlink r }, ?_, rfl, within,
    ⟨?_, ?_, ?_⟩, rfl⟩
  · rw [schedulerRemoveTimeout_search alarms.ring record (by simpa using behind) len, if_pos last]
    exact eq
  · rw [record.others]
    exact ring_unlink alarms.ring behind
  · have left := @times_remove _ _ _ [] _ (k.sleeping r).delta
      (others_entries record.before) (by simp)
    rw [lengthen, List.append_nil] at left
    rw [record.others, List.append_nil, entries_append _ front [r], entries_cons _ r, record.here]
    exact left
  · rwa [record.others]

/-- A record with another one behind it. -/
theorem schedulerRemoveTimeout_next {front ys : List Nat} {r y : Nat}
    (alarms : k.Alarms (front ++ r :: y :: ys))
    (holds : k.heap.Holds (recordBlocks (front ++ r :: y :: ys) + live))
    (record : k.Record t front r (y :: ys)) (len : front.length ≤ k.heap.nMemBlocks) :
    ∃ h', schedulerRemoveTimeout k t = .ok { k with
        heap := h'
        sleeping := update k.sleeping y { k.sleeping y with
          delta := (k.sleeping y).delta + (k.sleeping r).delta }
        sleepLinks := k.sleepLinks.unlink r } ∧ k.heap.Within h' ∧
      h'.Holds (recordBlocks (front ++ y :: ys) + live) := by
  have span := alarms.span_lt
  simp only [entries_append, entries_cons, span_append, span_cons] at span
  have sum : u64 ((k.sleeping y).delta + (k.sleeping r).delta : Nat) =
      (k.sleeping y).delta + (k.sleeping r).delta := u64_natCast (by omega)
  push_cast at sum
  have next : k.sleepLinks.next r = y := alarms.ring.next_eq
  have notLast : k.sleepLinks.next r ≠ k.scheduler.sleepingThreads :=
    alarms.ring.next_eq_head.not.mpr (by simp)
  obtain ⟨h', eq, within, holds'⟩ := free_record (k := { k with
    sleeping := update k.sleeping y { k.sleeping y with
      delta := (k.sleeping y).delta + (k.sleeping r).delta }
    sleepLinks := k.sleepLinks.unlink r }) holds
  refine ⟨h', ?_, within, holds'⟩
  rw [schedulerRemoveTimeout_search alarms.ring record (by simp) len, if_neg notLast]
  simp only [next, Kernel.modifySleeping, sum]
  exact eq

/-- **A record inside the list.** -/
theorem schedulerRemoveTimeout_inside {front ys : List Nat} {r y : Nat}
    (alarms : k.Alarms (front ++ r :: y :: ys))
    (holds : k.heap.Holds (recordBlocks (front ++ r :: y :: ys) + live))
    (record : k.Record t front r (y :: ys)) (behind : front ≠ [])
    (len : front.length ≤ k.heap.nMemBlocks) :
    ∃ k', schedulerRemoveTimeout k t = .ok k' ∧ k.SleepersOnly k' ∧ k.heap.Within k'.heap ∧
      k.Cancelled k' (front ++ r :: y :: ys) live t ∧
      ∀ x, (k'.sleeping x).thread = (k.sleeping x).thread ∧
        (k'.sleeping x).semaphore = (k.sleeping x).semaphore := by
  obtain ⟨h', eq, within, holds'⟩ := schedulerRemoveTimeout_next alarms holds record len
  have nodup : (front ++ y :: ys).Nodup :=
    (List.nodup_middle.mp alarms.ring.nodup).of_cons
  refine ⟨_, eq, rfl, within, ⟨?_, ?_, ?_⟩, fun x => ?_⟩
  · rw [record.others]
    exact ring_unlink alarms.ring behind
  · have left := entries_removed (d := (k.sleeping r).delta) (f := k.sleeping)
      (update k.sleeping y { k.sleeping y with
        delta := (k.sleeping y).delta + (k.sleeping r).delta }) nodup (fun z hz => by
        obtain rfl := Option.some.inj hz
        exact update_self ..) fun x _ other => update_of_ne (other y rfl) ..
    rw [record.others, entries_append _ front (r :: y :: ys), entries_cons _ r, record.here]
    exact (congrArg (times 0) left).trans (times_remove (others_entries record.before)
      (others_entries record.after))
  · rwa [record.others]
  · show (update k.sleeping y _ x).thread = _ ∧ (update k.sleeping y _ x).semaphore = _
    rw [update_apply]
    split
    · next e => exact ⟨by rw [e], by rw [e]⟩
    · exact ⟨rfl, rfl⟩

theorem records_length_le (holds : k.heap.Holds (recordBlocks recs + live)) :
    recs.length ≤ k.heap.nMemBlocks := by
  have := holds.card_le
  simp only [recordBlocks, Multiset.card_add, Multiset.card_map, Multiset.coe_card] at this
  omega

/-- **Removing a record** that is alone or not at the head. -/
theorem schedulerRemoveTimeout_spec (alarms : k.Alarms recs)
    (holds : k.heap.Holds (recordBlocks recs + live))
    (once : (recs.map fun r => (k.sleeping r).thread).count t = 1)
    (fits : ∀ r ∈ recs.head?, (k.sleeping r).thread = t → recs = [r]) :
    ∃ k', schedulerRemoveTimeout k t = .ok k' ∧ k.SleepersOnly k' ∧ k.heap.Within k'.heap ∧
      k.Cancelled k' recs live t ∧
      ∀ x, (k'.sleeping x).thread = (k.sleeping x).thread ∧
        (k'.sleeping x).semaphore = (k.sleeping x).semaphore := by
  obtain ⟨front, r, back, rfl, record⟩ := record_split once
  have len : front.length ≤ k.heap.nMemBlocks := by
    have := records_length_le holds
    simp only [List.length_append] at this
    omega
  cases front with
  | nil =>
    obtain rfl : back = [] := by simpa using fits r rfl record.here
    obtain ⟨k', eq, only, within, cancelled, same⟩ :=
      schedulerRemoveTimeout_alone alarms holds record.here
    exact ⟨k', eq, only, within, cancelled, fun x => by simp [same]⟩
  | cons x front =>
    cases back with
    | nil =>
      obtain ⟨k', eq, only, within, cancelled, same⟩ :=
        schedulerRemoveTimeout_last alarms holds record (by simp) len
      exact ⟨k', eq, only, within, cancelled, fun x => by simp [same]⟩
    | cons y ys => exact schedulerRemoveTimeout_inside alarms holds record (by simp) len

/-- A record at the head with another one behind it leaves the head pointer dangling. -/
theorem schedulerRemoveTimeout_dangles {r y : Nat} {ys : List Nat}
    (alarms : k.Alarms (r :: y :: ys)) (holds : k.heap.Holds (recordBlocks (r :: y :: ys) + live))
    (once : ((r :: y :: ys).map fun r => (k.sleeping r).thread).count t = 1)
    (here : (k.sleeping r).thread = t) :
    ∃ k', schedulerRemoveTimeout k t = .ok k' ∧ k'.scheduler.sleepingThreads = r ∧
      k'.heap.Holds (recordBlocks (y :: ys) + live) := by
  obtain ⟨h', eq, -, holds'⟩ := schedulerRemoveTimeout_next alarms holds
    (@record_of_once _ [] _ _ _ once here) (Nat.zero_le _)
  exact ⟨_, eq, alarms.ring.head_eq, holds'⟩

/-! ## Signalling a timed waiter -/

/-- A signal on the semaphore `s` cancels the timeout of the thread `t` and
nothing else of the sleeping list `recs`. -/
def Kernel.SignalCancels (k : Kernel) (recs : List Nat) (live : Multiset (Nat × Nat))
    (s t : Nat) : Prop :=
  ∃ k', semSignal k s = .ok (0, k') ∧ k.Cancelled k' recs live t

/-- `__sem_signal` up to the search for the timeout of the thread it wakes. -/
def Kernel.taken (k : Kernel) (s : Nat) : Kernel := (semNext (k.signalled s) s).2

/-- A signal that leaves `val` at 0 or below wakes the first waiting thread. -/
theorem semSignal_wakes {s t : Nat} {ws : List Nat}
    (waiting : IsRing k.links (k.sem s).waitingThreads (t :: ws))
    (below : toI32 ((k.sem s).val + 1) ≤ 0) :
    semSignal k s = (if (k.thread t).timeLeft = 0 then schedulerRemoveTimeout (k.taken s) t
      else .ok (k.taken s)) >>= fun k =>
        .ok (0, schedulerPush (k.setContext (k.thread t).sp regA0 0) t) := by
  have head : ((k.signalled s).sem s).waitingThreads = t := by
    rw [signalled_sem]
    exact waiting.head_eq
  have nonzero : t ≠ 0 := fun e => waiting.not_null (by simp [e])
  have unblock : semUnblockThread (k.signalled s) s =
      (if (k.thread t).timeLeft = 0 then schedulerRemoveTimeout (k.taken s) t
        else .ok (k.taken s)) >>= fun k =>
          .ok (schedulerPush (k.setContext (k.thread t).sp regA0 0) t) := by
    have first : (semNext (k.signalled s) s).1 = t := head
    unfold semUnblockThread
    rw [first]
    by_cases timed : (k.thread t).timeLeft = 0
    · have flag : ((semNext (k.signalled s) s).2.thread t).timeLeft = 0 := timed
      simp only [flag, timed, ↓reduceIte]
      rfl
    · have flag : ((semNext (k.signalled s) s).2.thread t).timeLeft ≠ 0 := timed
      simp only [flag, timed, ↓reduceIte]
      rfl
  rw [semSignal_run, if_pos below, waiting.head_eq, if_neg nonzero, unblock]
  split
  · cases schedulerRemoveTimeout (k.taken s) t <;> rfl
  · rfl

theorem semSignal_timed {s t : Nat} {ws : List Nat}
    (waiting : IsRing k.links (k.sem s).waitingThreads (t :: ws))
    (below : toI32 ((k.sem s).val + 1) ≤ 0) (timed : (k.thread t).timeLeft = 0) :
    semSignal k s = schedulerRemoveTimeout (k.taken s) t >>= fun k =>
      .ok (0, schedulerPush (k.setContext (k.thread t).sp regA0 0) t) := by
  rw [semSignal_wakes waiting below, if_pos timed]

/-- With the record of `t` at the head and another one behind it, the list that
is left still starts at the freed record. -/
theorem signal_dangles {s r y : Nat} {ws ys : List Nat} (alarms : k.Alarms (r :: y :: ys))
    (holds : k.heap.Holds (recordBlocks (r :: y :: ys) + live))
    (once : ((r :: y :: ys).map fun r => (k.sleeping r).thread).count t = 1)
    (here : (k.sleeping r).thread = t)
    (waiting : IsRing k.links (k.sem s).waitingThreads (t :: ws))
    (below : toI32 ((k.sem s).val + 1) ≤ 0) (timed : (k.thread t).timeLeft = 0) :
    ¬ k.SignalCancels (r :: y :: ys) live s t := by
  rintro ⟨k', eq, cancelled⟩
  obtain ⟨k₁, removed, dangling, -⟩ := @schedulerRemoveTimeout_dangles (k.taken s) live _ _ _ _
    ⟨alarms.ring, alarms.range⟩ holds once here
  rw [semSignal_timed waiting below timed, removed] at eq
  obtain rfl : _ = k' := congrArg Prod.snd (Except.ok.inj eq)
  have others := (@record_of_once _ [] _ _ _ once here).others
  rw [List.nil_append, List.nil_append] at others
  have ring := cancelled.ring
  rw [others] at ring
  have head : k₁.scheduler.sleepingThreads = y := ring.head_eq
  have nodup := alarms.ring.nodup
  rw [← dangling, head] at nodup
  simp at nodup

end

/-- **When a signal cancels a timeout.** -/
theorem signal_cancels_iff {k : Kernel} {recs ws : List Nat} {live : Multiset (Nat × Nat)}
    {s t : Nat} (alarms : k.Alarms recs) (holds : k.heap.Holds (recordBlocks recs + live))
    (once : (recs.map fun r => (k.sleeping r).thread).count t = 1)
    (waiting : IsRing k.links (k.sem s).waitingThreads (t :: ws))
    (below : toI32 ((k.sem s).val + 1) ≤ 0) (timed : (k.thread t).timeLeft = 0) :
    k.SignalCancels recs live s t ↔
      ∀ r ∈ recs.head?, (k.sleeping r).thread = t → recs = [r] := by
  constructor
  · intro cancels r head here
    obtain ⟨rest, rfl⟩ := List.head?_eq_some_iff.mp head
    cases rest with
    | nil => rfl
    | cons y ys =>
      exact absurd cancels (signal_dangles alarms holds once here waiting below timed)
  · intro fits
    obtain ⟨k₁, removed, only, -, cancelled, -⟩ := schedulerRemoveTimeout_spec (k := k.taken s)
      ⟨alarms.ring, alarms.range⟩ holds once fits
    refine ⟨schedulerPush (k₁.setContext (k₁.thread t).sp regA0 0) t, ?_, cancelled.ring,
      cancelled.times, cancelled.holds⟩
    rw [semSignal_timed waiting below timed, removed]
    rfl

/-- A kernel whose sleeping list has a record of thread 8 at `p` and one of
thread 24 at `q`; the thread `t` is in a timed wait on the semaphore 16. -/
def pairKernel (h : Heap) (p q t : Nat) : Kernel :=
  { quietKernel h with
    links := ⟨fun _ => t, fun _ => t⟩
    sleeping := fun x =>
      if x = p then ⟨8, if t = 8 then 16 else 0, 5⟩ else ⟨24, if t = 24 then 16 else 0, 5⟩
    sleepLinks := ⟨fun x => if x = p then q else p, fun x => if x = p then q else p⟩
    sem := fun _ => ⟨-1, 0, t⟩
    scheduler := ⟨0, 0, p, 0, 0⟩ }

theorem pair_run : ∃ h p q, HeapRun smallHeap h [(q, 1), (p, 1)] := by
  obtain ⟨p, h, run⟩ := small_more (.init rfl) (by decide)
  obtain ⟨q, h', run'⟩ := small_more run (by simp)
  exact ⟨h', p, q, run'⟩

theorem pair_alarms {h : Heap} {p q : Nat} (run : HeapRun smallHeap h [(q, 1), (p, 1)]) (t : Nat) :
    (pairKernel h p q t).Alarms [p, q] ∧ p ≠ q ∧
      h.Holds (recordBlocks [p, q] + 0) := by
  obtain ⟨holds, -⟩ := run.holds smallHeap_fresh
  obtain ⟨nodup, pos⟩ := holds.starts
  have apart : p ≠ q := fun e => by simp [e] at nodup
  have p₀ := pos (p, 1) (by simp)
  have q₀ := pos (q, 1) (by simp)
  refine ⟨⟨⟨rfl, ?_, ?_, ?_⟩, ?_⟩, apart, ?_⟩
  · simp [pairKernel, Intrusive.Path, apart.symm]
  · simpa using apart
  · simp only [List.mem_cons, List.not_mem_nil, or_false, not_or]
    exact ⟨p₀.ne, q₀.ne⟩
  · simp [pairKernel, times, apart.symm]
  · have blocks : (([(q, 1), (p, 1)] : List (Nat × Nat)) : Multiset (Nat × Nat)) =
        recordBlocks [p, q] + 0 := Multiset.pair_comm (q, 1) (p, 1)
    rwa [← blocks]

theorem pair_waiting (h : Heap) (p q : Nat) {t : Nat} (nonzero : t ≠ 0) :
    IsRing (pairKernel h p q t).links ((pairKernel h p q t).sem 16).waitingThreads [t] ∧
      toI32 (((pairKernel h p q t).sem 16).val + 1) ≤ 0 :=
  ⟨⟨rfl, ⟨rfl, rfl⟩, by simp, by simpa using nonzero.symm⟩, show toI32 (-1 + 1) ≤ 0 by decide⟩

/-- Thread 24 is behind the head. -/
theorem signal_cancels_iff_small : ∃ h p q, HeapRun smallHeap h [(q, 1), (p, 1)] ∧
    (pairKernel h p q 24).SignalCancels [p, q] 0 16 24 := by
  obtain ⟨h, p, q, run⟩ := pair_run
  obtain ⟨alarms, apart, holds⟩ := pair_alarms run 24
  obtain ⟨waiting, below⟩ := pair_waiting h p q (t := 24) (by decide)
  refine ⟨h, p, q, run, (signal_cancels_iff alarms holds ?_ waiting below rfl).mpr ?_⟩
  · simp [pairKernel, apart.symm]
  · simp [pairKernel]

/-- Thread 8 is at the head, and the list keeps its freed record. -/
theorem signal_leaves_freed_head : ∃ h p q, HeapRun smallHeap h [(q, 1), (p, 1)] ∧
    (pairKernel h p q 8).Alarms [p, q] ∧ ¬ (pairKernel h p q 8).SignalCancels [p, q] 0 16 8 := by
  obtain ⟨h, p, q, run⟩ := pair_run
  obtain ⟨alarms, apart, holds⟩ := pair_alarms run 8
  obtain ⟨waiting, below⟩ := pair_waiting h p q (t := 8) (by decide)
  refine ⟨h, p, q, run, alarms, signal_dangles alarms holds ?_ ?_ waiting below rfl⟩
  · simp [pairKernel, apart.symm]
  · simp [pairKernel]

end RiscvKernel
