import RiscvKernel.Cancel
import RiscvKernel.Whereabouts

/-!
# Timed waits that do not block

`__sem_timed_wait` sets `time_left` to 0 and puts a record into the sleeping
list before it tries the semaphore, and nothing takes them back when the
semaphore is free.

* `timed_wait_never_clean`: no such wait leaves the sleeping list and the time
  slice as they were.
-/

namespace RiscvKernel
open Function Intrusive Placement DeltaList

/-! ## What `__scheduler_timeout` leaves alone -/

theorem newSleeping_only {k k' : Kernel} {th s d r : Nat}
    (ran : newSleeping k th s d = .ok (r, k')) :
    k' = { k with heap := k'.heap, sleeping := update k.sleeping r ⟨th, s, d⟩ } := by
  unfold newSleeping Kernel.alloc at ran
  obtain ⟨⟨p, k₁⟩, alloc, ran⟩ := ok_bind ran
  obtain ⟨⟨p', h⟩, -, alloc⟩ := ok_bind alloc
  cases alloc
  by_cases null : p = 0
  · simp only [null, ↓reduceIte] at ran
    cases ran
  · simp only [null, ↓reduceIte] at ran
    cases ran
    rfl

/-- Whatever the state, `__scheduler_timeout` changes only the sleeping list and the heap. -/
theorem schedulerTimeout_only {k k' : Kernel} {th time s : Nat}
    (ran : schedulerTimeout k th time s = .ok k') : k.SleepersOnly k' := by
  unfold schedulerTimeout at ran
  by_cases empty : k.scheduler.sleepingThreads = 0
  · simp only [empty, ↓reduceIte] at ran
    obtain ⟨⟨r, k₁⟩, new, ran⟩ := ok_bind ran
    have only := newSleeping_only new
    cases ran
    rw [only]
    rfl
  · simp only [empty, ↓reduceIte] at ran
    split at ran
    · obtain ⟨⟨r, k₁⟩, new, ran⟩ := ok_bind ran
      have only := newSleeping_only new
      cases ran
      rw [only]
      rfl
    · obtain ⟨⟨node, delta⟩, -, ran⟩ := ok_bind ran
      obtain ⟨⟨r, k₁⟩, new, ran⟩ := ok_bind ran
      have only := newSleeping_only new
      dsimp only at ran
      split at ran <;> (cases ran; rw [only]; rfl)

/-! ## The fast path -/

/-- A timed wait of the current thread succeeds at once and leaves no timeout
behind: it takes one unit, the sleeping list has the records and the remaining
times it had, and the thread still has a time slice. -/
def Kernel.SucceedsCleanly (k : Kernel) (s time : Nat) : Prop :=
  ∃ k', semTimedWait k s time = .ok (0, k') ∧
    (k'.sem s).val = (k.sem s).val - 1 ∧
    k'.scheduler.threadCurrent = k.scheduler.threadCurrent ∧
    k'.links = k.links ∧
    (∀ recs, IsRing k.sleepLinks k.scheduler.sleepingThreads recs →
      IsRing k'.sleepLinks k'.scheduler.sleepingThreads recs ∧
        times 0 (entries k'.sleeping recs) = times 0 (entries k.sleeping recs)) ∧
    0 < (k'.thread k.scheduler.threadCurrent).timeLeft

/-- The current thread with the mark of a timed wait. -/
def Kernel.marked (k : Kernel) : Kernel :=
  k.modifyThread k.scheduler.threadCurrent fun t => { t with timeLeft := 0 }

/-- What a timed wait on a free semaphore does. -/
theorem semTimedWait_free {k k' : Kernel} {s time : Nat} {r : Int} (free : 0 < (k.sem s).val)
    (range : (k.sem s).val < 2 ^ 31) (ran : semTimedWait k s time = .ok (r, k')) :
    ∃ k₁, schedulerTimeout k.marked k.scheduler.threadCurrent time s = .ok k₁ ∧
      r = 0 ∧ k' = k₁.waited s := by
  unfold semTimedWait at ran
  obtain ⟨k₁, timeout, ran⟩ := ok_bind ran
  have only : k₁ = _ := schedulerTimeout_only timeout
  have sem : (k₁.sem s).val = (k.sem s).val := by
    rw [only]
    rfl
  have above : ¬ toI32 ((k₁.sem s).val - 1) < 0 := by
    rw [sem, toI32_eq] <;> omega
  have wait : semWait k₁ s = (0, k₁.waited s) := (semWait_run k₁ s).trans (if_neg above)
  have ran : Except.ok (semWait k₁ s) = .ok (r, k') := ran
  rw [wait] at ran
  cases ran
  exact ⟨k₁, timeout, rfl, rfl⟩

/-- The thread that goes on running has the mark of a timed wait. -/
theorem timed_wait_marks {k k' : Kernel} {s time : Nat} {r : Int} (free : 0 < (k.sem s).val)
    (range : (k.sem s).val < 2 ^ 31) (ran : semTimedWait k s time = .ok (r, k')) :
    (k'.thread k.scheduler.threadCurrent).timeLeft = 0 := by
  obtain ⟨k₁, timeout, -, rfl⟩ := semTimedWait_free free range ran
  have only : k₁ = _ := schedulerTimeout_only timeout
  rw [only]
  simp [Kernel.waited, Kernel.note, Kernel.modifySem, Kernel.marked, Kernel.modifyThread]

/-- **The stale record.** The thread that goes on running has an alarm for the semaphore. -/
theorem timed_wait_leaves_record {k : Kernel} {recs : List Nat} {live : Multiset (Nat × Nat)}
    {s : Nat} (time : Nat) (alarms : k.Alarms recs)
    (holds : k.heap.Holds (recordBlocks recs + live))
    (room : k.heap.HasRoom (sizeInBlocks 40)) (pos : 1 ≤ time) (lt : time < 2 ^ 64)
    (free : 0 < (k.sem s).val) (range : (k.sem s).val < 2 ^ 31) :
    ∃ k' p front back, semTimedWait k s time = .ok (0, k') ∧ recs = front ++ back ∧
      k'.Alarms (front ++ p :: back) ∧ (k'.sleeping p).semaphore = s ∧
      (k.scheduler.threadCurrent, time) ∈ times 0 (entries k'.sleeping (front ++ p :: back)) := by
  obtain ⟨k₁, p, front, back, timeout, put, -, -⟩ := schedulerTimeout_spec (k := k.marked)
    ⟨alarms.ring, alarms.range⟩ holds (fun r hr => by simp [recordBlocks, hr])
    (records_length_le holds) room pos lt k.scheduler.threadCurrent s
  have run : semTimedWait k s time = .ok (semWait k₁ s) := by
    unfold semTimedWait
    show schedulerTimeout k.marked _ _ _ >>= _ = _
    rw [timeout]
    rfl
  generalize semWait k₁ s = waited at run
  obtain ⟨r, k'⟩ := waited
  obtain ⟨k₂, again, rfl, rfl⟩ := semTimedWait_free free range run
  obtain rfl : k₁ = k₂ := Except.ok.inj (timeout.symm.trans again)
  obtain ⟨early, late, -, new⟩ := put.times
  refine ⟨k₁.waited s, p, front, back, run, put.split, ⟨put.alarms.ring, put.alarms.range⟩,
    put.semaphore, ?_⟩
  show _ ∈ times 0 (entries k₁.sleeping (front ++ p :: back))
  rw [new]
  simp

/-- **No timed wait that succeeds at once is clean.** -/
theorem timed_wait_never_clean {k : Kernel} {s : Nat} (free : 0 < (k.sem s).val)
    (range : (k.sem s).val < 2 ^ 31) (time : Nat) : ¬ k.SucceedsCleanly s time := by
  rintro ⟨k', ran, -, -, -, -, slice⟩
  have := timed_wait_marks free range ran
  omega

theorem timed_wait_never_clean_small : ∃ k b p s, FirstUser smallKernel k b p ∧
    k.hist.opened = [s] ∧
    ¬ k.SucceedsCleanly s 5 := by
  obtain ⟨k, b, p, s, user, opened, val, -⟩ := small_open 1 (by decide)
  exact ⟨k, b, p, s, user, opened, timed_wait_never_clean (by omega) (by omega) 5⟩

/-- A semaphore that is opened with one unit and waited on for five ticks. -/
theorem timed_wait_not_clean : ∃ k b p s k', FirstUser smallKernel k b p ∧ k.hist.opened = [s] ∧
    (k.sem s).val = 1 ∧ semTimedWait k s 5 = .ok (0, k') ∧ (k'.thread p).timeLeft = 0 ∧
    (∃ r, k'.Alarms [r] ∧ times 0 (entries k'.sleeping [r]) = [(p, 5)] ∧
      (k'.sleeping r).semaphore = s) ∧ ¬ k.SucceedsCleanly s 5 := by
  obtain ⟨k, b, p, s, user, opened, val, -⟩ := small_open 1 (by decide)
  have inv := user.rest.inv
  have free : 0 < (k.sem s).val := by omega
  have range : (k.sem s).val < 2 ^ 31 := by omega
  have room : k.heap.HasRoom (sizeInBlocks 40) := small_room inv user.start user.stop user.live
    user.userBlocks (by simp [opened])
  obtain ⟨k', r, front, back, ran, split, alarms, semaphore, mem⟩ := timed_wait_leaves_record
    (s := s) 5 ⟨inv.places.sleepers, inv.places.range⟩ inv.owns room (by decide)
    (by decide) free range
  obtain ⟨rfl, rfl⟩ := List.append_eq_nil_iff.mp split.symm
  have mark := timed_wait_marks free range ran
  rw [user.current] at mark mem
  refine ⟨k, b, p, s, k', user, opened, by omega, ran, mark, ⟨r, alarms, ?_, semaphore⟩, ?_⟩
  · simpa [times, eq_comm] using mem
  · rintro ⟨k₂, again, -, -, -, -, slice⟩
    have := timed_wait_marks free range again
    omega

end RiscvKernel
