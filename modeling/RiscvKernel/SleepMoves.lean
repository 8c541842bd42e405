import RiscvKernel.Sleep

/-!
# Sleeping and waking as moves

`tick_inv`: a tick moves the threads whose alarm is due to the end of the ready
queue. `sleep_inv`: the current thread goes to sleep and gives up the hart.
-/

namespace RiscvKernel
open Function Intrusive Placement DeltaList

/-- A sequence of pushes puts the threads at the end of the ready queue. -/
theorem pushAll_places {recs : List Nat} (ts : List Nat) : ∀ (k : Kernel) (b : Threads),
    k.view.Places b recs → (∀ t ∈ ts, b.loc t = none ∧ k.view.Thread t ∧ t ≠ 0) → ts.Nodup →
    ∃ b' : Threads, (pushAll k ts).view.Places b' recs ∧
      b'.queue = update b.queue .ready (b.queue .ready ++ ts) ∧
      ∀ t, b'.loc t = if t ∈ ts then some (.queue .ready) else b.loc t := by
  induction ts with
  | nil =>
    intro k b places _ _
    exact ⟨b, places, by simp, fun t => by simp⟩
  | cons t ts ih =>
    intro k b places free nodup
    obtain ⟨out, nodup'⟩ := List.nodup_cons.mp nodup
    obtain ⟨here, thread, nonzero⟩ := free t List.mem_cons_self
    have pushed := (places.setSlice (t := t) (n := defaultTimeSlice) (Or.inr rfl)).enqueue
      (i := .ready) trivial thread nonzero (fun _ => rfl) here
    rw [← schedulerPush_view] at pushed
    obtain ⟨b', places', queue, loc⟩ := ih _ _ pushed (fun s hs => by
      obtain ⟨hs₁, hs₂, hs₃⟩ := free s (List.mem_cons_of_mem t hs)
      have ne : s ≠ t := fun e => out (e ▸ hs)
      refine ⟨by simp [ne, hs₁], ?_, hs₃⟩
      rw [schedulerPush_view]
      exact hs₂) nodup'
    refine ⟨b', places', ?_, fun s => ?_⟩
    · rw [queue]
      simp
    · rw [loc s, Board.enqueue_loc, update_apply]
      by_cases hs : s = t
      · simp [hs]
      · simp [hs]

theorem pushAll_kept (k : Kernel) (ts : List Nat) : (pushAll k ts).view.kept = k.view.kept := by
  induction ts generalizing k with
  | nil => rfl
  | cons t ts ih =>
    rw [pushAll_cons, ih, schedulerPush_view]
    rfl

/-- What a sequence of pushes changes. -/
theorem pushAll_frame (k : Kernel) (ts : List Nat) : pushAll k ts = { k with
    thread := (pushAll k ts).thread
    links := (pushAll k ts).links
    scheduler := { k.scheduler with readyThreads := (pushAll k ts).scheduler.readyThreads }
    hist := { k.hist with pushed := k.hist.pushed ++ ts } } := by
  induction ts generalizing k with
  | nil => simp
  | cons t ts ih =>
    rw [pushAll_cons, ih (schedulerPush k t)]
    simp [schedulerPush, Kernel.modifyThread]

section
variable (k : Kernel) (ts : List Nat)

@[simp] theorem pushAll_heap : (pushAll k ts).heap = k.heap := by
  rw [pushAll_frame]
@[simp] theorem pushAll_sem : (pushAll k ts).sem = k.sem := by
  rw [pushAll_frame]
@[simp] theorem pushAll_console : (pushAll k ts).console = k.console := by
  rw [pushAll_frame]
@[simp] theorem pushAll_memory : (pushAll k ts).mem = k.mem := by
  rw [pushAll_frame]
@[simp] theorem pushAll_hart : (pushAll k ts).hart = k.hart := by
  rw [pushAll_frame]
@[simp] theorem pushAll_image : (pushAll k ts).image = k.image := by
  rw [pushAll_frame]
@[simp] theorem pushAll_current :
    (pushAll k ts).scheduler.threadCurrent = k.scheduler.threadCurrent := by
  rw [pushAll_frame]
@[simp] theorem pushAll_main :
    (pushAll k ts).scheduler.kernelMain = k.scheduler.kernelMain := by
  rw [pushAll_frame]
@[simp] theorem pushAll_hist :
    (pushAll k ts).hist = { k.hist with pushed := k.hist.pushed ++ ts } := by
  rw [pushAll_frame]

end

section
variable {k : Kernel} {b : Threads} {recs : List Nat}

theorem Kernel.Inv.sleepingState (inv : k.Inv b recs) : k.Sleeping recs k.view.kept :=
  ⟨⟨inv.places.sleepers, inv.places.range⟩, inv.places.untimed, inv.owns⟩

/-- The threads of the sleeping list are asleep on the board. -/
theorem View.Places.sleeper {v : View} (h : v.Places b recs) {r : Nat} (hr : r ∈ recs) :
    b.loc (v.sleeping r).thread = some (.spot (.asleep r)) := h.asleep.mpr ⟨hr, rfl⟩

theorem ticked_current {k₁ : Kernel} {gone left : List Nat} (ticked : k.Ticked k₁ recs gone left) :
    k₁.scheduler.threadCurrent = k.scheduler.threadCurrent := by
  rw [ticked.frame]
  exact pushAll_current ..

/-- **A tick.** -/
theorem tick_inv (inv : k.Inv b recs) : ∃ k' gone left b', schedulerTick k = .ok k' ∧
    k.Ticked k' recs gone left ∧ k'.Inv b' left ∧
    b'.queue = update b.queue .ready
      (b.queue .ready ++ gone.map fun r => (k.sleeping r).thread) := by
  have state := inv.sleepingState
  obtain ⟨k', gone, left, eq, ticked, -, holds'⟩ :=
    schedulerTick_spec state.alarms state.untimed state.holds state.length_le
  let ts := gone.map fun r => (k.sleeping r).thread
  have asleep : ∀ t ∈ ts, ∃ r ∈ gone, b.loc t = some (.spot (.asleep r)) ∧
      (k.sleeping r).thread = t := by
    intro t ht
    obtain ⟨r, hr, rfl⟩ := List.mem_map.mp ht
    exact ⟨r, hr, inv.places.sleeper (by simp [ticked.split, hr]), rfl⟩
  have nodupRecs := inv.places.sleepers.nodup
  rw [ticked.split] at nodupRecs
  have nodup : ts.Nodup := by
    refine List.Nodup.map_on (fun r hr r' hr' same => ?_) (List.nodup_append.mp nodupRecs).1
    have h := inv.places.sleeper (r := r) (by simp [ticked.split, hr])
    have h' := inv.places.sleeper (r := r') (by simp [ticked.split, hr'])
    have same : (k.view.sleeping r).thread = (k.view.sleeping r').thread := same
    rw [same, h'] at h
    simpa using h.symm
  -- the state with the records taken off, before the pushes
  let k₁ := { k with sleeping := k'.sleeping }.setSleepers k'.heap k'.sleepLinks
    k'.scheduler.sleepingThreads
  have frame : k' = pushAll k₁ ts := by
    rw [pushAll_setSleepers]
    exact ticked.frame
  have places₁ : k₁.view.Places (b.forget ts) left := by
    refine ⟨?_, ticked.alarms.ring, ?_, ?_, ticked.alarms.range, ?_, ?_, inv.places.slices,
      inv.places.count⟩
    · refine inv.places.rings.same_queues (Board.forget_queue_loose b fun t ht => ?_)
      obtain ⟨r, -, hr, -⟩ := asleep t ht
      exact Board.loose_of_spot hr
    · intro t r
      show (if t ∈ ts then none else b.loc t) = _ ↔ r ∈ left ∧ (k'.sleeping r).thread = t
      rw [(ticked.others r).1]
      by_cases ht : t ∈ ts
      · obtain ⟨r', hr', loc, -⟩ := asleep t ht
        simp only [ht, ↓reduceIte, reduceCtorEq, false_iff, not_and]
        intro hr e
        have both := inv.places.asleep.mpr ⟨show r ∈ recs by simp [ticked.split, hr], e⟩
        rw [loc] at both
        obtain rfl : r' = r := by simpa using both
        exact (List.nodup_append.mp nodupRecs).2.2 r' hr' r' hr rfl
      · rw [if_neg ht, inv.places.asleep, ticked.split, List.mem_append]
        constructor
        · rintro ⟨hr | hr, e⟩
          · exact absurd (List.mem_map.mpr ⟨r, hr, e⟩) ht
          · exact ⟨hr, e⟩
        · exact fun ⟨hr, e⟩ => ⟨Or.inr hr, e⟩
    · intro r hr
      exact (ticked.others r).2.trans (inv.places.untimed r (by simp [ticked.split, hr]))
    · intro t ht
      refine inv.places.known fun e => ht ?_
      rw [Board.forget_loc, e, ite_self]
    · intro p hp
      rw [Board.forget_loc] at hp
      split at hp
      · cases hp
      · exact inv.places.main hp
  obtain ⟨b', places', queue, loc⟩ := pushAll_places ts k₁ _ places₁ (fun t ht => by
    obtain ⟨r, -, here, -⟩ := asleep t ht
    have thread : k.view.Thread t := inv.places.known (by rw [here]; simp)
    exact ⟨by simp [ht], thread, thread_pos inv.owns thread⟩) nodup
  have queues : (b.forget ts).queue = b.queue := Board.forget_queue_loose b fun t ht => by
    obtain ⟨r, -, hr, -⟩ := asleep t ht
    exact Board.loose_of_spot hr
  have current := pushAll_current k₁ ts
  have live : (pushAll k₁ ts).hist.live = k₁.hist.live := by rw [pushAll_hist]
  rw [← frame] at current live places'
  refine ⟨k', gone, left, b', eq, ticked, ⟨places', ?_, ?_, ?_⟩, ?_⟩
  · have kept : k'.view.kept = k.view.kept := by
      rw [frame, pushAll_kept]
      rfl
    rw [View.owned, kept]
    exact holds'
  · intro t
    rw [loc t, Board.forget_loc, current]
    split
    · next ht =>
      obtain ⟨r, -, here, -⟩ := asleep t ht
      simp only [Option.some.injEq, reduceCtorEq, false_iff]
      intro e
      have : t = k.scheduler.threadCurrent := e
      rw [this, inv.current] at here
      simp at here
    · exact inv.running
  · intro t ht
    rw [loc t, Board.forget_loc]
    split
    · simp
    · exact inv.placed (live ▸ ht)
  · rw [queue, queues]

/-- **Going to sleep.** -/
theorem sleep_inv (inv : k.Inv b recs) (user : k.scheduler.threadCurrent ∈ k.hist.live) {time : Nat}
    (pos : 1 ≤ time) (lt : time < 2 ^ 64) (room : k.heap.HasRoom (sizeInBlocks 40)) :
    ∃ k' p front back b', schedulerTimeout k k.scheduler.threadCurrent time 0 = .ok k' ∧
      k.PutToSleep k' recs k.scheduler.threadCurrent time 0 p front back ∧
      (switch k').Inv b' (front ++ p :: back) ∧
      b'.queue = update b.queue .ready (b.queue .ready).tail := by
  have state := inv.sleepingState
  obtain ⟨k', p, front, back, eq, put, -, holds'⟩ := schedulerTimeout_spec state.alarms state.holds
    (fun r hr => by simp [recordBlocks, hr]) state.length_le room pos lt
    k.scheduler.threadCurrent 0
  have here := inv.current
  have loose := Board.loose_of_spot here
  have perm : (front ++ p :: back).Perm (p :: recs) := put.split ▸ List.perm_middle
  have view : k'.view = { k.view with
      heap := k'.heap, sleeping := k'.sleeping, sleepLinks := k'.sleepLinks
      sleepHead := k'.scheduler.sleepingThreads } := by
    have := congrArg Kernel.view put.frame
    exact this
  have places : k'.view.Places (b.move k.scheduler.threadCurrent (some (.asleep p)) loose)
      (front ++ p :: back) := by
    rw [view]
    refine ⟨inv.places.rings.same_queues rfl, put.alarms.ring, ?_, ?_, put.alarms.range, ?_, ?_,
      inv.places.slices, inv.places.count⟩
    · intro t r
      show update b.loc _ _ t = _ ↔ r ∈ front ++ p :: back ∧ (k'.sleeping r).thread = t
      rw [perm.mem_iff, List.mem_cons, update_apply]
      by_cases ht : t = k.scheduler.threadCurrent
      · subst ht
        simp only [↓reduceIte, Option.map_some, Option.some.injEq, Place.spot.injEq,
          Spot.asleep.injEq]
        constructor
        · rintro rfl
          exact ⟨Or.inl rfl, put.thread⟩
        · rintro ⟨rfl | hr, e⟩
          · rfl
          · rw [(put.others r hr).1] at e
            have := inv.places.sleeper hr
            have e : (k.view.sleeping r).thread = k.scheduler.threadCurrent := e
            rw [e, here] at this
            simp at this
      · rw [if_neg ht, inv.places.asleep]
        constructor
        · rintro ⟨hr, e⟩
          exact ⟨Or.inr hr, (put.others r hr).1.trans e⟩
        · rintro ⟨rfl | hr, e⟩
          · exact absurd (e.symm.trans put.thread) ht
          · exact ⟨hr, (put.others r hr).1.symm.trans e⟩
    · intro r hr
      rcases List.mem_cons.mp (perm.mem_iff.mp hr) with rfl | hr
      · exact put.semaphore
      · exact (put.others r hr).2.trans (inv.places.untimed r hr)
    · intro t ht
      by_cases e : t = k.scheduler.threadCurrent
      · exact e ▸ Or.inl user
      · rw [Board.move_loc, update_of_ne e] at ht
        exact inv.places.known ht
    · intro q hq
      have ne : k.scheduler.kernelMain ≠ k.scheduler.threadCurrent :=
        fun e => main_not_live inv.owns (e ▸ user)
      rw [Board.move_loc] at hq
      exact inv.places.main ((update_of_ne ne _ _).symm.trans hq)
  have owns : k'.heap.Holds (k'.view.owned (front ++ p :: back)) := by
    have blocks : recordBlocks (front ++ p :: back) = recordBlocks (p :: recs) :=
      congrArg (Multiset.map _) (Quotient.sound perm)
    have kept : k'.view.kept = k.view.kept := by
      rw [view]
      rfl
    rw [View.owned, blocks, recordBlocks_cons, kept, Multiset.cons_add]
    exact holds'
  have live : k'.hist.live = k.hist.live := by rw [put.frame]
  obtain ⟨b', inv', queue, -⟩ := switch_inv places owns (fun t => by
    rw [Board.move_loc, update_apply]
    split
    · simp
    · next h => exact fun e => h (inv.running.mp e)) fun t ht =>
      placed_after (b := b) rfl fun _ => inv.placed (live ▸ ht)
  exact ⟨k', p, front, back, b', eq, put, inv', queue⟩

end

end RiscvKernel
