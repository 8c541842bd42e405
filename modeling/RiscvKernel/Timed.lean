import RiscvKernel.Cancel

/-!
# Timed waits

`Kernel.Timed k b recs live`: every record of a semaphore in the sleeping list
has its thread in the ring of that semaphore.

* `wakeAll_rings`: a tick moves the threads of due records to the ready queue,
  provided that those in a timed wait wait alone.
-/

namespace RiscvKernel
open Function Intrusive Placement DeltaList

/-- The rings show the board `b`. -/
def Kernel.Rings (k : Kernel) (b : Threads) : Prop := Family k.links k.head k.view.Active b

structure Kernel.Timed (k : Kernel) (b : Threads) (recs : List Nat)
    (live : Multiset (Nat × Nat)) : Prop where
  rings : k.Rings b
  alarms : k.Alarms recs
  holds : k.heap.Holds (recordBlocks recs + live)
  once : (recs.map fun r => (k.sleeping r).thread).Nodup
  asleep : ∀ r ∈ recs, (k.sleeping r).semaphore = 0 →
    b.loc (k.sleeping r).thread = some (.spot (.asleep r))
  nonzero : ∀ r ∈ recs, (k.sleeping r).thread ≠ 0
  waiting : ∀ r ∈ recs, (k.sleeping r).semaphore ≠ 0 →
    b.loc (k.sleeping r).thread = some (.queue (.sem (k.sleeping r).semaphore))

/-! ## Rings -/

section
variable {k : Kernel} {b : Threads} {recs : List Nat} {t : Nat}

theorem Kernel.Rings.congr (rings : k.Rings b) (k' : Kernel) (links : k'.links = k.links)
    (head : k'.head = k.head) (opened : k'.hist.opened = k.hist.opened) : k'.Rings b := by
  have active : k'.view.Active = k.view.Active := by
    funext q
    cases q with
    | ready => rfl
    | input => rfl
    | sem s => exact congrArg (s ∈ ·) opened
  unfold Kernel.Rings
  rw [links, head, active]
  exact rings

theorem Kernel.Rings.push (rings : k.Rings b) (nonzero : t ≠ 0) (free : b.loc t = none) :
    (schedulerPush k t).Rings (b.enqueue .ready t free) := by
  have pushed := Family.push rings (i := .ready) trivial nonzero free
  show Family (schedulerPush k t).view.links (schedulerPush k t).view.head
    (schedulerPush k t).view.Active _
  rw [schedulerPush_view]
  exact pushed

/-- The only waiting thread of `s` leaves its ring. -/
theorem Kernel.Rings.alone (rings : k.Rings b) {s : Nat} (alone : b.queue (.sem s) = [t]) :
    (k.sem s).waitingThreads = t ∧ k.links.next t = t ∧ t ≠ 0 ∧
      (k.aloneRemoved s).Rings (b.forget [t]) := by
  have active : k.view.Active (.sem s) := by
    by_contra idle
    have := rings.idle _ idle
    simp [alone] at this
  have ring := rings.ring _ active
  rw [alone] at ring
  have head : (k.sem s).waitingThreads = t := ring.head_eq
  have next : k.links.next t = t := ring.2.1.1
  obtain ⟨-, popped⟩ := Family.pop rings active alone
  have pop : k.links.pop (k.head (.sem s)) = (k.links, 0) := by
    have here : k.head (.sem s) = t := head
    rw [here, Links.pop, if_pos next]
  rw [pop] at popped
  have queue : (b.forget [t]).queue = (b.dequeue (.sem s) t [] alone).queue := by
    funext i
    rw [Board.dequeue_queue, Board.forget_queue, update_apply]
    split
    · next h => simp [h, alone]
    · next h =>
      refine List.filter_eq_self.mpr fun x hx => ?_
      have : x ≠ t := fun e => h (b.apart (e ▸ hx) (by rw [alone]; exact List.mem_singleton_self t))
      simpa using this
  refine ⟨head, next, fun e => ring.not_null (by simp [e]), ?_⟩
  have rings' : Family k.links (update k.head (.sem s) 0) k.view.Active (b.forget [t]) :=
    popped.same_queues queue
  rwa [← head_sem k s fun x => { x with val := toI32 (x.val + 1), waitingThreads := 0 }] at rings'

/-! ## Waking -/

/-- The thread of the record `r` can be woken: it is asleep, or it is the only
thread that waits for its semaphore. -/
def Kernel.Wakeable (k : Kernel) (b : Threads) (r : Nat) : Prop :=
  (k.sleeping r).thread ≠ 0 ∧
    if (k.sleeping r).semaphore = 0 then b.loc (k.sleeping r).thread = some (.spot (.asleep r))
    else b.queue (.sem (k.sleeping r).semaphore) = [(k.sleeping r).thread]

/-- A thread leaves its place and goes to the end of the ready queue. -/
def readied (b : Threads) (t : Nat) : Threads :=
  (b.forget [t]).enqueue .ready t (by simp)

theorem readied_loc (b : Threads) (t s : Nat) :
    (readied b t).loc s = if s = t then some (.queue .ready) else b.loc s := by
  simp only [readied, Board.enqueue_loc, update_apply, Board.forget_loc, List.mem_singleton]
  split <;> rfl

theorem readied_ready (b : Threads) {t : Nat} (away : b.loc t ≠ some (.queue .ready)) :
    (readied b t).queue .ready = b.queue .ready ++ [t] := by
  have out : t ∉ b.queue .ready := fun h => away (b.mem_queue.mp h)
  have all : (b.forget [t]).queue .ready = b.queue .ready :=
    List.filter_eq_self.mpr fun x hx => by
      have : x ≠ t := fun e => out (e ▸ hx)
      simpa using this
  rw [readied, Board.enqueue_queue, update_self, all]

theorem readied_other (b : Threads) (t : Nat) {i : QueueId} (h : i ≠ .ready) :
    (readied b t).queue i = (b.queue i).filter (· ≠ t) := by
  rw [readied, Board.enqueue_queue, update_of_ne h, Board.forget_queue]
  simp

theorem wakeSleeper_rings {r : Nat} (rings : k.Rings b) (wakeable : k.Wakeable b r) :
    ∃ k', wakeSleeper k r = .ok k' ∧ k'.Rings (readied b (k.sleeping r).thread) := by
  obtain ⟨nonzero, place⟩ := wakeable
  rw [wakeSleeper_eq]
  by_cases untimed : (k.sleeping r).semaphore = 0
  · rw [if_pos untimed] at place
    have loose := Board.loose_of_spot place
    have left : k.Rings (b.forget [(k.sleeping r).thread]) := rings.same_queues
      (Board.forget_queue_loose b fun t ht => List.mem_singleton.mp ht ▸ loose)
    exact ⟨_, if_pos untimed, left.push nonzero _⟩
  · rw [if_neg untimed] at place
    obtain ⟨head, next, -, removed⟩ := rings.alone place
    have nobody : (k.sem (k.sleeping r).semaphore).waitingThreads ≠ 0 := by rwa [head]
    have only : (k.sem (k.sleeping r).semaphore).waitingThreads =
        k.links.next (k.sem (k.sleeping r).semaphore).waitingThreads := by rw [head, next]
    rw [if_neg untimed, if_neg nobody, if_pos only]
    exact ⟨_, rfl, removed.push nonzero _⟩

theorem schedulerPush_bp (k : Kernel) (t : Nat) : (schedulerPush k t).view.bp = k.view.bp := by
  rw [schedulerPush_view]
  rfl

/-- What waking changes. -/
structure Kernel.Woke (k k' : Kernel) (ts : List Nat) : Prop where
  frame : k' = { k with
    thread := k'.thread, links := k'.links, sem := k'.sem, mem := k'.mem
    scheduler := { k.scheduler with readyThreads := k'.scheduler.readyThreads }
    hist := { k.hist with pushed := k.hist.pushed ++ ts } }
  sp : k'.sp = k.sp
  saved : k'.saved = k.saved
  bp : k'.view.bp = k.view.bp
  slice : ∀ t, k'.slice t = if t ∈ ts then defaultTimeSlice else k.slice t

theorem wakeSleeper_woke {k' : Kernel} {r : Nat} (woken : wakeSleeper k r = .ok k') :
    k.Woke k' [(k.sleeping r).thread] := by
  have slice : ∀ k₁ : Kernel, ∀ s, (schedulerPush k₁ (k.sleeping r).thread).slice s =
      if s ∈ [(k.sleeping r).thread] then defaultTimeSlice else k₁.slice s := by
    intro k₁ s
    rw [schedulerPush_slice, update_apply]
    simp
  rw [wakeSleeper_eq] at woken
  split at woken
  · cases woken
    exact ⟨rfl, schedulerPush_sp .., schedulerPush_saved .., schedulerPush_bp .., slice k⟩
  · split at woken
    · cases woken
    · split at woken
      · cases woken
        exact ⟨rfl, schedulerPush_sp .., schedulerPush_saved .., schedulerPush_bp ..,
          slice (k.aloneRemoved _)⟩
      · cases woken
        exact ⟨rfl, schedulerPush_sp .., schedulerPush_saved .., schedulerPush_bp ..,
          slice (k.headRemoved _ _)⟩

theorem wakeAll_woke (rs : List Nat) : ∀ {k k' : Kernel}, wakeAll k rs = .ok k' →
    k.Woke k' (rs.map fun r => (k.sleeping r).thread) := by
  induction rs with
  | nil =>
    intro k k' ran
    cases ran
    exact ⟨by simp, rfl, rfl, rfl, by simp⟩
  | cons r rs ih =>
    intro k k' ran
    rw [wakeAll_cons] at ran
    obtain ⟨k₁, woken, ran⟩ := ok_bind ran
    have first := wakeSleeper_woke woken
    have rest := ih ran
    have sleeping : k₁.sleeping = k.sleeping := (wakeSleeper_sleepers woken).1
    rw [sleeping] at rest
    refine ⟨?_, rest.sp.trans first.sp, rest.saved.trans first.saved,
      rest.bp.trans first.bp, fun t => ?_⟩
    · have frame := rest.frame
      rw [first.frame] at frame
      simpa using frame
    · rw [rest.slice, first.slice]
      by_cases here : t = (k.sleeping r).thread <;> simp [here]

/-- The threads `ts` go from their places to the end of the ready queue. -/
structure Readied (b b' : Threads) (ts : List Nat) : Prop where
  loc : ∀ t, b'.loc t = if t ∈ ts then some (.queue .ready) else b.loc t
  ready : b'.queue .ready = b.queue .ready ++ ts
  other : ∀ i, i ≠ .ready → b'.queue i = (b.queue i).filter (· ∉ ts)

theorem Kernel.Wakeable.away {r : Nat} (wakeable : k.Wakeable b r) :
    b.loc (k.sleeping r).thread ≠ some (.queue .ready) := by
  obtain ⟨-, place⟩ := wakeable
  split at place
  · rw [place]
    simp
  · rw [b.loc_head place]
    simp

/-- Waking another thread leaves a record wakeable. -/
theorem Kernel.Wakeable.readied {k' : Kernel} {r : Nat} (wakeable : k.Wakeable b r)
    (sleeping : k'.sleeping = k.sleeping) (other : (k.sleeping r).thread ≠ t) :
    k'.Wakeable (readied b t) r := by
  obtain ⟨nonzero, place⟩ := wakeable
  unfold Kernel.Wakeable
  rw [sleeping]
  refine ⟨nonzero, ?_⟩
  split
  · next untimed =>
    rw [if_pos untimed] at place
    rw [readied_loc, if_neg other, place]
  · next timed =>
    rw [if_neg timed] at place
    rw [readied_other _ _ (by simp), place]
    simp [other]

/-- **Waking.** -/
theorem wakeAll_rings (rs : List Nat) : ∀ {k : Kernel} {b : Threads}, k.Rings b →
    (rs.map fun r => (k.sleeping r).thread).Nodup → (∀ r ∈ rs, k.Wakeable b r) →
      ∃ k' b', wakeAll k rs = .ok k' ∧ k'.Rings b' ∧
        Readied b b' (rs.map fun r => (k.sleeping r).thread) := by
  induction rs with
  | nil => exact fun {k b} rings _ _ => ⟨k, b, rfl, rings, by simp, by simp, by simp⟩
  | cons r rs ih =>
    intro k b rings nodup wakeable
    obtain ⟨out, nodup⟩ := List.nodup_cons.mp nodup
    have first := wakeable r List.mem_cons_self
    obtain ⟨k₁, woken, rings₁⟩ := wakeSleeper_rings rings first
    have sleeping : k₁.sleeping = k.sleeping := (wakeSleeper_sleepers woken).1
    have others : ∀ r' ∈ rs, k₁.Wakeable (readied b (k.sleeping r).thread) r' := fun r' hr =>
      (wakeable r' (List.mem_cons_of_mem r hr)).readied sleeping fun e =>
        out (List.mem_map.mpr ⟨r', hr, e⟩)
    obtain ⟨k', b', ran, rings', readied⟩ := ih rings₁ (by rwa [sleeping]) others
    rw [sleeping] at readied
    refine ⟨k', b', ?_, rings', fun t => ?_, ?_, fun i hi => ?_⟩
    · rw [wakeAll_cons, woken]
      exact ran
    · rw [readied.loc, readied_loc, List.map_cons]
      by_cases here : t = (k.sleeping r).thread <;> simp [here]
    · rw [readied.ready, readied_ready b first.away]
      simp
    · rw [readied.other i hi, readied_other b _ hi, List.filter_filter]
      simp [not_or, Bool.and_comm]

/-! ## A tick -/

/-- The records that the next tick makes due. -/
def Kernel.expiring (k : Kernel) (recs : List Nat) : List Nat := due k.countedDown recs

/-- The records that the next tick leaves. -/
def Kernel.remaining (k : Kernel) (recs : List Nat) : List Nat := notDue k.countedDown recs

theorem expiring_append_remaining (k : Kernel) (recs : List Nat) :
    recs = k.expiring recs ++ k.remaining recs := List.takeWhile_append_dropWhile.symm

/-- Every timed waiter whose alarm the next tick makes due waits alone. -/
def Kernel.ExpireAlone (k : Kernel) (b : Threads) (recs : List Nat) : Prop :=
  ∀ r ∈ k.expiring recs, (k.sleeping r).semaphore ≠ 0 →
    b.queue (.sem (k.sleeping r).semaphore) = [(k.sleeping r).thread]

/-- What a tick changes when `ts` are the threads whose alarm is due. -/
structure Kernel.TickWoke (k k' : Kernel) (ts : List Nat) : Prop where
  frame : k' = { k with
    thread := k'.thread, links := k'.links, sem := k'.sem, mem := k'.mem, heap := k'.heap
    sleeping := k.countedDown, sleepLinks := k'.sleepLinks
    scheduler := { k.scheduler with
      readyThreads := k'.scheduler.readyThreads, sleepingThreads := k'.scheduler.sleepingThreads }
    hist := { k.hist with pushed := k.hist.pushed ++ ts } }
  sp : k'.sp = k.sp
  saved : k'.saved = k.saved
  bp : k'.view.bp = k.view.bp
  slice : ∀ t, k'.slice t = if t ∈ ts then defaultTimeSlice else k.slice t

/-- **A tick.** -/
theorem timed_tick {live : Multiset (Nat × Nat)} (timed : k.Timed b recs live)
    (alone : k.ExpireAlone b recs) :
    ∃ k' b', schedulerTick k = .ok k' ∧ k'.Timed b' (k.remaining recs) live ∧
      Readied b b' ((k.expiring recs).map fun r => (k.sleeping r).thread) ∧
      k.TickWoke k' ((k.expiring recs).map fun r => (k.sleeping r).thread) := by
  have same := countedDown_others k
  have split := expiring_append_remaining k recs
  have threads : ∀ rs : List Nat, (rs.map fun r => (k.countedDown r).thread) =
      rs.map fun r => (k.sleeping r).thread := fun rs =>
    List.map_congr_left fun r _ => (same r).1
  have once := timed.once
  rw [split, List.map_append, List.nodup_append] at once
  obtain ⟨h, l, x, tick, ring, -, holds⟩ := schedulerTick_run timed.alarms timed.holds
    (records_length_le timed.holds)
  have wakeable : ∀ r ∈ k.expiring recs,
      Kernel.Wakeable { k with sleeping := k.countedDown } b r := by
    intro r hr
    have mem : r ∈ recs := by
      rw [split]
      exact List.mem_append_left _ hr
    unfold Kernel.Wakeable
    rw [(same r).1, (same r).2]
    refine ⟨timed.nonzero r mem, ?_⟩
    split
    · next untimed => exact timed.asleep r mem untimed
    · next waits => exact alone r hr waits
  obtain ⟨k₁, b', woken, rings, readied⟩ := wakeAll_rings
    (k := { k with sleeping := k.countedDown }) (b := b) (k.expiring recs)
    (timed.rings.congr _ rfl rfl rfl) (by rw [threads]; exact once.1) wakeable
  have woke := wakeAll_woke _ woken
  dsimp only at readied woke
  rw [threads] at readied woke
  have sleeping : k₁.sleeping = k.countedDown := by rw [woke.frame]
  have loc : ∀ r ∈ k.remaining recs, b'.loc (k.sleeping r).thread =
    b.loc (k.sleeping r).thread := by
    intro r hr
    rw [readied.loc, if_neg fun h => once.2.2 _ h _ (List.mem_map_of_mem hr) rfl]
  have mem : ∀ r ∈ k.remaining recs, r ∈ recs := fun r hr => by
    rw [split]
    exact List.mem_append_right _ hr
  have tick : schedulerTick k = .ok (k₁.setSleepers h l x) := by
    rw [tick]
    show (wakeAll _ (k.expiring recs)).map _ = _
    rw [woken]
    rfl
  refine ⟨k₁.setSleepers h l x, b', tick, ⟨rings.congr _ rfl rfl rfl, ⟨ring, ?_⟩, holds, ?_, ?_, ?_,
    ?_⟩,
    readied, ⟨?_, woke.sp, woke.saved, woke.bp, woke.slice⟩⟩
  · have left := (due_times (fun r => (same r).1) timed.alarms.countedDown).2
    show ∀ x ∈ times 0 (entries k₁.sleeping (k.remaining recs)), _
    rw [sleeping]
    exact fun x hx => timed.alarms.later x (left ▸ hx)
  · show ((k.remaining recs).map fun r => (k₁.sleeping r).thread).Nodup
    rw [sleeping, threads]
    exact once.2.1
  · intro r hr
    show (k₁.sleeping r).semaphore = 0 → b'.loc (k₁.sleeping r).thread = _
    rw [sleeping, (same r).1, (same r).2, loc r hr]
    exact timed.asleep r (mem r hr)
  · intro r hr
    show (k₁.sleeping r).thread ≠ 0
    rw [sleeping, (same r).1]
    exact timed.nonzero r (mem r hr)
  · intro r hr
    show (k₁.sleeping r).semaphore ≠ 0 → b'.loc (k₁.sleeping r).thread = some (.queue
      (.sem (k₁.sleeping r).semaphore))
    rw [sleeping, (same r).1, (same r).2, loc r hr]
    exact timed.waiting r (mem r hr)
  · have frame := woke.frame
    rw [frame]
    rfl

end

end RiscvKernel
