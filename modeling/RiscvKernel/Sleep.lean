import RiscvKernel.Moves
import RiscvKernel.DeltaList

/-!
# The sleeping list

`schedulerTimeout_spec` and `schedulerTick_spec` say what the two operations do
to the ring of records, as a list of threads with relative times.
-/

namespace RiscvKernel
open Function Intrusive Placement DeltaList

/-- The sleeping list: its records are a ring, and no alarm is due or out of range. -/
structure Kernel.Alarms (k : Kernel) (recs : List Nat) : Prop where
  ring : IsRing k.sleepLinks k.scheduler.sleepingThreads recs
  range : ∀ x ∈ times 0 (entries k.sleeping recs), 1 ≤ x.2 ∧ x.2 < 2 ^ 64

theorem Kernel.Alarms.span_lt {k : Kernel} {recs : List Nat} (h : k.Alarms recs) :
    span (entries k.sleeping recs) < 2 ^ 64 := by
  by_cases empty : entries k.sleeping recs = []
  · simp [empty]
  · obtain ⟨y, hy, e⟩ := span_mem_times 0 empty
    have := (h.range y hy).2
    omega

/-- The sleeping list is `recs`, and the heap holds its records and `live`. -/
structure Kernel.Sleeping (k : Kernel) (recs : List Nat) (live : Multiset (Nat × Nat)) : Prop where
  alarms : k.Alarms recs
  untimed : ∀ r ∈ recs, (k.sleeping r).semaphore = 0
  holds : k.heap.Holds (recordBlocks recs + live)

theorem Kernel.Sleeping.length_le {k : Kernel} {recs : List Nat} {live : Multiset (Nat × Nat)}
    (h : k.Sleeping recs live) : recs.length ≤ k.heap.nMemBlocks := by
  have := h.holds.card_le
  simp only [recordBlocks, Multiset.card_add, Multiset.card_map, Multiset.coe_card] at this
  omega

/-! ## `__scheduler_timeout` -/

/-- The loop of `__scheduler_timeout` stops between `front` and `back`. -/
structure Found (k : Kernel) (time : Nat) (front back : List Nat) : Prop where
  nonempty : front ≠ []
  lo : span (entries k.sleeping front) ≤ time
  hi : ∀ x ∈ back.head?, time ≤ span (entries k.sleeping front) + (k.sleeping x).delta

theorem timeoutSearch_spec {k : Kernel} {recs : List Nat} (time : Nat)
    (ring : IsRing k.sleepLinks k.scheduler.sleepingThreads recs)
    (small : span (entries k.sleeping recs) < 2 ^ 64) (back : List Nat) :
    ∀ front node fuel, recs = front ++ node :: back → back.length < fuel →
      span (entries k.sleeping (front ++ [node])) ≤ time →
      ∃ front' back', recs = front' ++ back' ∧ Found k time front' back' ∧
        timeoutSearch k time fuel node (span (entries k.sleeping front)) =
          .ok ((back' ++ front').headD 0, span (entries k.sleeping front')) := by
  induction back with
  | nil =>
    intro front node fuel split len lo
    obtain ⟨fuel, rfl⟩ := Nat.exists_eq_add_one.mpr len
    subst split
    have next := ring.next_eq_head.mpr rfl
    have sum : u64 (span (entries k.sleeping front) + (k.sleeping node).delta : Nat) =
        span (entries k.sleeping (front ++ [node])) := by
      rw [u64_natCast (by simp [span_append] at small; omega)]
      simp [span_append]
    refine ⟨front ++ [node], [], by simp, ⟨by simp, lo, by simp⟩, ?_⟩
    push_cast at sum
    simp only [timeoutSearch, next, sum, ne_eq, not_true_eq_false, false_and, ↓reduceIte]
    rw [List.nil_append, ring.head_mem (by simp)]
    rfl
  | cons x back ih =>
    intro front node fuel split len lo
    obtain ⟨fuel, rfl⟩ := Nat.exists_eq_add_one.mpr (Nat.zero_lt_of_lt len)
    subst split
    have next : k.sleepLinks.next node = x := ring.next_eq
    have moved : k.sleepLinks.next node ≠ k.scheduler.sleepingThreads :=
      ring.next_eq_head.not.mpr (by simp)
    simp only [entries_append, entries_cons, span_append, span_cons] at small
    have sum : u64 ((span (entries k.sleeping front) + (k.sleeping node).delta : Nat) : Int) =
        span (entries k.sleeping (front ++ [node])) := by
      rw [u64_natCast (by omega)]
      simp [span_append]
    have sum' : u64 ((span (entries k.sleeping (front ++ [node])) + (k.sleeping x).delta : Nat) :
        Int) = span (entries k.sleeping (front ++ [node] ++ [x])) := by
      rw [u64_natCast (by simp [span_append]; omega)]
      simp [span_append, Nat.add_assoc]
    push_cast at sum sum'
    simp only [timeoutSearch, sum, next] at moved ⊢
    rw [sum']
    by_cases more : span (entries k.sleeping (front ++ [node] ++ [x])) < time
    · rw [if_pos ⟨moved, more⟩]
      exact ih (front ++ [node]) x fuel (by simp) (by simpa using len) more.le
    · rw [if_neg (fun h => more h.2)]
      refine ⟨front ++ [node], x :: back, by simp, ⟨by simp, lo, ?_⟩, rfl⟩
      intro y hy
      obtain rfl : x = y := by simpa using hy
      simp only [entries_append, span_append] at more ⊢
      simpa using more

theorem newSleeping_spec {k : Kernel} {live : Multiset (Nat × Nat)} (holds : k.heap.Holds live)
    (room : k.heap.HasRoom (sizeInBlocks 40)) (th sem d : Nat) :
    ∃ p h', newSleeping k th sem d =
        .ok (p, { k with heap := h', sleeping := update k.sleeping p ⟨th, sem, d⟩ }) ∧
      k.heap.Within h' ∧ h'.Holds ((p, sizeInBlocks 40) ::ₘ live) ∧ p ≠ 0 ∧
      p ∉ live.map Prod.fst := by
  obtain ⟨p, h', eq, within, holds', nonzero, fresh⟩ := alloc_spec holds (by decide) room
  refine ⟨p, h', ?_, within, holds', nonzero, fresh⟩
  unfold newSleeping
  rw [eq]
  simp only [bind, Except.bind, nonzero, ↓reduceIte]
  rfl

/-- A record for `th` is new in the sleeping list, and the alarm of no other
thread has moved. -/
structure Kernel.PutToSleep (k k' : Kernel) (recs : List Nat) (th time sem p : Nat)
    (front back : List Nat) : Prop where
  frame : k' = { k with
    heap := k'.heap, sleeping := k'.sleeping, sleepLinks := k'.sleepLinks
    scheduler := { k.scheduler with sleepingThreads := k'.scheduler.sleepingThreads } }
  split : recs = front ++ back
  fresh : p ∉ recs
  alarms : k'.Alarms (front ++ p :: back)
  thread : (k'.sleeping p).thread = th
  semaphore : (k'.sleeping p).semaphore = sem
  others : ∀ r ∈ recs, (k'.sleeping r).thread = (k.sleeping r).thread ∧
    (k'.sleeping r).semaphore = (k.sleeping r).semaphore
  times : ∃ early late, times 0 (entries k.sleeping recs) = early ++ late ∧
    times 0 (entries k'.sleeping (front ++ p :: back)) = early ++ (th, time) :: late

/-- Nobody is put to sleep for no time. -/
theorem Kernel.PutToSleep.time_pos {k k' : Kernel} {recs front back : List Nat}
    {th time sem p : Nat} (put : k.PutToSleep k' recs th time sem p front back) : 1 ≤ time := by
  obtain ⟨early, late, -, times⟩ := put.times
  refine (put.alarms.range (th, time) ?_).1
  rw [times]
  simp

/-- The records after an insertion between `front` and `back`. -/
theorem entries_inserted {f f' : Nat → SleepingThread} (front : List Nat) {back : List Nat}
    {p n : Nat}
    {new : SleepingThread} (nodup : back.Nodup) (atNew : f' p = new)
    (before : ∀ r ∈ front, f' r = f r)
    (next : ∀ y ∈ back.head?, f' y = { f y with delta := (f y).delta - n })
    (after : ∀ y ∈ back.head?, ∀ r ∈ back, r ≠ y → f' r = f r) :
    entries f' (front ++ p :: back) =
      entries f front ++ (new.thread, new.delta) :: shorten n (entries f back) := by
  rw [entries_append, entries_cons, entries_congr before, atNew]
  cases back with
  | nil => rfl
  | cons y ys =>
    have rest : entries f' ys = entries f ys := entries_congr fun r hr =>
      after y rfl r (List.mem_cons_of_mem y hr) fun e => (List.nodup_cons.mp nodup).1 (e ▸ hr)
    rw [entries_cons, rest, next y rfl]
    rfl

/-- The writes of an insertion between `front` and `back` are those of `PutToSleep`. -/
theorem putToSleep_of {k k' : Kernel} {recs front back : List Nat} {th time sem p : Nat}
    (alarms : k.Alarms recs) (split : recs = front ++ back)
    (found : span (entries k.sleeping front) ≤ time ∧
      ∀ x ∈ back.head?, time ≤ span (entries k.sleeping front) + (k.sleeping x).delta)
    (pos : 1 ≤ time) (lt : time < 2 ^ 64) (fresh : p ∉ recs)
    (frame : k' = { k with
      heap := k'.heap, sleeping := k'.sleeping, sleepLinks := k'.sleepLinks
      scheduler := { k.scheduler with sleepingThreads := k'.scheduler.sleepingThreads } })
    (ring : IsRing k'.sleepLinks k'.scheduler.sleepingThreads (front ++ p :: back))
    (atNew : k'.sleeping p = ⟨th, sem, time - span (entries k.sleeping front)⟩)
    (next : ∀ y ∈ back.head?, k'.sleeping y = { k.sleeping y with
      delta := (k.sleeping y).delta - (time - span (entries k.sleeping front)) })
    (others : ∀ r ∈ recs, (∀ y ∈ back.head?, r ≠ y) → k'.sleeping r = k.sleeping r) :
    k.PutToSleep k' recs th time sem p front back := by
  have nodup : (front ++ back).Nodup := split ▸ alarms.ring.nodup
  obtain ⟨-, nodup', apart⟩ := List.nodup_append.mp nodup
  have inserted := entries_inserted (f := k.sleeping) front nodup' atNew
    (fun r hr => others r (by simp [split, hr]) fun y hy =>
      apart r hr y (List.mem_of_mem_head? hy)) next
    (fun y hy r hr ne => others r (by simp [split, hr]) fun z hz => by
      obtain rfl : y = z := Option.some.inj (hy.symm.trans hz)
      exact ne)
  have old : times 0 (entries k.sleeping recs) = times 0 (entries k.sleeping front) ++
      times (span (entries k.sleeping front)) (entries k.sleeping back) := by
    rw [split, entries_append, times_append, Nat.zero_add]
  have new := times_insert th (entries k.sleeping back) found.1 (by
    cases back with
    | nil => simp
    | cons y ys =>
      intro x hx
      obtain rfl := Option.some.inj hx
      exact found.2 y rfl)
  refine ⟨frame, split, fresh, ⟨ring, ?_⟩, by rw [atNew], by rw [atNew], ?_, ?_⟩
  · intro x hx
    rw [inserted, new] at hx
    rcases List.mem_append.mp hx with h | h
    · exact alarms.range x (by rw [old]; exact List.mem_append_left _ h)
    · rcases List.mem_cons.mp h with rfl | h
      · exact ⟨pos, lt⟩
      · exact alarms.range x (by rw [old]; exact List.mem_append_right _ h)
  · intro r hr
    by_cases first : ∀ y ∈ back.head?, r ≠ y
    · rw [others r hr first]
      exact ⟨rfl, rfl⟩
    · simp only [ne_eq, not_forall, not_not, exists_prop] at first
      obtain ⟨y, hy, rfl⟩ := first
      rw [next r hy]
      exact ⟨rfl, rfl⟩
  · exact ⟨_, _, old, by rw [inserted]; exact new⟩

theorem schedulerTimeout_spec {k : Kernel} {recs : List Nat} {live : Multiset (Nat × Nat)}
    {time : Nat} (alarms : k.Alarms recs) (holds : k.heap.Holds live)
    (owned : ∀ r ∈ recs, r ∈ live.map Prod.fst) (len : recs.length ≤ k.heap.nMemBlocks)
    (room : k.heap.HasRoom (sizeInBlocks 40)) (pos : 1 ≤ time) (lt : time < 2 ^ 64)
    (th sem : Nat) :
    ∃ k' p front back, schedulerTimeout k th time sem = .ok k' ∧
      k.PutToSleep k' recs th time sem p front back ∧ k.heap.Within k'.heap ∧
      k'.heap.Holds ((p, sizeInBlocks 40) ::ₘ live) := by
  have ring := alarms.ring
  cases recs with
  | nil =>
    have empty : k.scheduler.sleepingThreads = 0 := ring
    obtain ⟨p, h', eq, within, holds', nonzero, -⟩ := newSleeping_spec holds room th sem time
    have pushed := (ring_push ring (n := p) (by simp) nonzero).1
    rw [empty] at pushed
    refine ⟨{ k with
      heap := h'
      sleeping := update k.sleeping p ⟨th, sem, time⟩
      sleepLinks := (k.sleepLinks.push 0 p).1
      scheduler := { k.scheduler with sleepingThreads := (k.sleepLinks.push 0 p).2 } },
      p, [], [], ?_, ?_, within, holds'⟩
    · unfold schedulerTimeout
      rw [eq]
      simp only [empty, ↓reduceIte]
      rfl
    · exact putToSleep_of alarms rfl (by simp) pos lt (by simp) rfl pushed
        (update_self ..) (by simp) (by simp)
  | cons r₀ rest =>
    obtain rfl : k.scheduler.sleepingThreads = r₀ := ring.head_eq
    have nonempty : k.scheduler.sleepingThreads ≠ 0 := by
      intro e
      exact ring.not_null (by simp [e])
    have notNew : ∀ {p}, p ∉ live.map Prod.fst →
        p ∉ k.scheduler.sleepingThreads :: rest := fun hp hm => hp (owned _ hm)
    have small := alarms.span_lt
    by_cases first : time < (k.sleeping k.scheduler.sleepingThreads).delta
    · -- before the first record
      obtain ⟨p, h', eq, within, holds', nonzero, fresh⟩ := newSleeping_spec
        (k := k.modifySleeping k.scheduler.sleepingThreads fun s =>
          { s with delta := u64 (s.delta - time) }) holds room th sem time
      have inserted := @ring_insert _ _ _ [] _ ring (by simp) (notNew fresh) nonzero
      refine ⟨{ k with
        heap := h'
        sleeping := update (update k.sleeping k.scheduler.sleepingThreads
          { k.sleeping k.scheduler.sleepingThreads with
            delta := u64 ((k.sleeping k.scheduler.sleepingThreads).delta - time) })
          p ⟨th, sem, time⟩
        sleepLinks := k.sleepLinks.insert k.scheduler.sleepingThreads p
        scheduler := { k.scheduler with sleepingThreads := p } },
        p, [], k.scheduler.sleepingThreads :: rest, ?_, ?_, within, holds'⟩
      · unfold schedulerTimeout
        simp only [nonempty, ↓reduceIte, first]
        rw [eq]
        rfl
      · have other := notNew fresh
        refine putToSleep_of alarms rfl (by simp [first.le]) pos lt other rfl inserted
          (update_self ..) ?_ ?_
        · intro y hy
          obtain rfl := Option.some.inj hy
          have ne : k.scheduler.sleepingThreads ≠ p := fun e => other (by simp [e])
          rw [entries_cons, span_cons] at small
          have wrap : u64 ((k.sleeping k.scheduler.sleepingThreads).delta - time) =
              (k.sleeping k.scheduler.sleepingThreads).delta - time := by
            rw [u64_eq] <;> omega
          simp [ne, wrap]
        · intro r hr ne
          have h₁ : r ≠ p := fun e => other (e ▸ hr)
          have h₂ := ne _ rfl
          simp [h₁, h₂]
    · -- after the first record
      obtain ⟨front, back, split, ⟨hne, lo, hi⟩, search⟩ := timeoutSearch_spec time ring
        small rest [] k.scheduler.sleepingThreads (k.heap.nMemBlocks + 1) rfl
        (by simp only [List.length_cons] at len; omega) (by simpa using first)
      have search : timeoutSearch k time (k.heap.nMemBlocks + 1) k.scheduler.sleepingThreads 0 =
          .ok ((back ++ front).headD 0, span (entries k.sleeping front)) := search
      have wrap : u64 (time - span (entries k.sleeping front) : Int) =
          time - span (entries k.sleeping front) := by
        rw [u64_eq] <;> omega
      obtain ⟨p, h', eq, within, holds', nonzero, fresh⟩ := newSleeping_spec holds room th sem
        (u64 (time - span (entries k.sleeping front) : Int))
      rw [wrap] at eq
      have other := notNew fresh
      rw [split] at ring other
      have inserted := ring_insert ring (by simp [hne]) other nonzero
      have head : (front ++ [p]).headD 0 = k.scheduler.sleepingThreads := by
        have := ring.head_mem (by simp [hne])
        cases front with
        | nil => exact absurd rfl hne
        | cons x xs => exact this
      rw [head] at inserted
      cases back with
      | nil =>
        have last : ([] ++ front).headD 0 = k.scheduler.sleepingThreads := by
          rw [← ring.head_mem (by simp [hne])]
          simp
        refine ⟨{ k with
          heap := h'
          sleeping := update k.sleeping p ⟨th, sem, time - span (entries k.sleeping front)⟩
          sleepLinks := k.sleepLinks.insert (([] ++ front).headD 0) p },
          p, front, [], ?_, ?_, within, holds'⟩
        · unfold schedulerTimeout
          simp only [nonempty, ↓reduceIte, first, search, bind, Except.bind, pure, Except.pure, eq,
            last, ne_eq, not_true_eq_false, wrap]
        · refine putToSleep_of alarms split ⟨lo, by simp⟩ pos lt (by rwa [split]) rfl inserted
            (update_self ..) (by simp) ?_
          intro r hr _
          rw [split] at hr
          have hp : r ≠ p := fun e => other (e ▸ hr)
          exact update_of_ne hp ..
      | cons y ys =>
        have notFirst : y ≠ k.scheduler.sleepingThreads := by
          intro e
          have nodup := ring.nodup
          have first := ring.head_mem (by simp)
          cases front with
          | nil => exact hne rfl
          | cons x xs =>
            simp only [List.cons_append, List.nodup_cons, List.mem_append, List.mem_cons,
              not_or] at nodup
            exact nodup.1.2.1 (by simpa [e] using first)
        have otherY : y ≠ p := fun e => other (by simp [e])
        have le := hi y rfl
        have small' : span (entries k.sleeping front) + (k.sleeping y).delta < 2 ^ 64 := by
          rw [split, entries_append, span_append, entries_cons, span_cons] at small
          omega
        have wrap' : u64 ((k.sleeping y).delta -
            (time - span (entries k.sleeping front) : Nat) : Int) =
            (k.sleeping y).delta - (time - span (entries k.sleeping front)) := by
          rw [u64_eq] <;> omega
        refine ⟨{ k with
          heap := h'
          sleeping := update (update k.sleeping p ⟨th, sem,
            time - span (entries k.sleeping front)⟩) y { k.sleeping y with
              delta := (k.sleeping y).delta - (time - span (entries k.sleeping front)) }
          sleepLinks := k.sleepLinks.insert ((y :: ys ++ front).headD 0) p },
          p, front, y :: ys, ?_, ?_, within, holds'⟩
        · unfold schedulerTimeout
          simp only [nonempty, ↓reduceIte, first, search, bind, Except.bind, pure, Except.pure, eq,
            List.cons_append, List.headD_cons, ne_eq, notFirst, not_false_eq_true, wrap,
            Kernel.modifySleeping, update_of_ne otherY, update_self, wrap']
        · refine putToSleep_of alarms split ⟨lo, hi⟩ pos lt (by rwa [split]) rfl inserted
            ?_ ?_ ?_
          · show update _ y _ p = _
            rw [update_of_ne otherY.symm, update_self]
          · intro z hz
            obtain rfl := Option.some.inj hz
            exact update_self ..
          · intro r hr ne
            rw [split] at hr
            show update _ y _ r = _
            have hp : r ≠ p := fun e => other (e ▸ hr)
            rw [update_of_ne (ne y rfl), update_of_ne hp]

/-! ## `__scheduler_tick` -/

/-- The pushes of several threads, in order. -/
def pushAll (k : Kernel) (ts : List Nat) : Kernel := ts.foldl schedulerPush k

@[simp] theorem pushAll_nil (k : Kernel) : pushAll k [] = k := rfl
@[simp] theorem pushAll_cons (k : Kernel) (t : Nat) (ts : List Nat) :
    pushAll k (t :: ts) = pushAll (schedulerPush k t) ts := rfl

def Kernel.setSleepers (k : Kernel) (h : Heap) (l : Links) (head : Nat) : Kernel :=
  { k with
    heap := h, sleepLinks := l, scheduler := { k.scheduler with sleepingThreads := head } }

theorem pushAll_setSleepers (k : Kernel) (h : Heap) (l : Links) (head : Nat) (ts : List Nat) :
    pushAll (k.setSleepers h l head) ts = (pushAll k ts).setSleepers h l head := by
  induction ts generalizing k with
  | nil => rfl
  | cons t ts ih => exact ih (schedulerPush k t)

theorem pushAll_sleeping (k : Kernel) (ts : List Nat) : (pushAll k ts).sleeping = k.sleeping := by
  induction ts generalizing k with
  | nil => rfl
  | cons t ts ih => exact ih (schedulerPush k t)

theorem wakeSleeper_untimed {k : Kernel} {r : Nat} (untimed : (k.sleeping r).semaphore = 0) :
    wakeSleeper k r = .ok (schedulerPush k (k.sleeping r).thread) := by
  unfold wakeSleeper
  simp only [untimed, ne_eq, not_true_eq_false, ↓reduceIte]
  rfl

/-- The records whose alarm is due. -/
def due (f : Nat → SleepingThread) (recs : List Nat) : List Nat :=
  recs.takeWhile fun r => (f r).delta = 0

def notDue (f : Nat → SleepingThread) (recs : List Nat) : List Nat :=
  recs.dropWhile fun r => (f r).delta = 0

/-- The wake-ups of several records, in order. -/
def wakeAll (k : Kernel) (rs : List Nat) : Except Halt Kernel := rs.foldlM wakeSleeper k

theorem wakeAll_cons (k : Kernel) (r : Nat) (rs : List Nat) :
    wakeAll k (r :: rs) = wakeSleeper k r >>= fun k => wakeAll k rs := rfl

/-- The only waiting thread of `s` is taken off. -/
def Kernel.aloneRemoved (k : Kernel) (s : Nat) : Kernel :=
  k.modifySem s fun x => { x with val := toI32 (x.val + 1), waitingThreads := 0 }

/-- The first of several waiting threads of `s` is unlinked and `t` gets the result. -/
def Kernel.headRemoved (k : Kernel) (s t : Nat) : Kernel :=
  { k.modifySem s fun x => { x with val := toI32 (x.val + 1) } with
    links := k.links.unlink (k.sem s).waitingThreads }.setContext (k.thread t).sp regA0
      (u64 semWaitTimeout)

theorem semRemoveThread_eq (k : Kernel) (s t : Nat) : semRemoveThread k s t =
    if (k.sem s).waitingThreads = 0 then .error (.panic "Thread lost")
    else if (k.sem s).waitingThreads = k.links.next (k.sem s).waitingThreads then
      .ok (k.aloneRemoved s)
    else .ok (k.headRemoved s t) := by
  have alone : ((k.modifySem s fun x => { x with val := toI32 (x.val + 1) }).modifySem s
      fun x => { x with waitingThreads := 0 }) = k.aloneRemoved s := by
    simp [Kernel.modifySem, Kernel.aloneRemoved]
  rw [← alone]
  unfold semRemoveThread
  by_cases nobody : (k.sem s).waitingThreads = 0
  · simp only [nobody, ↓reduceIte]
    rfl
  · simp only [nobody, ↓reduceIte]
    by_cases only : (k.sem s).waitingThreads = k.links.next (k.sem s).waitingThreads
    · rw [if_pos only]
      exact if_pos only
    · rw [if_neg only]
      exact if_neg only

/-- A round of the loop of `__scheduler_tick`. -/
theorem wakeSleeper_eq (k : Kernel) (r : Nat) : wakeSleeper k r =
    if (k.sleeping r).semaphore = 0 then .ok (schedulerPush k (k.sleeping r).thread)
    else if (k.sem (k.sleeping r).semaphore).waitingThreads = 0 then .error (.panic "Thread lost")
    else if (k.sem (k.sleeping r).semaphore).waitingThreads =
        k.links.next (k.sem (k.sleeping r).semaphore).waitingThreads then
      .ok (schedulerPush (k.aloneRemoved (k.sleeping r).semaphore) (k.sleeping r).thread)
    else .ok (schedulerPush (k.headRemoved (k.sleeping r).semaphore (k.sleeping r).thread)
      (k.sleeping r).thread) := by
  unfold wakeSleeper
  by_cases untimed : (k.sleeping r).semaphore = 0
  · simp only [untimed, ne_eq, not_true_eq_false, ↓reduceIte]
    rfl
  · simp only [untimed, ne_eq, not_false_eq_true, ↓reduceIte]
    rw [semRemoveThread_eq]
    by_cases nobody : (k.sem (k.sleeping r).semaphore).waitingThreads = 0
    · simp only [nobody, ↓reduceIte]
      rfl
    · simp only [nobody, ↓reduceIte]
      by_cases only : (k.sem (k.sleeping r).semaphore).waitingThreads =
          k.links.next (k.sem (k.sleeping r).semaphore).waitingThreads
      · rw [if_pos only, if_pos only]
        rfl
      · rw [if_neg only, if_neg only]
        rfl

/-- Waking a thread neither reads nor writes the list of records and the heap. -/
theorem wakeSleeper_setSleepers (k : Kernel) (h : Heap) (l : Links) (x r : Nat) :
    wakeSleeper (k.setSleepers h l x) r = (wakeSleeper k r).map (·.setSleepers h l x) := by
  rw [wakeSleeper_eq, wakeSleeper_eq, apply_ite (Except.map _), apply_ite (Except.map _),
    apply_ite (Except.map _)]
  rfl

theorem wakeSleeper_sleepers {k k' : Kernel} {r : Nat} (woken : wakeSleeper k r = .ok k') :
    k'.sleeping = k.sleeping ∧ k'.heap = k.heap ∧ k'.sleepLinks = k.sleepLinks ∧
      k'.scheduler.sleepingThreads = k.scheduler.sleepingThreads := by
  rw [wakeSleeper_eq] at woken
  split at woken
  · cases woken
    exact ⟨rfl, rfl, rfl, rfl⟩
  · split at woken
    · cases woken
    · split at woken <;> (cases woken; exact ⟨rfl, rfl, rfl, rfl⟩)

theorem wakeAll_setSleepers (rs : List Nat) : ∀ (k : Kernel) (h : Heap) (l : Links) (x : Nat),
    wakeAll (k.setSleepers h l x) rs = (wakeAll k rs).map (·.setSleepers h l x) := by
  induction rs with
  | nil => exact fun _ _ _ _ => rfl
  | cons r rs ih =>
    intro k h l x
    rw [wakeAll_cons, wakeAll_cons, wakeSleeper_setSleepers]
    cases wakeSleeper k r with
    | error e => rfl
    | ok k₁ => exact ih k₁ h l x

/-- The loop of `__scheduler_tick` wakes the due records and takes them off the list. -/
theorem tickLoop_run {live : Multiset (Nat × Nat)} (recs : List Nat) :
    ∀ fuel k, IsRing k.sleepLinks k.scheduler.sleepingThreads recs → recs ≠ [] →
      k.heap.Holds (recordBlocks recs + live) → recs.length < fuel →
      ∃ h l x, tickLoop fuel k k.scheduler.sleepingThreads =
          (wakeAll k (due k.sleeping recs)).map (·.setSleepers h l x) ∧
        IsRing l x (notDue k.sleeping recs) ∧ k.heap.Within h ∧
        h.Holds (recordBlocks (notDue k.sleeping recs) + live) := by
  induction recs with
  | nil => exact fun _ _ _ ne => absurd rfl ne
  | cons r rest ih =>
    intro fuel k ring _ holds len
    obtain ⟨fuel, rfl⟩ := Nat.exists_eq_add_one.mpr (Nat.zero_lt_of_lt len)
    obtain rfl : k.scheduler.sleepingThreads = r := ring.head_eq
    by_cases zero : (k.sleeping k.scheduler.sleepingThreads).delta = 0
    · have popped := (ring_pop ring).1
      have dueCons : due k.sleeping (k.scheduler.sleepingThreads :: rest) =
          k.scheduler.sleepingThreads :: due k.sleeping rest := by simp [due, zero]
      have notDueCons : notDue k.sleeping (k.scheduler.sleepingThreads :: rest) =
          notDue k.sleeping rest := by simp [notDue, zero]
      rw [recordBlocks_cons, Multiset.cons_add] at holds
      rw [dueCons, notDueCons, wakeAll_cons]
      -- the heap without the record
      obtain ⟨h, freed, within, holds'⟩ := memFree_spec holds
      have frees : ∀ k' : Kernel, k'.heap = k.heap → freeOrPanic k' k.scheduler.sleepingThreads
          sleepingFreeFailed = .ok { k' with heap := h } := by
        intro k' same
        unfold freeOrPanic Kernel.free
        rw [same, freed]
        rfl
      by_cases last : k.sleepLinks.next k.scheduler.sleepingThreads = k.scheduler.sleepingThreads
      · obtain rfl : rest = [] := ring.first_only.mp last
        refine ⟨h, k.sleepLinks, 0, ?_, rfl, within, by simpa [notDue, recordBlocks] using holds'⟩
        simp only [tickLoop, zero, ne_eq, not_true_eq_false, ↓reduceIte, last, bind, Except.bind]
        cases woken : wakeSleeper k k.scheduler.sleepingThreads with
        | error e => rfl
        | ok k₁ =>
          obtain ⟨-, heap, links, -⟩ := wakeSleeper_sleepers woken
          have done := frees (k₁.setSleepers k.heap k₁.sleepLinks 0) rfl
          rw [← heap] at done
          refine done.trans ?_
          rw [links]
          rfl
      · rw [Links.pop, if_neg last] at popped
        let links := k.sleepLinks.unlink k.scheduler.sleepingThreads
        let head := links.next k.scheduler.sleepingThreads
        have more : rest ≠ [] := ring.first_only.not.mp last
        have len' : rest.length < fuel := by simpa using len
        cases woken : wakeSleeper k k.scheduler.sleepingThreads with
        | error e =>
          obtain ⟨h', l, x, -, ring', within', holds''⟩ := ih fuel (k.setSleepers h links head)
            popped more holds' len'
          refine ⟨h', l, x, ?_, ring', within.trans within', holds''⟩
          simp only [tickLoop, zero, ne_eq, not_true_eq_false, ↓reduceIte, last, woken, bind,
            Except.bind]
          rfl
        | ok k₁ =>
          obtain ⟨sleeping, heap, links₁, -⟩ := wakeSleeper_sleepers woken
          obtain ⟨h', l, x, loop, ring', within', holds''⟩ := ih fuel (k₁.setSleepers h links head)
            popped more holds' len'
          have same : (k₁.setSleepers h links head).sleeping = k.sleeping := sleeping
          rw [same] at loop ring' holds''
          refine ⟨h', l, x, ?_, ring', within.trans within', holds''⟩
          have done := frees (k₁.setSleepers k₁.heap links head) heap
          simp only [tickLoop, zero, ne_eq, not_true_eq_false, ↓reduceIte, last, woken, bind,
            Except.bind, links₁]
          show (freeOrPanic (k₁.setSleepers k₁.heap links head) k.scheduler.sleepingThreads
            sleepingFreeFailed >>= fun k => tickLoop fuel k head) = _
          rw [done]
          refine loop.trans ?_
          rw [wakeAll_setSleepers]
          show _ = (wakeAll k₁ (due k.sleeping rest)).map _
          cases wakeAll k₁ (due k.sleeping rest) <;> rfl
    · refine ⟨k.heap, k.sleepLinks, k.scheduler.sleepingThreads, ?_, ?_, Heap.Within.refl _, ?_⟩
      · simp [tickLoop, due, zero]
        rfl
      · simpa [notDue, zero] using ring
      · simpa [notDue, zero] using holds


/-- The wake-ups of records that no semaphore has are pushes. -/
theorem wakeAll_untimed (rs : List Nat) : ∀ k : Kernel,
    (∀ r ∈ rs, (k.sleeping r).semaphore = 0) →
      wakeAll k rs = .ok (pushAll k (rs.map fun r => (k.sleeping r).thread)) := by
  induction rs with
  | nil => exact fun _ _ => rfl
  | cons r rs ih =>
    intro k untimed
    rw [wakeAll_cons, wakeSleeper_untimed (untimed r List.mem_cons_self)]
    exact ih (schedulerPush k (k.sleeping r).thread) fun r hr =>
      untimed r (List.mem_cons_of_mem _ hr)

/-- All alarms come closer by one; the threads whose alarm is due are pushed. -/
structure Kernel.Ticked (k k' : Kernel) (recs gone left : List Nat) : Prop where
  frame : k' = (pushAll { k with sleeping := k'.sleeping }
    (gone.map fun r => (k.sleeping r).thread)).setSleepers
      k'.heap k'.sleepLinks k'.scheduler.sleepingThreads
  split : recs = gone ++ left
  alarms : k'.Alarms left
  others : ∀ r, (k'.sleeping r).thread = (k.sleeping r).thread ∧
    (k'.sleeping r).semaphore = (k.sleeping r).semaphore
  woken : (gone.map fun r => (k.sleeping r).thread) =
    ((closer (times 0 (entries k.sleeping recs))).filter (·.2 = 0)).map Prod.fst
  times : times 0 (entries k'.sleeping left) =
    (closer (times 0 (entries k.sleeping recs))).filter (·.2 ≠ 0)

/-- The due records and the others, by the times they had before the decrement. -/
theorem due_times {k : Kernel} {recs : List Nat} {f : Nat → SleepingThread}
    (others : ∀ r, (f r).thread = (k.sleeping r).thread)
    (ticked : times 0 (entries f recs) = closer (times 0 (entries k.sleeping recs))) :
    ((due f recs).map fun r => (k.sleeping r).thread) =
        ((closer (times 0 (entries k.sleeping recs))).filter (·.2 = 0)).map Prod.fst ∧
      times 0 (entries f (notDue f recs)) =
        (closer (times 0 (entries k.sleeping recs))).filter (·.2 ≠ 0) := by
  obtain ⟨gone, left⟩ := times_due (entries f recs)
  rw [ticked] at gone left
  have takes : (entries f recs).takeWhile (·.2 = 0) = entries f (due f recs) :=
    List.takeWhile_map ..
  have drops : (entries f recs).dropWhile (·.2 = 0) = entries f (notDue f recs) :=
    List.dropWhile_map ..
  rw [takes] at gone
  rw [drops] at left
  refine ⟨?_, left⟩
  rw [← gone, times_fst]
  simp [entries, Function.comp_def, others]

/-- The alarms that are left after a tick are in range. -/
theorem Kernel.Alarms.later {k : Kernel} {recs : List Nat} (alarms : k.Alarms recs) :
    ∀ x ∈ (closer (times 0 (entries k.sleeping recs))).filter (·.2 ≠ 0),
      1 ≤ x.2 ∧ x.2 < 2 ^ 64 := by
  intro y hy
  rw [List.mem_filter] at hy
  obtain ⟨z, hz, rfl⟩ := List.mem_map.mp hy.1
  have := alarms.range z hz
  have := of_decide_eq_true hy.2
  dsimp only at *
  omega

/-- What the decrement of the first delta makes due. -/
theorem ticked_of {k : Kernel} {recs : List Nat} {f : Nat → SleepingThread} {h : Heap} {l : Links}
    {x : Nat} (alarms : k.Alarms recs) (ring : IsRing l x (notDue f recs))
    (others : ∀ r, (f r).thread = (k.sleeping r).thread ∧
      (f r).semaphore = (k.sleeping r).semaphore)
    (ticked : times 0 (entries f recs) = closer (times 0 (entries k.sleeping recs))) :
    k.Ticked ((pushAll { k with sleeping := f }
      ((due f recs).map fun r => (k.sleeping r).thread)).setSleepers h l x) recs (due f recs)
      (notDue f recs) := by
  obtain ⟨woken, left⟩ := due_times (fun r => (others r).1) ticked
  have sleeping : ((pushAll { k with sleeping := f }
      ((due f recs).map fun r => (k.sleeping r).thread)).setSleepers h l x).sleeping = f :=
    pushAll_sleeping ..
  refine ⟨by rw [sleeping]; rfl, List.takeWhile_append_dropWhile.symm, ⟨ring, ?_⟩,
    by rwa [sleeping], woken, by rwa [sleeping]⟩
  rw [sleeping, left]
  exact alarms.later

/-- The records when the first delta has gone down by one. -/
def Kernel.countedDown (k : Kernel) : Nat → SleepingThread :=
  if k.scheduler.sleepingThreads = 0 then k.sleeping
  else (k.modifySleeping k.scheduler.sleepingThreads fun s =>
    { s with delta := u64 (s.delta - 1) }).sleeping

theorem countedDown_others (k : Kernel) (r : Nat) :
    (k.countedDown r).thread = (k.sleeping r).thread ∧
      (k.countedDown r).semaphore = (k.sleeping r).semaphore := by
  unfold Kernel.countedDown
  split
  · exact ⟨rfl, rfl⟩
  · by_cases hr : r = k.scheduler.sleepingThreads
    · subst hr
      simp [Kernel.modifySleeping]
    · simp [Kernel.modifySleeping, hr]

theorem Kernel.Alarms.countedDown {k : Kernel} {recs : List Nat} (alarms : k.Alarms recs) :
    times 0 (entries k.countedDown recs) = closer (times 0 (entries k.sleeping recs)) := by
  have ring := alarms.ring
  cases recs with
  | nil => rfl
  | cons r rest =>
    obtain rfl : k.scheduler.sleepingThreads = r := ring.head_eq
    have nonempty : k.scheduler.sleepingThreads ≠ 0 := fun e => ring.not_null (by simp [e])
    have head := alarms.range ((k.sleeping k.scheduler.sleepingThreads).thread,
      (k.sleeping k.scheduler.sleepingThreads).delta) (by simp [times])
    have wrap : u64 ((k.sleeping k.scheduler.sleepingThreads).delta - 1) =
        (k.sleeping k.scheduler.sleepingThreads).delta - 1 := by
      dsimp only at head
      rw [u64_eq] <;> omega
    have same : entries k.countedDown rest = entries k.sleeping rest :=
      entries_congr fun r hr => by
        have ne : r ≠ k.scheduler.sleepingThreads := fun e =>
          (List.nodup_cons.mp ring.nodup).1 (e ▸ hr)
        simp [Kernel.countedDown, nonempty, Kernel.modifySleeping, ne]
    rw [entries_cons, same, entries_cons, ← times_tick head.1]
    simp [Kernel.countedDown, nonempty, Kernel.modifySleeping, wrap]

/-- A tick counts down, wakes the due records and takes them off the list. -/
theorem schedulerTick_run {k : Kernel} {recs : List Nat} {live : Multiset (Nat × Nat)}
    (alarms : k.Alarms recs) (holds : k.heap.Holds (recordBlocks recs + live))
    (len : recs.length ≤ k.heap.nMemBlocks) :
    ∃ h l x, schedulerTick k =
        (wakeAll { k with sleeping := k.countedDown } (due k.countedDown recs)).map
          (·.setSleepers h l x) ∧
      IsRing l x (notDue k.countedDown recs) ∧ k.heap.Within h ∧
      h.Holds (recordBlocks (notDue k.countedDown recs) + live) := by
  have ring := alarms.ring
  cases recs with
  | nil =>
    have empty : k.scheduler.sleepingThreads = 0 := ring
    refine ⟨k.heap, k.sleepLinks, 0, ?_, rfl, Heap.Within.refl _, holds⟩
    unfold schedulerTick Kernel.countedDown
    simp only [empty, ↓reduceIte]
    rw [← empty]
    rfl
  | cons r rest =>
    obtain rfl : k.scheduler.sleepingThreads = r := ring.head_eq
    have nonempty : k.scheduler.sleepingThreads ≠ 0 := fun e => ring.not_null (by simp [e])
    let k₁ := k.modifySleeping k.scheduler.sleepingThreads fun s =>
      { s with delta := u64 (s.delta - 1) }
    have sleeping : k.countedDown = k₁.sleeping := if_neg nonempty
    rw [sleeping]
    obtain ⟨h, l, x, loop, ring', within, holds'⟩ := tickLoop_run
      (k.scheduler.sleepingThreads :: rest) (k.heap.nMemBlocks + 1) k₁ ring (by simp) holds
      (by omega)
    refine ⟨h, l, x, ?_, ring', within, holds'⟩
    unfold schedulerTick
    simp only [nonempty, ↓reduceIte]
    by_cases more : (k₁.sleeping k.scheduler.sleepingThreads).delta ≠ 0
    · have stops : tickLoop (k.heap.nMemBlocks + 1) k₁ k₁.scheduler.sleepingThreads = .ok k₁ :=
        if_pos more
      rw [if_pos more]
      exact stops.symm.trans loop
    · rw [if_neg more]
      exact loop

theorem schedulerTick_spec {k : Kernel} {recs : List Nat} {live : Multiset (Nat × Nat)}
    (alarms : k.Alarms recs) (untimed : ∀ r ∈ recs, (k.sleeping r).semaphore = 0)
    (holds : k.heap.Holds (recordBlocks recs + live)) (len : recs.length ≤ k.heap.nMemBlocks) :
    ∃ k' gone left, schedulerTick k = .ok k' ∧ k.Ticked k' recs gone left ∧
      k.heap.Within k'.heap ∧ k'.heap.Holds (recordBlocks left + live) := by
  obtain ⟨h, l, x, tick, ring, within, holds'⟩ := schedulerTick_run alarms holds len
  have dueUntimed : ∀ r ∈ due k.countedDown recs, (k.countedDown r).semaphore = 0 :=
    fun r hr => by
      rw [(countedDown_others k r).2]
      exact untimed r ((List.takeWhile_sublist _).subset hr)
  have threads : (due k.countedDown recs).map (fun r => (k.countedDown r).thread) =
      (due k.countedDown recs).map fun r => (k.sleeping r).thread :=
    List.map_congr_left fun r _ => (countedDown_others k r).1
  rw [wakeAll_untimed _ { k with sleeping := k.countedDown } dueUntimed, threads] at tick
  exact ⟨_, _, _, tick, ticked_of (h := h) alarms ring (countedDown_others k) alarms.countedDown,
    within, holds'⟩

end RiscvKernel
