import RiscvKernel.Sleep

/-!
# Sleepers wake at their deadline

Any interleaving of `__scheduler_timeout` and `__scheduler_tick` on an empty
sleeping list: the prefix sums of the deltas are the remaining times of the
sleeps not yet due, and a sleep for `t` ticks makes one push, in the `t`-th tick.
-/

namespace RiscvKernel
open Function Intrusive DeltaList

inductive SleepEvent where
  | sleep (thread time : Nat)
  | tick

/-- The runs of the two operations, first event first. -/
inductive SleepRun : Kernel → List SleepEvent → Kernel → Prop
  | done (k : Kernel) : SleepRun k [] k
  | sleep {k k₁ k₂ : Kernel} {es : List SleepEvent} {thread time : Nat} : 1 ≤ time →
      time < 2 ^ 64 → k.heap.HasRoom (sizeInBlocks 40) →
      schedulerTimeout k thread time 0 = .ok k₁ → SleepRun k₁ es k₂ →
      SleepRun k (.sleep thread time :: es) k₂
  | tick {k k₁ k₂ : Kernel} {es : List SleepEvent} : schedulerTick k = .ok k₁ →
      SleepRun k₁ es k₂ → SleepRun k (.tick :: es) k₂

def ticks : List SleepEvent → Nat
  | [] => 0
  | .sleep _ _ :: es => ticks es
  | .tick :: es => ticks es + 1

/-- The sleeps not yet due after the events, with the time they have left. -/
def pending : List SleepEvent → List (Nat × Nat)
  | [] => []
  | .tick :: es => pending es
  | .sleep thread time :: es =>
    if ticks es < time then (thread, time - ticks es) :: pending es else pending es

/-- How many sleeps of the thread have been followed by as many ticks as they asked for. -/
def wakeups (thread : Nat) : List SleepEvent → Nat
  | [] => 0
  | .tick :: es => wakeups thread es
  | .sleep th time :: es =>
    (if th = thread ∧ time ≤ ticks es then 1 else 0) + wakeups thread es

/-- How often the thread has been pushed to the ready queue. -/
def Kernel.pushes (k : Kernel) (thread : Nat) : Nat := k.hist.pushed.count thread

section
variable {k k' : Kernel} {recs : List Nat} {live : Multiset (Nat × Nat)}

theorem Kernel.Sleeping.timeout (h : k.Sleeping recs live) (th : Nat) {time : Nat} (pos : 1 ≤ time)
    (lt : time < 2 ^ 64) (room : k.heap.HasRoom (sizeInBlocks 40)) :
    ∃ k' recs', schedulerTimeout k th time 0 = .ok k' ∧ k'.Sleeping recs' live ∧
      k'.hist = k.hist ∧ (times 0 (entries k'.sleeping recs')).Perm
        ((th, time) :: times 0 (entries k.sleeping recs)) := by
  obtain ⟨k', p, front, back, eq, put, -, holds'⟩ := schedulerTimeout_spec h.alarms h.holds
    (fun r hr => by simp [recordBlocks, hr]) h.length_le room pos lt th 0
  obtain ⟨early, late, old, new⟩ := put.times
  refine ⟨k', front ++ p :: back, eq, ⟨put.alarms, ?_, ?_⟩, ?_, ?_⟩
  · intro r hr
    by_cases hp : r = p
    · rw [hp, put.semaphore]
    · have hr' : r ∈ recs := by
        rw [put.split]
        simpa [hp] using hr
      rw [(put.others r hr').2, h.untimed r hr']
  · have perm : (front ++ p :: back).Perm (p :: recs) := put.split ▸ List.perm_middle
    have blocks : recordBlocks (front ++ p :: back) = recordBlocks (p :: recs) :=
      congrArg (Multiset.map _) (Quotient.sound perm)
    rwa [blocks, recordBlocks_cons, Multiset.cons_add]
  · rw [put.frame]
  · rw [old, new]
    exact List.perm_middle

theorem pushAll_pushed (k : Kernel) (ts : List Nat) :
    (pushAll k ts).hist.pushed = k.hist.pushed ++ ts := by
  induction ts generalizing k with
  | nil => simp
  | cons t ts ih =>
    rw [pushAll_cons, ih, ← List.singleton_append (l := ts), ← List.append_assoc]
    rfl

theorem Kernel.Sleeping.tick (h : k.Sleeping recs live) :
    ∃ k' left, schedulerTick k = .ok k' ∧ k'.Sleeping left live ∧
      k'.hist.pushed = k.hist.pushed ++
        ((closer (times 0 (entries k.sleeping recs))).filter (·.2 = 0)).map Prod.fst ∧
      times 0 (entries k'.sleeping left) =
        (closer (times 0 (entries k.sleeping recs))).filter (·.2 ≠ 0) := by
  obtain ⟨k', gone, left, eq, ticked, -, holds'⟩ :=
    schedulerTick_spec h.alarms h.untimed h.holds h.length_le
  refine ⟨k', left, eq, ⟨ticked.alarms, fun r hr => ?_, holds'⟩, ?_, ticked.times⟩
  · rw [(ticked.others r).2]
    exact h.untimed r (by simp [ticked.split, hr])
  · rw [ticked.frame, ← ticked.woken]
    exact pushAll_pushed ..

end

/-! ## Runs -/

/-- The alarms of `xs` that are still to come after `n` ticks. -/
def aged (n : Nat) (xs : List (Nat × Nat)) : List (Nat × Nat) :=
  (xs.filter (n < ·.2)).map fun x => (x.1, x.2 - n)

/-- How many alarms of the thread come within `n` ticks. -/
def dueWithin (n thread : Nat) (xs : List (Nat × Nat)) : Nat :=
  xs.countP fun x => x.1 = thread ∧ x.2 ≤ n

theorem aged_tick (n : Nat) (xs : List (Nat × Nat)) :
    aged n ((closer xs).filter (·.2 ≠ 0)) = aged (n + 1) xs := by
  have later : ∀ x : Nat × Nat,
      (decide (n < x.2 - 1) && decide (x.2 - 1 ≠ 0)) = decide (n + 1 < x.2) := by
    intro x
    simp only [← Bool.decide_and, decide_eq_decide]
    omega
  have sub : ∀ x : Nat × Nat, x.2 - 1 - n = x.2 - (n + 1) := fun x => by omega
  simp only [aged, closer, List.filter_map, List.filter_filter, List.map_map, Function.comp_def,
    later, sub]

theorem dueWithin_tick (n thread : Nat) (xs : List (Nat × Nat)) :
    (((closer xs).filter (·.2 = 0)).map Prod.fst).count thread +
      dueWithin n thread ((closer xs).filter (·.2 ≠ 0)) = dueWithin (n + 1) thread xs := by
  induction xs with
  | nil => rfl
  | cons x xs ih =>
    obtain ⟨th, m⟩ := x
    simp only [closer, dueWithin, List.map_cons, List.countP_cons] at ih ⊢
    by_cases now : m - 1 = 0
    · have soon : m ≤ n + 1 := by omega
      rw [List.filter_cons_of_pos (by simpa using now),
        List.filter_cons_of_neg (by simpa using now),
        List.map_cons, List.count_cons, ← ih]
      simp only [soon, and_true, beq_iff_eq, decide_eq_true_eq]
      omega
    · have same : m - 1 ≤ n ↔ m ≤ n + 1 := by omega
      rw [List.filter_cons_of_neg (by simpa using now),
        List.filter_cons_of_pos (by simpa using now),
        List.countP_cons, ← ih]
      simp only [same]
      omega

theorem dueWithin_cons (n thread th time : Nat) (xs : List (Nat × Nat)) :
    dueWithin n thread ((th, time) :: xs) =
      (if th = thread ∧ time ≤ n then 1 else 0) + dueWithin n thread xs := by
  simp only [dueWithin, List.countP_cons, decide_eq_true_eq]
  omega

theorem aged_cons (n th time : Nat) (xs : List (Nat × Nat)) :
    aged n ((th, time) :: xs) = (if n < time then [(th, time - n)] else []) ++ aged n xs := by
  unfold aged
  by_cases later : n < time <;> simp [later]

theorem aged_perm (n : Nat) {xs ys : List (Nat × Nat)} (h : xs.Perm ys) :
    (aged n xs).Perm (aged n ys) :=
  (h.filter _).map _

/-- What a run does to the alarms, and the pushes it makes. -/
theorem SleepRun.alarms {k k' : Kernel} {es : List SleepEvent} (run : SleepRun k es k')
    {recs : List Nat} {live : Multiset (Nat × Nat)} (h : k.Sleeping recs live) :
    ∃ recs', k'.Sleeping recs' live ∧
      (times 0 (entries k'.sleeping recs')).Perm
        (aged (ticks es) (times 0 (entries k.sleeping recs)) ++ pending es) ∧
      ∀ th, k'.pushes th = k.pushes th +
        dueWithin (ticks es) th (times 0 (entries k.sleeping recs)) + wakeups th es := by
  induction run generalizing recs with
  | done k =>
    refine ⟨recs, h, ?_, fun th => ?_⟩
    · have all : aged 0 (times 0 (entries k.sleeping recs)) =
      times 0 (entries k.sleeping recs) := by
        unfold aged
        rw [List.filter_eq_self.mpr fun x hx => by
          have := (h.alarms.range x hx).1
          exact decide_eq_true (by omega)]
        simp
      simp [ticks, pending, all]
    · have none_due : dueWithin 0 th (times 0 (entries k.sleeping recs)) = 0 := by
        refine List.countP_eq_zero.mpr fun x hx => ?_
        have := (h.alarms.range x hx).1
        simp only [decide_eq_true_eq, not_and]
        omega
      simp [ticks, wakeups, none_due]
  | @sleep k k₁ k₂ es thread time pos lt room eq _ ih =>
    obtain ⟨k₁', recs₁, eq', h₁, hist, perm⟩ := h.timeout thread pos lt room
    obtain rfl : k₁' = k₁ := Except.ok.inj (eq'.symm.trans eq)
    obtain ⟨recs', h', perm', pushes⟩ := ih h₁
    refine ⟨recs', h', perm'.trans ?_, fun th => ?_⟩
    · have older := aged_perm (ticks es) perm
      rw [aged_cons] at older
      refine (older.append_right (pending es)).trans ?_
      simp only [ticks, pending]
      split
      · exact List.perm_middle.symm
      · exact List.Perm.refl _
    · have counted := pushes th
      have same : k₁'.pushes th = k.pushes th := by
        unfold Kernel.pushes
        rw [hist]
      have due : dueWithin (ticks es) th (times 0 (entries k₁'.sleeping recs₁)) =
          dueWithin (ticks es) th ((thread, time) :: times 0 (entries k.sleeping recs)) :=
        perm.countP_eq _
      rw [due, dueWithin_cons, same] at counted
      simp only [ticks, wakeups]
      omega
  | @tick k k₁ k₂ es eq _ ih =>
    obtain ⟨k₁', recs₁, eq', h₁, pushed, left⟩ := h.tick
    obtain rfl : k₁' = k₁ := Except.ok.inj (eq'.symm.trans eq)
    obtain ⟨recs', h', perm', pushes⟩ := ih h₁
    refine ⟨recs', h', ?_, fun th => ?_⟩
    · rw [left, aged_tick] at perm'
      exact perm'
    · have counted := pushes th
      have more : k₁'.pushes th =
        k.pushes th + (((closer (times 0 (entries k.sleeping recs))).filter
          (·.2 = 0)).map Prod.fst).count th := by
        unfold Kernel.pushes
        rw [pushed, List.count_append]
      rw [left] at counted
      have due := dueWithin_tick (ticks es) th (times 0 (entries k.sleeping recs))
      simp only [ticks, wakeups]
      omega

/-- **Sleepers wake at their deadline.** After every run that starts with an
empty sleeping list, the prefix sums of the deltas are the times the sleeps not
yet due have left, in order, and no sum leaves the range of a word; every sleep
for `t` ticks has made one push of its thread from the `t`-th following tick
on and none before; and neither operation fails. -/
theorem sleepers_wake_at_deadline {k₀ k : Kernel} {es : List SleepEvent}
    {live : Multiset (Nat × Nat)} (holds : k₀.heap.Holds live)
    (empty : k₀.scheduler.sleepingThreads = 0) (run : SleepRun k₀ es k) :
    (∃ recs, IsRing k.sleepLinks k.scheduler.sleepingThreads recs ∧
      (times 0 (entries k.sleeping recs)).Perm (pending es) ∧
      (times 0 (entries k.sleeping recs)).Pairwise (fun x y => x.2 ≤ y.2) ∧
      (∀ r ∈ recs.head?, 1 ≤ (k.sleeping r).delta) ∧
      ∀ x ∈ times 0 (entries k.sleeping recs), x.2 < 2 ^ 64) ∧
    (∀ th, k.pushes th = k₀.pushes th + wakeups th es) ∧
    (∃ k', schedulerTick k = .ok k') ∧
    ∀ th time, 1 ≤ time → time < 2 ^ 64 → k.heap.HasRoom (sizeInBlocks 40) →
      ∃ k', schedulerTimeout k th time 0 = .ok k' := by
  have start : k₀.Sleeping [] live := by
    refine ⟨⟨empty, ?_⟩, ?_, ?_⟩
    · simp [times]
    · simp
    · simpa [recordBlocks] using holds
  obtain ⟨recs, h, perm, pushes⟩ := run.alarms start
  refine ⟨⟨recs, h.alarms.ring, ?_, times_sorted 0 _, ?_, fun x hx => (h.alarms.range x hx).2⟩,
    ?_, ?_, ?_⟩
  · simpa [times, aged] using perm
  · intro r hr
    obtain ⟨rest, rfl⟩ : ∃ rest, recs = r :: rest := by
      cases recs with
      | nil => simp at hr
      | cons x rest => exact ⟨rest, by rw [Option.some.inj hr]⟩
    simpa using (h.alarms.range _ List.mem_cons_self).1
  · intro th
    simpa [times, dueWithin] using pushes th
  · obtain ⟨k', -, eq, -⟩ := h.tick
    exact ⟨k', eq⟩
  · intro th time pos lt room
    obtain ⟨k', -, eq, -⟩ := h.timeout th pos lt room
    exact ⟨k', eq⟩

/-- A kernel with the heap `h`, where nothing has happened. -/
def quietKernel (h : Heap) : Kernel where
  image := ⟨0, 0, 0⟩
  heap := h
  thread := fun _ => ⟨0, 0, 0, 0, 0⟩
  links := ⟨fun _ => 0, fun _ => 0⟩
  sleeping := fun _ => ⟨0, 0, 0⟩
  sleepLinks := ⟨fun _ => 0, fun _ => 0⟩
  sem := fun _ => ⟨0, 0, 0⟩
  schedulerPtr := 0
  scheduler := ⟨0, 0, 0, 0, 0⟩
  semTable := ⟨0, fun _ => 0, 0⟩
  console := ⟨⟨0, fun _ => 0, 0⟩, ⟨0, fun _ => 0, 0⟩, 0, 0, ⟨fun _ => 0, fun _ => 0, 0, 0, []⟩⟩
  threadsWaitingForInput := 0
  systemStack := 0
  mem := fun _ => 0
  hart := ⟨0, 0, 0, 0, 0, 0, true⟩
  hist := ⟨[], [], [], [], fun _ => 0, fun _ => 0, fun _ => [], [], [], [], [],
    fun _ => .created 0 0 0⟩

theorem sleepers_wake_at_deadline_small : ∃ k,
    SleepRun (quietKernel smallInit) [.sleep 8 1, .tick] k ∧ k.pushes 8 = 1 := by
  have holds : smallInit.Holds 0 := (HeapRun.holds smallHeap_fresh (.init rfl)).1
  obtain ⟨cs, tiles, c, hc, unused, le⟩ := smallInit_room
  have room : smallInit.HasRoom (sizeInBlocks 40) :=
    ⟨cs, tiles, c, hc, unused, le.trans' (by decide)⟩
  obtain ⟨-, -, -, sleeps⟩ := @sleepers_wake_at_deadline (quietKernel smallInit) _ _ _ holds rfl
    (.done _)
  obtain ⟨k₁, asleep⟩ := sleeps 8 1 (by decide) (by decide) room
  have first : SleepRun (quietKernel smallInit) [.sleep 8 1] k₁ :=
    .sleep (by decide) (by decide) room asleep (.done k₁)
  obtain ⟨-, -, ⟨k₂, ticked⟩, -⟩ := sleepers_wake_at_deadline holds rfl first
  have run : SleepRun (quietKernel smallInit) [.sleep 8 1, .tick] k₂ :=
    .sleep (by decide) (by decide) room asleep (.tick ticked (.done k₂))
  exact ⟨k₂, run, (sleepers_wake_at_deadline holds rfl run).2.1 8⟩

end RiscvKernel
