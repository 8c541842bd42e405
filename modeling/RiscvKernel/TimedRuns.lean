import RiscvKernel.TimedTraps

/-!
# Timed waits end on time

`TimedRun`: the runs whose traps meet the condition of `Trap.Meets`, with all system calls.

* `run_watch`: until its tick, an alarm is set, and the timer interrupts so far are taken from
  its time;
* `timed_wait_ends_on_time`: in every such run each alarm comes at its own timer interrupt.
-/

namespace RiscvKernel
open Function Intrusive Placement DeltaList

/-- The trap keeps the promises, meets the condition and returns. -/
structure Trap.Goes (tr : Trap) (k k' : Kernel) : Prop where
  fits : tr.FitsTimed k
  meets : tr.Meets k
  taken : trap k tr = .ok k'

/-- The runs whose traps meet the condition, first trap first. -/
inductive TimedRun : Kernel → List Trap → Kernel → Prop
  | done (k : Kernel) : TimedRun k [] k
  | next {k k₁ k₂ : Kernel} {tr : Trap} {trs : List Trap} : tr.Goes k k₁ →
      TimedRun k₁ trs k₂ → TimedRun k (tr :: trs) k₂

theorem TimedRun.split {trs trs' : List Trap} : ∀ {k k₂ : Kernel}, TimedRun k (trs ++ trs') k₂ →
    ∃ k₁, TimedRun k trs k₁ ∧ TimedRun k₁ trs' k₂ := by
  induction trs with
  | nil => exact fun {k _} run => ⟨k, .done k, run⟩
  | cons tr trs ih =>
    intro k k₂ run
    cases run with
    | next goes rest =>
      obtain ⟨k₁, run₁, run₂⟩ := ih rest
      exact ⟨k₁, .next goes run₁, run₂⟩

/-! ## Runs -/

/-- The number of timer interrupts. -/
def timerTicks (trs : List Trap) : Nat := trs.countP fun tr => tr.scause = irqTimer

section
variable {k k' : Kernel} {b : Threads} {recs : List Nat} {tr : Trap} {trs : List Trap}

/-- Without timed waits, a kernel is watched over between any two traps. -/
theorem Kernel.Rest.watch (rest : k.Rest b recs) : k.Watch b recs := by
  have inv := rest.inv
  refine ⟨⟨inv.timers, inv.places.known, inv.placed, fun {t r} here => ?_, fun {t} ht => ?_,
    fun {t} ht zero => ?_, inv.places.count⟩, rest.supervisor, rest.modes, rest.receiveRoom,
    rest.sendRoom⟩
  · obtain ⟨hr, thread⟩ := inv.places.asleep.mp here
    exact ⟨hr, inv.places.untimed r hr, thread⟩
  · have slices : k.slice t = 1 ∨ k.slice t = 2 := inv.places.slices ht
    omega
  · have slices : k.slice t = 1 ∨ k.slice t = 2 := inv.places.slices ht
    omega

/-- Until its tick, an alarm is set and the ticks so far are taken from its time. -/
theorem run_watch (run : TimedRun k trs k') : ∀ {b recs}, k.Watch b recs →
    ∃ b' recs', k'.Watch b' recs' ∧
      ∀ {th s n}, (∀ tr ∈ trs, ¬ tr.SignalsSem s) → timerTicks trs < n → k.Alarm recs th s n →
        k'.Alarm recs' th s (n - timerTicks trs) := by
  induction run with
  | done k => exact fun {b recs} watch => ⟨b, recs, watch, fun _ _ alarm => alarm⟩
  | @next k k₁ k₂ tr trs goes _ ih =>
    intro b recs watch
    obtain ⟨b₁, recs₁, watch₁, keeps, later, -, -⟩ :=
      trap_watch watch goes.fits goes.meets goes.taken
    obtain ⟨b₂, recs₂, watch₂, rest⟩ := ih watch₁
    refine ⟨b₂, recs₂, watch₂, fun {th s n} quiet lt alarm => ?_⟩
    have quiet' : ∀ tr ∈ trs, ¬ tr.SignalsSem s := fun tr h => quiet tr (List.mem_cons_of_mem _ h)
    by_cases timer : tr.scause = irqTimer
    · have count : timerTicks (tr :: trs) = timerTicks trs + 1 :=
        List.countP_cons_of_pos (by simpa using timer)
      rw [count] at lt ⊢
      obtain ⟨m, rfl⟩ : ∃ m, n = m + 2 := ⟨n - 2, by omega⟩
      have := rest quiet' (by omega) (later timer alarm)
      rwa [show m + 2 - (timerTicks trs + 1) = m + 1 - timerTicks trs by omega]
    · have count : timerTicks (tr :: trs) = timerTicks trs :=
        List.countP_cons_of_neg (by simpa using timer)
      rw [count] at lt ⊢
      exact rest quiet' lt (keeps timer (quiet tr List.mem_cons_self) alarm)

/-! ## Being on time -/

/-- The sleeping list has an alarm of `th` for the semaphore `s` in `n` ticks. -/
def Kernel.IsSet (k : Kernel) (th s n : Nat) : Prop :=
  ∃ recs, IsRing k.sleepLinks k.scheduler.sleepingThreads recs ∧ k.Alarm recs th s n

/-- `th` waits in the ring of `s`. -/
def Kernel.WaitsIn (k : Kernel) (th s : Nat) : Prop :=
  ∃ ws, IsRing k.links (k.sem s).waitingThreads ws ∧ th ∈ ws

/-- `th` is once in the ready queue. -/
def Kernel.IsReady (k : Kernel) (th : Nat) : Prop :=
  ∃ rs, IsRing k.links k.scheduler.readyThreads rs ∧ rs.count th = 1

/-- After the traps `trs`, an alarm that had `n` ticks left has come at its tick and no sooner:
the thread is ready, or the interrupt has dispatched to it already. -/
structure Kernel.OnTime (k : Kernel) (trs : List Trap) (th s n : Nat) : Prop where
  early : timerTicks trs < n → k.IsSet th s (n - timerTicks trs) ∧ (s ≠ 0 → k.WaitsIn th s)
  now : timerTicks trs = n → (∃ tr ∈ trs.getLast?, tr.scause = irqTimer) →
    (k.IsReady th ∨ th = k.scheduler.threadCurrent) ∧ ∀ s ∈ k.hist.opened, ¬ k.WaitsIn th s

theorem Kernel.Watch.isSet (watch : k.Watch b recs) {th s n : Nat} :
    k.IsSet th s n ↔ k.Alarm recs th s n := by
  constructor
  · rintro ⟨recs', ring, alarm⟩
    rwa [watch.alarms.ring.unique ring]
  · exact fun alarm => ⟨recs, watch.alarms.ring, alarm⟩

theorem Kernel.Watch.waitsIn (watch : k.Watch b recs) {th s : Nat}
    (opened : s ∈ k.hist.opened) : k.WaitsIn th s ↔ b.loc th = some (.queue (.sem s)) := by
  have ring : IsRing k.links (k.sem s).waitingThreads (b.queue (.sem s)) :=
    watch.rings.ring (.sem s) opened
  rw [← b.mem_queue]
  constructor
  · rintro ⟨ws, ring', mem⟩
    rwa [ring.unique ring']
  · exact fun mem => ⟨_, ring, mem⟩

theorem Kernel.Watch.waits_of_alarm (watch : k.Watch b recs) {th s n : Nat}
    (alarm : k.Alarm recs th s n) (timed : s ≠ 0) : k.WaitsIn th s := by
  obtain ⟨⟨r, hr, rfl, rfl⟩, -⟩ := alarm
  have here := watch.waiting r hr timed
  have mem := b.mem_queue.mpr here
  have opened : k.view.Active (.sem (k.sleeping r).semaphore) := by
    by_contra idle
    rw [watch.rings.idle _ idle] at mem
    cases mem
  exact (watch.waitsIn opened).mpr here

/-- **An alarm comes on time.** -/
theorem alarm_on_time {th s n : Nat} (watch : k.Watch b recs) (run : TimedRun k trs k')
    (set : k.IsSet th s n) (quiet : ∀ tr ∈ trs, ¬ tr.SignalsSem s) : k'.OnTime trs th s n := by
  have alarm := watch.isSet.mp set
  constructor
  · intro early
    obtain ⟨b', recs', watch', keeps⟩ := run_watch run watch
    have left := keeps quiet early alarm
    exact ⟨watch'.isSet.mpr left, watch'.waits_of_alarm left⟩
  · rintro now ⟨tr, last, timer⟩
    obtain ⟨trs, rfl⟩ := List.getLast?_eq_some_iff.mp last
    obtain ⟨k₁, run₁, run₂⟩ := run.split
    have count : timerTicks (trs ++ [tr]) = timerTicks trs + 1 := by simp [timerTicks, timer]
    obtain ⟨b₁, recs₁, watch₁, keeps⟩ := run_watch run₁ watch
    have left := keeps (fun tr h => quiet tr (List.mem_append_left _ h)) (by omega) alarm
    rw [show n - timerTicks trs = 1 by omega] at left
    cases run₂ with
    | next goes rest =>
      cases rest
      obtain ⟨b', recs', watch', -, -, due, -⟩ :=
        trap_watch watch₁ goes.fits goes.meets goes.taken
      have here := due timer left
      refine ⟨here.imp (fun ready => ?_) watch'.running.mp, fun s opened waits => ?_⟩
      · have ring : IsRing k'.links k'.scheduler.readyThreads (b'.queue .ready) :=
          watch'.rings.ring .ready trivial
        exact ⟨_, ring, List.count_eq_one_of_mem (b'.nodup .ready) (b'.mem_queue.mpr ready)⟩
      · rw [watch'.waitsIn opened] at waits
        rw [waits] at here
        simp at here

end

/-- **Timed waits end on time.** In every run whose traps meet the condition, a timed wait of
`time` ticks returns to the kernel's next thread and ends in the `time`-th timer interrupt unless
its semaphore is signalled, and so does every other alarm, set before or after it. No alarm is
ever due or out of range between two traps, and the next trap that looks at the sleeping list
returns. -/
theorem timed_wait_ends_on_time {k₀ k₁ k : Kernel} {before : List Trap} {tr : Trap}
    {s time : Nat} (reached : Run anyTrap k₀ k₁) (run : TimedRun k₁ before k)
    (call : tr.Calls syscallSemTimedWait) (sem : tr.regs regA1 = s) (timeout : tr.regs regA2 = time)
    (fits : tr.FitsTimed k) (meets : tr.Meets k) :
    ∃ k', trap k tr = .ok k' ∧ ∀ {after k''}, TimedRun k' after k'' →
      ((∀ tr ∈ after, ¬ tr.SignalsSem s) →
        k''.OnTime after k.scheduler.threadCurrent s time) ∧
      (∀ th s' n, k.IsSet th s' n → (∀ tr ∈ after, ¬ tr.SignalsSem s') →
        k''.OnTime after th s' n) ∧
      (∀ trs trs' k₂, after = trs ++ trs' → TimedRun k' trs k₂ → TimedRun k₂ trs' k'' →
        ∀ th s' n, k₂.IsSet th s' n → (∀ tr ∈ trs', ¬ tr.SignalsSem s') →
          k''.OnTime trs' th s' n) ∧
      (∃ recs, k''.Alarms recs) ∧
      ∀ tr : Trap, tr.LooksAtSleepers → tr.FitsTimed k'' → tr.Meets k'' →
        ∃ k₃, trap k'' tr = .ok k₃ := by
  obtain ⟨b₁, recs₁, rest⟩ := run_rest reached
  obtain ⟨b₂, recs₂, watch, -⟩ := run_watch run rest.watch
  obtain ⟨k', b₃, recs₃, taken, watch', keeps, alarm⟩ := timedWait_watch watch fits meets call
  refine ⟨k', taken, fun {after k''} run' => ?_⟩
  obtain ⟨b₄, recs₄, watch'', -⟩ := run_watch run' watch'
  refine ⟨?_, fun th s' n set quiet => ?_, ?_, ⟨recs₄, watch''.alarms⟩,
    fun tr looks fits meets => looks_returns watch'' fits meets looks⟩
  · rw [sem, timeout] at alarm
    exact alarm_on_time watch' run' (watch'.isSet.mpr alarm)
  · have kept := keeps (watch.isSet.mp set)
    exact alarm_on_time watch' run' (watch'.isSet.mpr kept) quiet
  · intro trs trs' k₂ _ run₁ run₂ th s' n set quiet
    obtain ⟨b, recs, watch₂, -⟩ := run_watch run₁ watch'
    exact alarm_on_time watch₂ run₂ set quiet

theorem timedWaitCall_fits {k : Kernel} {b : Threads} {p s : Nat} (small : SmallCall k b p s)
    {time : Nat} (word : time < 2 ^ 64) : (timedWaitCall k s time).FitsTimed k := by
  have rest := small.user.rest
  have mode : k.hart.supervisor = false :=
    rest.supervisor.trans (decide_eq_false small.user_ne)
  have handle := opened_lt rest.inv small.mem
  refine ⟨?_, fun _ => mode, fun h => ?_, fun i => ?_, fun _ other => absurd rfl other,
    fun _ => ⟨small.mem, small.room⟩⟩
  · exact (show (0 : Nat).testBit 8 = false by decide).trans mode.symm
  · exact absurd h (show irqEcallUser ≠ irqEcallKernel by decide)
  · show (if _ then _ else if _ then _ else if _ then _ else if _ then _ else _) < _
    repeat' split
    · decide
    · exact handle
    · exact word
    all_goals decide

theorem timedWaitCall_meets {k : Kernel} {b : Threads} {p s time : Nat} (small : SmallCall k b p s)
    (pos : 1 ≤ time) : (timedWaitCall k s time).Meets k := by
  have code : ∀ c, c ≠ syscallSemTimedWait → ¬ (timedWaitCall k s time).Calls c :=
    fun c other call => other call.2.symm
  refine ⟨fun _ => ⟨pos, small.low⟩, fun call => absurd call (code _ (by decide)),
    fun call => absurd call (code _ (by decide)), fun timer => ?_⟩
  exact absurd timer (show irqEcallUser ≠ irqTimer by decide)

theorem Trap.Fits.timed {k : Kernel} {tr : Trap} (fits : tr.Fits k) : tr.FitsTimed k :=
  ⟨fits.mode, fits.userCall, fits.kernelCall, fits.words, fun user _ => fits.request user,
    fun call => absurd call.2 (fits.request call.1).untimed⟩

/-- The first user thread waits for one tick. -/
theorem timed_wait_ends_on_time_small : ∃ k b p s k' k'', SmallCall k b p s ∧
    trap k (timedWaitCall k s 1) = .ok k' ∧ k'.WaitsIn p s ∧ TimedRun k' [timerTrap k'] k'' ∧
    (k''.IsReady p ∨ p = k''.scheduler.threadCurrent) ∧
    ∀ s ∈ k''.hist.opened, ¬ k''.WaitsIn p s := by
  obtain ⟨k, b, p, s, small⟩ := small_call
  obtain ⟨k₁, b₁, r, ran, timers, alarm, queue, -⟩ :=
    small_timed_wait 1 small (by decide) (by decide)
  have current : k.scheduler.threadCurrent = p := small.user.current
  let tr := timedWaitCall k s 1
  obtain ⟨k', taken, onTime⟩ := timed_wait_ends_on_time small.user.run (.done k)
    (⟨rfl, rfl⟩ : tr.Calls syscallSemTimedWait) (rfl : tr.regs regA1 = s) (rfl : tr.regs regA2 = 1)
    (timedWaitCall_fits small (by decide)) (timedWaitCall_meets small (by decide))
  obtain rfl : leave k₁ = k' := Except.ok.inj ((trap_timedWait ran).symm.trans taken)
  obtain ⟨waits, -, -, -, returns⟩ := onTime (.done _)
  have first := (waits (by simp)).early (show 0 < 1 by decide)
  rw [current] at first
  have meets : (timerTrap (leave k₁)).Meets (leave k₁) := by
    have cause : irqTimer ≠ irqEcallUser := by decide
    refine ⟨fun h => absurd h.1 cause, fun h => absurd h.1 cause, fun h => absurd h.1 cause,
      fun _ recs ring x hx _ => ?_⟩
    obtain rfl : recs = [r] := ring.unique timers.alarms.ring
    have sub : (k₁.expiring [r]).Sublist [r] := List.takeWhile_sublist _
    obtain rfl : x = r := by simpa using sub.subset hx
    obtain ⟨⟨y, hy, -, semaphore⟩, -⟩ := alarm
    obtain rfl : y = x := by simpa using hy
    obtain ⟨head, next, -⟩ := timers.rings.alone queue
    have semaphore : ((leave k₁).sleeping y).semaphore = s := semaphore
    rw [semaphore]
    show k₁.links.next (k₁.sem s).waitingThreads = (k₁.sem s).waitingThreads
    rw [head, next]
  obtain ⟨k'', ticked⟩ := returns _ (Or.inl rfl) ((timerTrap_fits _).timed) meets
  have run : TimedRun (leave k₁) [timerTrap (leave k₁)] k'' :=
    .next ⟨(timerTrap_fits _).timed, meets, ticked⟩ (.done k'')
  have quiet : ∀ tr ∈ [timerTrap (leave k₁)], ¬ tr.SignalsSem s := by
    intro tr mem signals
    rw [List.mem_singleton.mp mem] at signals
    exact absurd signals.1.1 (show irqTimer ≠ irqEcallUser by decide)
  have ended := ((onTime run).1 quiet).now rfl ⟨_, rfl, rfl⟩
  rw [current] at ended
  exact ⟨k, b, p, s, leave k₁, k'', small, taken, first.2 small.nonzero, run, ended⟩

/-! ## A timeout of no ticks -/

/-- The first record of a list has the time as it is. -/
theorem schedulerTimeout_first {k : Kernel} {live : Multiset (Nat × Nat)}
    (empty : k.scheduler.sleepingThreads = 0) (holds : k.heap.Holds live)
    (room : k.heap.HasRoom (sizeInBlocks 40)) (th time s : Nat) :
    ∃ k₁ r, schedulerTimeout k th time s = .ok k₁ ∧ k₁.sleeping r = ⟨th, s, time⟩ ∧
      IsRing k₁.sleepLinks k₁.scheduler.sleepingThreads [r] := by
  obtain ⟨r, h, new, -, -, nonzero, -⟩ := newSleeping_spec holds room th s time
  let k₁ : Kernel := { k with
    heap := h
    sleeping := update k.sleeping r ⟨th, s, time⟩
    sleepLinks := (k.sleepLinks.setNext r r).setPrev r r
    scheduler := { k.scheduler with sleepingThreads := r } }
  refine ⟨k₁, r, ?_, update_self .., rfl, ?_, by simp, by simpa using nonzero.symm⟩
  · unfold schedulerTimeout
    simp only [empty, ↓reduceIte]
    rw [new]
    rfl
  · simp [k₁, Intrusive.Path, Links.setNext, Links.setPrev]

/-- The decrement of a delta of 0 wraps. -/
theorem schedulerTick_wraps {k : Kernel} {r : Nat} (head : k.scheduler.sleepingThreads = r)
    (nonzero : r ≠ 0) (zero : (k.sleeping r).delta = 0) :
    schedulerTick k = .ok (k.modifySleeping r fun x => { x with delta := 2 ^ 64 - 1 }) := by
  have wrap : u64 (0 - 1) = 2 ^ 64 - 1 := by decide
  have kept : 2 ^ 64 - 1 ≠ 0 := by decide
  unfold schedulerTick
  simp only [head, nonzero, ↓reduceIte, Kernel.modifySleeping, update_self, zero, Nat.cast_zero,
    wrap, kept, ne_eq, not_false_eq_true]
  rfl

/-- A timed wait for 0 ticks goes on after the next tick. -/
theorem timed_wait_wraps : ∃ k b p s k' k'' r, SmallCall k b p s ∧
    trap k (timedWaitCall k s 0) = .ok k' ∧ schedulerTick k' = .ok k'' ∧
    IsRing k''.sleepLinks k''.scheduler.sleepingThreads [r] ∧ (k''.sleeping r).thread = p ∧
    (k''.sleeping r).delta = 2 ^ 64 - 1 ∧ k''.WaitsIn p s ∧ ¬ k''.IsReady p := by
  obtain ⟨k, b, p, s, small⟩ := small_call
  have inv := small.inv 0
  have current : (timedCall k s 0).scheduler.threadCurrent = p := small.user.current
  have empty : (timedCall k s 0).marked.scheduler.sleepingThreads = 0 := inv.places.sleepers
  obtain ⟨k₁, r, timeout, record, list⟩ := schedulerTimeout_first empty inv.owns small.room
    (timedCall k s 0).scheduler.threadCurrent 0 s
  have only : k₁ = _ := schedulerTimeout_only timeout
  have same : k₁.scheduler.threadCurrent = (timedCall k s 0).scheduler.threadCurrent := by
    rw [only]
    rfl
  have low : toI32 ((k₁.sem s).val - 1) < 0 := by
    rw [only]
    exact small.low
  let k₂ := semPush (switch (k₁.waited s)) s k₁.scheduler.threadCurrent
  have ran : semTimedWait (timedCall k s 0) s 0 = .ok (1, k₂) := by
    unfold semTimedWait
    show schedulerTimeout (timedCall k s 0).marked _ _ _ >>= _ = _
    rw [timeout]
    exact congrArg Except.ok (semWait_blocks low)
  obtain ⟨b', n, passed, queue⟩ := inv.timers.passed_wait (k₁.waited s) (s := s) small.user_ne
    (by show k₁.links = _; rw [only]; rfl) ((waited_head k₁ s).trans (by rw [only]; rfl))
    (by show k₁.hist.opened = _; rw [only]; rfl)
    (by show k₁.scheduler.kernelMain = _; rw [only]; rfl) small.mem
  have kept := semPush_sleepers k₁ s
  rw [← same] at passed queue
  rw [same, current, small.user.idle, List.nil_append] at queue
  have head : (leave k₂).scheduler.sleepingThreads = r := kept.head.trans list.head_eq
  have record' : (leave k₂).sleeping r = ⟨p, s, 0⟩ := by
    rw [← current, ← record]
    exact congrFun kept.sleeping r
  have tick := schedulerTick_wraps head (fun e => list.not_null (by simp [e])) (by rw [record'])
  have ring : IsRing k₂.links (k₂.sem s).waitingThreads [p] := by
    rw [← queue]
    refine passed.rings.ring (.sem s) ?_
    show s ∈ (switch (k₁.waited s)).hist.opened
    rw [switch_hist]
    show s ∈ k₁.hist.opened
    rw [only]
    exact small.mem
  have here : p ∈ b'.queue (.sem s) := by
    rw [queue]
    exact List.mem_singleton_self p
  refine ⟨k, b, p, s, leave k₂, _, r, small, trap_timedWait ran, tick, ?_, ?_, ?_,
    ⟨[p], ring, by simp⟩,
    ?_⟩
  · show IsRing k₂.sleepLinks k₂.scheduler.sleepingThreads [r]
    rw [kept.links, kept.head]
    exact list
  · simp [Kernel.modifySleeping, record']
  · simp [Kernel.modifySleeping]
  · rintro ⟨rs, ready, once⟩
    have ready' : IsRing k₂.links k₂.scheduler.readyThreads (b'.queue .ready) :=
      passed.rings.ring .ready trivial
    rw [ready.unique ready'] at once
    have mem := List.count_pos_iff.mp (once ▸ Nat.one_pos)
    exact absurd (b'.apart mem here) (by simp)

end RiscvKernel
