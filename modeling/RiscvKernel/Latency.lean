import RiscvKernel.Turns

/-!
# How long a sleep takes

* `Kernel.Passes`: the traps between two states, counted by their timer interrupts;
* `passes_alarm`: an alarm comes closer by one with every timer interrupt;
* `sleep_latency`: a thread that sleeps runs neither too early nor too late.
-/

namespace RiscvKernel
open Function Intrusive Placement DeltaList RoundRobin

/-- From `k` to `k'` come traps, `n` of them timer interrupts. -/
inductive Kernel.Passes (k : Kernel) : Nat → Kernel → Prop where
  | start : k.Passes 0 k
  | trap {n k' tr k''} (before : k.Passes n k') (fits : tr.Fits k') (taken : trap k' tr = .ok k'') :
      k.Passes (n + if tr.scause = irqTimer then 1 else 0) k''

/-- The same while the thread `t` does not get the hart, with at most `most` live threads. -/
inductive Kernel.Awaits (t most : Nat) (k : Kernel) : Nat → Kernel → Prop where
  | start : k.Awaits t most 0 k
  | trap {n k' tr k''} (before : k.Awaits t most n k') (fits : tr.Fits k')
      (taken : trap k' tr = .ok k'') (few : k''.hist.live.length ≤ most)
      (other : k''.scheduler.threadCurrent ≠ t) :
      k.Awaits t most (n + if tr.scause = irqTimer then 1 else 0) k''

/-! ## Alarms -/

/-- The alarms of the sleeping list: threads with the ticks until they wake. -/
def Kernel.alarms (k : Kernel) (recs : List Nat) : List (Nat × Nat) :=
  times 0 (entries k.sleeping recs)

theorem switch_sleeping (k : Kernel) : (switch k).sleeping = k.sleeping := by
  unfold switch yield schedulerNext
  split <;> split <;> rfl

section
variable {k k' : Kernel} {b b' : Threads} {recs recs' : List Nat} {context code : Nat}
  {x : Nat × Nat}

theorem same_alarms (sleeping : k'.sleeping = k.sleeping) : k'.alarms recs = k.alarms recs := by
  unfold Kernel.alarms
  rw [sleeping]

theorem switch_alarms (k : Kernel) : (switch k).alarms recs = k.alarms recs :=
  same_alarms (switch_sleeping k)

theorem dispatch_alarms (k : Kernel) : (dispatch k).alarms recs = k.alarms recs := by
  rw [dispatch_eq, switch_alarms]
  rfl

theorem memAlloced_alarms (k : Kernel) (p nblocks : Nat) (heap : Heap) :
    (k.memAlloced p nblocks heap).alarms recs = k.alarms recs := by
  unfold Kernel.memAlloced
  split <;> rfl

/-- A thread that goes to sleep sets its alarm among the others. -/
theorem Kernel.PutToSleep.alarms_eq {k₁ : Kernel} {p t time sem : Nat} {front back : List Nat}
    (put : k.PutToSleep k₁ recs t time sem p front back) :
    ∃ early late, k.alarms recs = early ++ late ∧
      k₁.alarms (front ++ p :: back) = early ++ (t, time) :: late := put.times

theorem unblocked_sleeping (k : Kernel) (s w : Nat) : (k.unblocked s w).sleeping = k.sleeping := by
  simp [Kernel.unblocked, schedulerPush, semNext, Kernel.modifySem, Kernel.modifyThread,
    Kernel.setContext, Kernel.poke]

/-- Calls that do not sleep leave the alarms alone. -/
theorem Called.sameAlarms (called : Called k context b recs code k' b' recs')
    (awake : code = syscallTimedSleep → k.context context regA1 = 0) :
    k'.alarms recs' = k.alarms recs := by
  cases called with
  | memAlloc p heap => exact memAlloced_alarms k p _ heap
  | getcBlocked => exact switch_alarms k
  | putcRefused => exact dispatch_alarms (k.putcRefused _)
  | exited =>
    exact switch_alarms ((schedulerUserThreadDecrement k).note fun h =>
      { h with live := h.live.erase k.scheduler.threadCurrent })
  | dispatched => exact dispatch_alarms k
  | @closed s =>
    exact same_alarms (pushAll_sleeping (k.note fun h => { h with opened := h.opened.erase s })
      (b.queue (.sem s)))
  | @blocked s => exact switch_alarms (k.waited s)
  | @woke s w =>
    have same : ((k.signalled s).unblocked s w).sleeping = k.sleeping := unblocked_sleeping ..
    exact same_alarms same
  | slept put => exact absurd (awake rfl) (Nat.one_le_iff_ne_zero.mp put.time_pos)
  | _ => rfl

/-- The alarm that a call of `time_sleep` sets. -/
theorem Called.setsAlarm (called : Called k context b recs syscallTimedSleep k' b' recs')
    (time : k.context context regA1 ≠ 0) : ∃ early late, k.alarms recs = early ++ late ∧
      k'.alarms recs' = early ++ (k.scheduler.threadCurrent, k.context context regA1) :: late := by
  cases called with
  | unknown none => exact absurd (by decide) none
  | sleepZero zero => exact absurd zero time
  | slept put =>
    obtain ⟨early, late, before, after⟩ := put.alarms_eq
    exact ⟨early, late, before, (switch_alarms _).trans after⟩

theorem Called.alarm (called : Called k context b recs code k' b' recs')
    (alarm : x ∈ k.alarms recs) : x ∈ k'.alarms recs' := by
  by_cases awake : code = syscallTimedSleep → k.context context regA1 = 0
  · rw [called.sameAlarms awake]
    exact alarm
  · obtain ⟨rfl, time⟩ := Classical.not_imp.mp awake
    obtain ⟨early, late, before, after⟩ := called.setsAlarm time
    rw [before] at alarm
    rw [after]
    simp only [List.mem_append, List.mem_cons] at alarm ⊢
    tauto

/-- Only the timer changes the alarms that are set. -/
theorem Handled.alarm (handled : Handled k b recs k' b' recs')
    (notTimer : k.hart.scause ≠ irqTimer) (alarm : x ∈ k.alarms recs) : x ∈ k'.alarms recs' := by
  cases handled with
  | ignored => exact alarm
  | console _ _ _ delivered =>
    have same : (consoleReceive k).alarms recs = k.alarms recs :=
      same_alarms (by rw [delivered.frame])
    exact same.symm ▸ alarm
  | ticked timer => exact absurd timer notTimer
  | preempted timer => exact absurd timer notTimer
  | called _ called => exact called.alarm alarm
  | mainIgnored => exact alarm
  | mainDispatched => exact (switch_alarms (bumpSepc k 4)).symm ▸ alarm

theorem Handled.alarmCloser (handled : Handled k b recs k' b' recs')
    (timer : k.hart.scause = irqTimer) {t d : Nat} (alarm : (t, d) ∈ k.alarms recs) (more : 1 < d) :
    (t, d - 1) ∈ k'.alarms recs' := by
  have left : ∀ {k₁ gone left}, k.Ticked k₁ recs gone left → (t, d - 1) ∈ k₁.alarms left := by
    intro k₁ gone left ticked
    unfold Kernel.alarms
    rw [ticked.times]
    apply List.mem_filter.mpr
    constructor
    · exact List.mem_map_of_mem alarm
    · simpa using (show d - 1 ≠ 0 by omega)
  have user : irqEcallUser ≠ irqTimer := by decide
  have kernel : irqEcallKernel ≠ irqTimer := by decide
  have hw : irqHw ≠ irqTimer := by decide
  cases handled with
  | ignored _ _ notTimer => exact absurd timer notTimer
  | console cause => exact absurd (cause.symm.trans timer) hw
  | @ticked k₁ _ _ _ _ ticked => exact @left k₁ _ _ ticked
  | @preempted k₁ _ _ _ _ ticked => exact (dispatch_alarms k₁).symm ▸ left ticked
  | called cause => exact absurd (cause.symm.trans timer) user
  | mainIgnored cause => exact absurd (cause.symm.trans timer) kernel
  | mainDispatched cause => exact absurd (cause.symm.trans timer) kernel

/-- An alarm that is due makes its thread ready. -/
theorem trap_rings {tr : Trap} (rest : k.Rest b recs) (timer : tr.scause = irqTimer)
    (taken : trap k tr = .ok k') {t : Nat} (alarm : (t, 1) ∈ k.alarms recs) :
    ∃ ready', IsRing k'.links k'.scheduler.readyThreads ready' ∧
      (t = k'.scheduler.threadCurrent ∨ t ∈ ready') := by
  obtain ⟨k₁, handler, rfl⟩ := trap_handler taken
  have arm : irqHandler tr.plic (enter k tr) = handleTimer (enter k tr) := if_pos timer
  obtain ⟨k₂, gone, left, ready', ticked, ring, new, -, turned⟩ :=
    timer_turned (enter_inv rest.inv tr) (arm.symm.trans handler)
  have woken : t ∈ gone.map fun r => ((enter k tr).sleeping r).thread := by
    rw [ticked.woken]
    apply List.mem_map.mpr
    refine ⟨(t, 0), List.mem_filter.mpr ⟨?_, by simp⟩, rfl⟩
    exact List.mem_map_of_mem (f := fun x => (x.1, x.2 - 1)) alarm
  obtain ⟨served', turned⟩ := turned [] []
  refine ⟨ready', ring, ?_⟩
  have joins := @Server.tick_joins Nat _ k.scheduler.kernelMain defaultTimeSlice
    ((enter k tr).server (b.queue .ready) [] []) _ t woken
  have main : (enter k tr).scheduler.kernelMain = k.scheduler.kernelMain := rfl
  rw [main] at turned
  rwa [turned] at joins

/-! ## Runs -/

theorem Kernel.Inv.sleeps (inv : k.Inv b recs) (alarm : x ∈ k.alarms recs) :
    x.1 ≠ k.scheduler.threadCurrent := by
  intro current
  have thread : x.1 ∈ (k.alarms recs).map Prod.fst := List.mem_map_of_mem alarm
  unfold Kernel.alarms at thread
  rw [times_fst] at thread
  obtain ⟨e, mem, same⟩ := List.mem_map.mp thread
  obtain ⟨r, hr, rfl⟩ := List.mem_map.mp mem
  have asleep : b.loc x.1 = some (.spot (.asleep r)) := inv.places.asleep.mpr ⟨hr, same⟩
  have running := inv.running.mpr current
  exact absurd (asleep.symm.trans running) (by simp)

/-- Not more threads are ready than are alive. -/
theorem Kernel.Inv.ready_length (inv : k.Inv b recs) :
    (b.queue .ready).length ≤ k.hist.live.length := by
  have nodup : (k.scheduler.threadCurrent :: b.queue .ready).Nodup := inv.apart [] []
  have known : ∀ {t}, k.view.Thread t → t ∈ k.scheduler.kernelMain :: k.hist.live := by
    rintro t (live | rfl)
    · exact List.mem_cons_of_mem _ live
    · exact List.mem_cons_self
  have subset : k.scheduler.threadCurrent :: b.queue .ready ⊆
      k.scheduler.kernelMain :: k.hist.live := by
    intro t ht
    rcases List.mem_cons.mp ht with rfl | queued
    · exact known inv.current_thread
    · apply known
      apply inv.places.known
      rw [b.mem_queue.mp queued]
      simp
  exact Nat.le_of_succ_le_succ (List.subperm_of_subset nodup subset).length_le

theorem passes_alarm {t d n : Nat} (rest : k.Rest b recs) (alarm : (t, d) ∈ k.alarms recs)
    (passes : k.Passes n k') (early : n < d) :
    ∃ b' recs', k'.Rest b' recs' ∧ (t, d - n) ∈ k'.alarms recs' := by
  induction passes with
  | start => exact ⟨b, recs, rest, alarm⟩
  | @trap n k₁ tr k₂ before fits taken ih =>
    obtain ⟨b₁, recs₁, rest₁, alarm₁⟩ := ih (by omega)
    obtain ⟨k₃, b', recs', rfl, handled, rest'⟩ := trap_rest rest₁ fits taken
    refine ⟨b', recs', rest', ?_⟩
    by_cases timer : tr.scause = irqTimer
    · rw [if_pos timer] at early ⊢
      have closer := handled.alarmCloser timer alarm₁ (by omega)
      rwa [Nat.sub_sub] at closer
    · rw [if_neg timer]
      exact handled.alarm timer alarm₁

/-- Whoever waits for its alarm or, after that, for the hart. -/
theorem awaits_turn {t d most n : Nat} (rest : k.Rest b recs) (full : k.Full b)
    (alarm : (t, d) ∈ k.alarms recs) (pos : 0 < d) (awaits : k.Awaits t most n k') :
    ∃ b' recs', k'.Rest b' recs' ∧
      (n < d ∧ k'.Full b' ∧ (t, d - n) ∈ k'.alarms recs' ∨
        ∃ joined served ahead budget, budget + n = d + defaultTimeSlice * most ∧
          (k'.server (b'.queue .ready) joined served).Waits defaultTimeSlice t ahead budget) := by
  induction awaits with
  | start => exact ⟨b, recs, rest, Or.inl ⟨pos, full, alarm⟩⟩
  | @trap n k₁ tr k₂ before fits taken few other ih =>
    obtain ⟨b₁, recs₁, rest₁, ⟨early, full₁, alarm₁⟩ | ⟨joined, served, ahead, budget, sum,
      waits⟩⟩ :=
      ih
    · obtain ⟨k₃, b', recs', rfl, handled, rest'⟩ := trap_rest rest₁ fits taken
      have full' : (leave k₃).Full b' := handled.full (rest'.inv.congr rfl rfl) full₁
      refine ⟨b', recs', rest', ?_⟩
      by_cases timer : tr.scause = irqTimer
      · rw [if_pos timer]
        by_cases due : d - n = 1
        · rw [due] at alarm₁
          obtain ⟨ready', ring, ready⟩ := trap_rings rest₁ timer taken alarm₁
          rw [ring.unique (rest'.places.rings.ring .ready trivial)] at ready
          obtain ⟨i, inside, here⟩ := List.getElem_of_mem (ready.resolve_left other.symm)
          have waits := rest'.waits full' (List.getElem?_eq_some_iff.mpr ⟨inside, here⟩)
          have slice := (rest'.inv.slice_range rest'.current_thread).2
          have length := rest'.inv.ready_length
          have within : defaultTimeSlice * i + (leave k₃).slice (leave k₃).scheduler.threadCurrent ≤
              defaultTimeSlice * most := by
            simp only [defaultTimeSlice]
            omega
          exact Or.inr ⟨[], [], i, defaultTimeSlice * most, by omega, waits.mono within⟩
        · have closer := handled.alarmCloser timer alarm₁ (by omega)
          rw [Nat.sub_sub] at closer
          exact Or.inl ⟨by omega, full', closer⟩
      · rw [if_neg timer]
        exact Or.inl ⟨early, full', handled.alarm timer alarm₁⟩
    · obtain ⟨b', recs', joined', served', ahead', budget', rest', -, spent, waits'⟩ :=
        trap_waits rest₁ fits taken waits other
      exact ⟨b', recs', rest', Or.inr ⟨joined', served', ahead', budget', by omega, waits'⟩⟩

/-- Only system calls make threads. -/
theorem trap_few {tr : Trap} (rest : k.Rest b recs) (fits : tr.Fits k) (taken : trap k tr = .ok k')
    (notUser : tr.scause ≠ irqEcallUser) : k'.hist.live.length ≤ k.hist.live.length := by
  obtain ⟨k₁, b', recs', rfl, handled, rest'⟩ := trap_rest rest fits taken
  obtain ⟨k₂, entered, -, known, -⟩ := handled.quiet notUser
  have same : k₂.hist.live = k.hist.live := by cases entered <;> rfl
  have nodup := (owned_nodup rest'.inv.owns).1
  exact (List.subperm_of_subset nodup fun t ht => same ▸ known t ht).length_le

end

/-- **Sleeping takes as long as it should.** In every run, a thread that sleeps for `d` ticks does
not run before the `d`-th timer interrupt, and it runs before the `d + 2 * most`-th one when there
are at most `most` live threads. -/
theorem sleep_latency {k₀ k k₁ : Kernel} {tr : Trap} (run : Run anyTrap k₀ k) (fits : tr.Fits k)
    (call : tr.Calls syscallTimedSleep) (time : tr.regs regA1 ≠ 0) (taken : trap k tr = .ok k₁) :
    (∀ n k', k₁.Passes n k' → n < tr.regs regA1 →
      k'.scheduler.threadCurrent ≠ k.scheduler.threadCurrent) ∧
    ∀ most n k', k₁.Awaits k.scheduler.threadCurrent most n k' →
      n < tr.regs regA1 + defaultTimeSlice * most := by
  obtain ⟨b, recs, rest, full⟩ := run_full run
  obtain ⟨k₂, b', recs', rfl, handled, rest'⟩ := trap_rest rest fits taken
  have full' : (leave k₂).Full b' := handled.full (rest'.inv.congr rfl rfl) full
  obtain ⟨early, late, -, sets⟩ := (handled.call call).setsAlarm (called_arg ▸ time)
  rw [called_arg] at sets
  have alarm : (k.scheduler.threadCurrent, tr.regs regA1) ∈ (leave k₂).alarms recs' :=
    sets ▸ List.mem_append_right early List.mem_cons_self
  constructor
  · intro n k' passes early
    obtain ⟨b'', recs'', rest'', alarm'⟩ := passes_alarm rest' alarm passes early
    exact (rest''.inv.sleeps alarm').symm
  · intro most n k' awaits
    obtain ⟨b'', recs'', -, ⟨early, -, -⟩ | ⟨joined, served, ahead, budget, sum, waits⟩⟩ :=
      awaits_turn rest' full' alarm (Nat.pos_of_ne_zero time) awaits
    · omega
    · have pos := waits.pos
      have within := waits.within
      omega

/-- A thread goes to sleep for five ticks while another one waits for a semaphore, and the timer
ticks twice. -/
theorem sleep_latency_small : ∃ k p q s k₁ k₂ k₃, Run anyTrap roomyKernel k ∧
    IsRing k.links (k.sem s).waitingThreads [p] ∧ k.scheduler.threadCurrent = q ∧
    trap k (nextCall k syscallTimedSleep 5) = .ok k₁ ∧ trap k₁ (timerTrap k₁) = .ok k₂ ∧
    trap k₂ (timerTrap k₂) = .ok k₃ ∧ k₃.scheduler.threadCurrent ≠ q ∧
    2 < 5 + defaultTimeSlice * 2 := by
  obtain ⟨k₀, b₀, p, q, s, two, run₀⟩ := two_users anyTrap fun _ _ _ => trivial
  obtain ⟨fits₀, k, b, taken₀, one⟩ := two.waits
  have run := run₀.trap fits₀ trivial taken₀
  obtain ⟨fits, k₁, b₁, r, taken, sleeps⟩ := one.sleeps (show 1 ≤ 5 by decide) (by decide)
  obtain ⟨early, late⟩ := sleep_latency run fits ⟨rfl, rfl⟩ (show (5 : Nat) ≠ 0 by decide) taken
  rw [one.current] at early late
  have notUser : irqTimer ≠ irqEcallUser := by decide
  have rest₁ := sleeps.rest
  -- two ticks
  obtain ⟨k₂, taken₁⟩ := timerTrap_returns rest₁
  have few₁ := trap_few rest₁ (timerTrap_fits k₁) taken₁ notUser
  obtain ⟨-, b₂, recs₂, -, -, rest₂⟩ := trap_rest rest₁ (timerTrap_fits k₁) taken₁
  obtain ⟨k₃, taken₂⟩ := timerTrap_returns rest₂
  have few₂ := trap_few rest₂ (timerTrap_fits k₂) taken₂ notUser
  rw [sleeps.live] at few₁
  have passes₁ : k₁.Passes 1 k₂ := .trap .start (timerTrap_fits k₁) taken₁
  have passes₂ : k₁.Passes 2 k₃ := .trap passes₁ (timerTrap_fits k₂) taken₂
  have awaits₁ : k₁.Awaits q 2 1 k₂ := .trap .start (timerTrap_fits k₁) taken₁ few₁
    (early 1 k₂ passes₁ (show 1 < 5 by decide))
  have other := early 2 k₃ passes₂ (show 2 < 5 by decide)
  have awaits₂ : k₁.Awaits q 2 2 k₃ :=
    .trap awaits₁ (timerTrap_fits k₂) taken₂ (few₂.trans few₁) other
  have ring : IsRing k.links (k.sem s).waitingThreads (b.queue (.sem s)) :=
    one.rest.places.rings.ring (.sem s) (show s ∈ k.hist.opened by simp [one.opened])
  rw [one.queue, update_self] at ring
  exact ⟨k, p, q, s, k₁, k₂, k₃, run, ring, one.current, taken, taken₁, taken₂, other,
    late 2 2 k₃ awaits₂⟩

end RiscvKernel
