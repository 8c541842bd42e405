import RiscvKernel.Alert

/-!
# Traps of a kernel with timed waits

* `Trap.FitsTimed`: what the machine and the callers promise of a trap, timed waits included;
* `Trap.Meets`: what a trap must meet for the sleeping list to stay sound;
* `trap_watch`: a trap that meets it keeps the alarms, and a timer interrupt brings them closer.
-/

namespace RiscvKernel
open Function Intrusive Placement DeltaList

/-! ## Who stays in a ring -/

section
variable {k k' : Kernel} {context code s t : Nat} {b b' : Threads} {recs recs' : List Nat}

theorem pushed_others (new : List Nat) (pushed : k'.hist.pushed = k.hist.pushed ++ new)
    (out : t ∉ new) : ¬ k.Readies k' t := by
  rintro ⟨new', eq, mem⟩
  rw [pushed] at eq
  rw [List.append_cancel_left eq] at out
  exact out mem

/-- A system call takes a thread out of the ring of a semaphore only by a signal or a close. -/
theorem Called.sits (called : Called k context b recs code k' b' recs') (inv : k.Inv b recs)
    (here : t ∈ b.queue (.sem s))
    (signal : code = syscallSemSignal → k.context context regA1 = s → ∀ ws,
      b.queue (.sem s) ≠ t :: ws)
    (close : code = syscallSemClose → k.context context regA1 ≠ s) :
    t ∈ b'.queue (.sem s) ∧ ¬ k.Readies k' t := by
  have other : t ≠ k.scheduler.threadCurrent := inv.notRunning here
  have stays : ∀ k' : Kernel, k'.hist.pushed = k.hist.pushed → ¬ k.Readies k' t :=
    fun k' pushed => pushed_others [] (by rw [pushed, List.append_nil]) (by simp)
  cases called with
  | unknown => exact ⟨here, stays _ rfl⟩
  | memAlloc p heap =>
    refine ⟨here, stays _ ?_⟩
    show (k.memAlloced p _ heap).hist.pushed = _
    unfold Kernel.memAlloced
    split <;> rfl
  | getcByte => exact ⟨here, stays _ rfl⟩
  | getcBlocked _ queue =>
    refine ⟨by simpa [queue] using here, stays _ ?_⟩
    exact switch_pushed k
  | putcAccepted => exact ⟨here, stays _ rfl⟩
  | putcRefused _ queue =>
    refine ⟨by simpa [queue] using here, pushed_others [_] (dispatch_pushed (k.putcRefused _)) ?_⟩
    exact List.mem_singleton.not.mpr other
  | createRefused => exact ⟨here, stays _ rfl⟩
  | @created p b' heap notLive notMain _ queue =>
    have new : t ≠ p := by
      rintro rfl
      have thread : k.view.Thread t := inv.places.known (by rw [b.mem_queue.mp here]; simp)
      exact thread.elim notLive notMain
    exact ⟨by simpa [queue] using here, pushed_others [p] rfl (by simpa using new)⟩
  | exited heap queue =>
    refine ⟨by simpa [queue] using here, stays _ ?_⟩
    exact switch_pushed _
  | dispatched queue =>
    refine ⟨by simpa [queue] using here, pushed_others [_] (dispatch_pushed k) ?_⟩
    exact List.mem_singleton.not.mpr other
  | openRefused => exact ⟨here, stays _ rfl⟩
  | opened => exact ⟨here, stays _ rfl⟩
  | @closed s₁ b' arg heap queue =>
    have apart : s ≠ s₁ := fun e => close rfl (arg.trans e.symm)
    refine ⟨by simpa [queue, apart] using here, pushed_others _ (pushAll_pushed _ _) fun mem => ?_⟩
    exact apart (by simpa using b.apart here mem)
  | waited => exact ⟨here, stays _ rfl⟩
  | @blocked s₁ b' arg blocks queue =>
    refine ⟨?_, stays _ ?_⟩
    · rw [queue, update_apply]
      split
      · next e =>
        obtain rfl : s = s₁ := by simpa using e
        exact List.mem_append_left _ here
      · simpa using here
    · exact switch_pushed (k.waited s₁)
  | signalled => exact ⟨here, stays _ rfl⟩
  | unheard => exact ⟨here, stays _ rfl⟩
  | @woke s₁ w ws b' arg below first queue =>
    have new : t ≠ w := by
      rintro rfl
      have mem : t ∈ b.queue (.sem s₁) := by
        rw [first]
        exact List.mem_cons_self
      obtain rfl : s = s₁ := by simpa using b.apart here mem
      exact signal rfl arg ws first
    refine ⟨?_, pushed_others [w] rfl (by simpa using new)⟩
    rw [queue, update_of_ne (by simp), update_apply]
    split
    · next e =>
      obtain rfl : s = s₁ := by simpa using e
      rw [first] at here
      exact (List.mem_cons.mp here).resolve_left new
    · exact here
  | sleepZero => exact ⟨here, stays _ rfl⟩
  | slept put queue =>
    refine ⟨by simpa [queue] using here, stays _ ?_⟩
    rw [switch_hist, put.frame]
    rfl

/-- A trap other than a timer interrupt. -/
theorem Handled.sits (handled : Handled k b recs k' b' recs') (inv : k.Inv b recs)
    (timer : k.hart.scause ≠ irqTimer) (here : t ∈ b.queue (.sem s))
    (signal : k.hart.scause = irqEcallUser →
      k.context k.hart.sscratch regA0 = syscallSemSignal →
        k.context k.hart.sscratch regA1 = s → ∀ ws, b.queue (.sem s) ≠ t :: ws)
    (close : k.hart.scause = irqEcallUser → k.context k.hart.sscratch regA0 = syscallSemClose →
      k.context k.hart.sscratch regA1 ≠ s) :
    t ∈ b'.queue (.sem s) ∧ ¬ k.Readies k' t := by
  have stays : ∀ k' : Kernel, k'.hist.pushed = k.hist.pushed → ¬ k.Readies k' t :=
    fun k' pushed => pushed_others [] (by rw [pushed, List.append_nil]) (by simp)
  cases handled with
  | ignored => exact ⟨here, stays _ rfl⟩
  | @console ws rest input bytes b' cause waiting empty delivered queue =>
    have pushed : (consoleReceive k).hist.pushed = k.hist.pushed ++ ws := by rw [delivered.frame]
    refine ⟨by simpa [queue] using here, pushed_others ws pushed fun mem => ?_⟩
    have input : t ∈ b.queue .input := waiting ▸ List.mem_append_left rest mem
    simpa using b.apart here input
  | ticked cause => exact absurd cause timer
  | preempted cause => exact absurd cause timer
  | called cause called =>
    exact called.sits (inv.congr rfl rfl) here (signal cause) (close cause)
  | mainIgnored => exact ⟨here, stays _ rfl⟩
  | mainDispatched cause queue =>
    refine ⟨by simpa [queue] using here, stays _ ?_⟩
    exact switch_pushed _

/-- A trap that is no timer interrupt and puts nobody to sleep keeps the records. -/
theorem Handled.keepsRecords (handled : Handled k b recs k' b' recs')
    (timer : k.hart.scause ≠ irqTimer)
    (sleep : k.hart.scause = irqEcallUser →
      k.context k.hart.sscratch regA0 = syscallTimedSleep →
        k.context k.hart.sscratch regA1 = 0) : recs' = recs := by
  cases handled with
  | ticked cause => exact absurd cause timer
  | preempted cause => exact absurd cause timer
  | called cause called =>
    generalize hcode : k.context k.hart.sscratch regA0 = code at called
    cases called with
    | slept put =>
      have zero := sleep cause hcode
      have pos := put.time_pos
      have arg : (bumpSepc k 4).context k.hart.sscratch regA1 = 0 := zero
      omega
    | _ => rfl
  | _ => rfl

end

/-! ## Between two traps -/

/-- What holds of a kernel between two traps, timed waits included. -/
structure Kernel.Watch (k : Kernel) (b : Threads) (recs : List Nat) : Prop
    extends alert : k.Alert b recs where
  supervisor : k.hart.supervisor = decide (k.scheduler.threadCurrent = k.scheduler.kernelMain)
  modes : ∀ t, k.view.Thread t → t ≠ k.scheduler.threadCurrent →
    (k.thread t).sstatus.testBit 8 = decide (t = k.scheduler.kernelMain)
  receiveRoom : k.console.receiveCnt ≤ consoleBufferSize
  sendRoom : k.console.sendCnt ≤ consoleBufferSize

/-- What the machine and the callers promise of a trap. A timed wait names an open semaphore, and
there is memory for its record. -/
structure Trap.FitsTimed (tr : Trap) (k : Kernel) : Prop where
  mode : tr.sstatus.testBit 8 = k.hart.supervisor
  userCall : tr.scause = irqEcallUser → k.hart.supervisor = false
  kernelCall : tr.scause = irqEcallKernel → k.hart.supervisor = true
  words : ∀ i, tr.regs i < 2 ^ 64
  request : tr.scause = irqEcallUser → tr.regs regA0 ≠ syscallSemTimedWait → Request k tr.regs
  timedWait : tr.Calls syscallSemTimedWait →
    tr.regs regA1 ∈ k.hist.opened ∧ k.heap.HasRoom (sizeInBlocks 40)

/-- The condition on a trap: a timed wait has a timeout of at least one tick and blocks, a signal
that wakes a timed waiter finds its record alone or behind the head of the list, nobody is in a
timed wait for a semaphore that is closed, and a timed waiter who times out waits alone. -/
structure Trap.Meets (tr : Trap) (k : Kernel) : Prop where
  timedWait : tr.Calls syscallSemTimedWait →
    1 ≤ tr.regs regA2 ∧ toI32 ((k.sem (tr.regs regA1)).val - 1) < 0
  signal : tr.Calls syscallSemSignal → ∀ recs,
    IsRing k.sleepLinks k.scheduler.sleepingThreads recs → k.Cancellable recs (tr.regs regA1)
  close : tr.Calls syscallSemClose → ∀ recs,
    IsRing k.sleepLinks k.scheduler.sleepingThreads recs →
      ∀ r ∈ recs, (k.sleeping r).semaphore ≠ tr.regs regA1
  timer : tr.scause = irqTimer → ∀ recs,
    IsRing k.sleepLinks k.scheduler.sleepingThreads recs →
      ∀ r ∈ k.expiring recs, (k.sleeping r).semaphore ≠ 0 →
        k.links.next (k.sem (k.sleeping r).semaphore).waitingThreads =
          (k.sem (k.sleeping r).semaphore).waitingThreads

section
variable {k k' : Kernel} {b b' : Threads} {recs recs' : List Nat} {m : Shade} {tr : Trap}

theorem Kernel.Watch.rest (watch : k.Watch b recs) (hides : m.Hides k recs) :
    (k.shade m).Rest b (k.sleepers recs) :=
  ⟨watch.alert.inv hides, watch.supervisor, watch.modes, watch.receiveRoom, watch.sendRoom⟩

theorem Kernel.Watch.exists_hides (watch : k.Watch b recs) : ∃ m : Shade, m.Hides k recs := by
  have short := records_length_le watch.holds
  have bound := watch.holds.ok.bound
  exact RiscvKernel.exists_hides watch.alarms (by omega)

theorem Shade.Hides.congr (hides : m.Hides k recs) (sleeping : k'.sleeping = k.sleeping) :
    m.Hides k' recs := by
  obtain ⟨ring, threads, untimed, range, slice, blocks⟩ := hides
  have sleepers : k'.sleepers recs = k.sleepers recs := by
    unfold Kernel.sleepers
    rw [sleeping]
  have waiters : k'.timedWaiters recs = k.timedWaiters recs := by
    unfold Kernel.timedWaiters
    rw [sleeping]
  exact ⟨sleepers ▸ ring, by rwa [sleepers, sleeping], untimed, sleepers ▸ range,
    by rwa [sleeping], waiters ▸ blocks⟩

/-- The sleeping list and the slices of the timed waiters as they are. -/
def Kernel.own (k : Kernel) (recs : List Nat) : Shade where
  links := k.sleepLinks
  head := k.scheduler.sleepingThreads
  sleeping := k.sleeping
  slice := fun t => if ∃ r ∈ recs, (k.sleeping r).semaphore ≠ 0 ∧ (k.sleeping r).thread = t
    then some (k.slice t) else none
  blocks := []

theorem shade_own (k : Kernel) (recs : List Nat) : k.shade (k.own recs) = k := by
  have threads : (fun t => (k.own recs).thread t (k.thread t)) = k.thread := by
    funext t
    unfold Shade.thread Kernel.own
    dsimp only
    split <;> rfl
  have blocks : k.hist.userBlocks ++ [] = k.hist.userBlocks := List.append_nil _
  show { k with
    thread := fun t => (k.own recs).thread t (k.thread t)
    hist := { k.hist with userBlocks := k.hist.userBlocks ++ [] } } = k
  rw [threads, blocks]

theorem Trap.FitsTimed.shade (fits : tr.FitsTimed k) (untimed : ¬ tr.Calls syscallSemTimedWait)
    (m : Shade) : tr.Fits (k.shade m) := by
  refine ⟨fits.mode, fits.userCall, fits.kernelCall, fits.words, fun user => ?_⟩
  have request := fits.request user fun code => untimed ⟨user, code⟩
  exact ⟨request.untimed, request.memAlloc, fun code => ⟨(request.create code).1,
    List.mem_append_left _ (request.create code).2⟩, request.openSem, request.sem, request.sleep⟩

/-- A trap that does not look at the sleeping list. -/
theorem plain_watch (watch : k.Watch b recs) (fits : tr.FitsTimed k)
    (timer : tr.scause ≠ irqTimer) (untimed : ¬ tr.Calls syscallSemTimedWait)
    (sleep : tr.Calls syscallTimedSleep → tr.regs regA1 = 0)
    (signal : tr.Calls syscallSemSignal → (k.sem (tr.regs regA1)).waitingThreads ≠ 0 →
      k.slice (k.sem (tr.regs regA1)).waitingThreads ≠ 0)
    (close : tr.Calls syscallSemClose → ∀ r ∈ recs, (k.sleeping r).semaphore ≠ tr.regs regA1)
    (taken : trap k tr = .ok k') : ∃ b', k'.Watch b' recs ∧ k'.sleeping = k.sleeping := by
  obtain ⟨m, hides⟩ := watch.exists_hides
  have a1 : (enter k tr).context tr.frame regA1 = tr.regs regA1 :=
    enter_arg k tr (by decide) (by decide)
  have a4 : (enter k tr).context tr.frame regA4 = tr.regs regA4 :=
    enter_arg k tr (by decide) (by decide)
  have code : (enter k tr).context tr.frame regA0 = tr.regs regA0 :=
    enter_arg k tr (by decide) (by decide)
  have spares : ∀ m : Shade, tr.scause = irqEcallUser →
      m.Spares (bumpSepc (enter k tr) 4) tr.frame (tr.regs regA0) := by
    intro m user
    refine ⟨fun code => untimed ⟨user, code⟩, fun code => a1.trans (sleep ⟨user, code⟩),
      fun code => ?_, fun code => ?_⟩
    · show stackBlock ((enter k tr).context tr.frame regA4) ∈ k.hist.userBlocks
      rw [a4]
      exact ((fits.request user fun timed => untimed ⟨user, timed⟩).create code).2
    · show (k.sem ((enter k tr).context tr.frame regA1)).waitingThreads ≠ 0 →
        k.slice (k.sem ((enter k tr).context tr.frame regA1)).waitingThreads ≠ 0
      rw [a1]
      exact signal ⟨user, code⟩
  have shaded := trap_shade taken timer (spares m) fun x _ => hides.free x
  have rest := watch.rest hides
  obtain ⟨k₁, b', recs', done, handled, rest'⟩ := trap_rest rest (fits.shade untimed m) shaded
  obtain rfl : recs' = k.sleepers recs := handled.keepsRecords timer
    fun user call => a1.trans (sleep ⟨user, code.symm.trans call⟩)
  -- who is in a timed wait stays in the ring
  have sits : ∀ r ∈ recs, (k.sleeping r).semaphore ≠ 0 →
      (k.sleeping r).thread ∈ b'.queue (.sem (k.sleeping r).semaphore) ∧
        ¬ k.Readies k' (k.sleeping r).thread := by
    intro r hr waits
    have here := watch.waiting r hr waits
    have pushed : (k'.shade m).hist.pushed = (leave k₁).hist.pushed := by rw [done]
    have stays := handled.sits (enter_inv rest.inv tr) timer (b.mem_queue.mpr here)
      (fun user call arg ws first => ?_) (fun user call arg => ?_)
    · refine ⟨stays.1, fun ⟨new, eq, mem⟩ => stays.2 ⟨new, pushed.symm.trans eq, mem⟩⟩
    · have call : tr.Calls syscallSemSignal := ⟨user, code.symm.trans call⟩
      have arg : tr.regs regA1 = (k.sleeping r).semaphore := a1.symm.trans arg
      have active : k.view.Active (.sem (k.sleeping r).semaphore) := by
        by_contra idle
        rw [watch.rings.idle _ idle] at first
        cases first
      have ring : IsRing k.links (k.sem (k.sleeping r).semaphore).waitingThreads _ :=
        watch.rings.ring _ active
      rw [first] at ring
      have lasts := signal call
      rw [arg, ring.head_eq] at lasts
      exact lasts (fun e => ring.not_null (by simp [e])) ((watch.marks here).mpr ⟨r, hr, rfl⟩)
    · exact close ⟨user, code.symm.trans call⟩ r hr (a1.symm.trans arg).symm
  -- so the sleeping list and the slices of the timed waits are as before
  have same := trap_shade taken timer (spares (k.own recs)) fun x readies n h => by
    unfold Kernel.own at h
    dsimp only at h
    split at h
    · next timed =>
      obtain ⟨r, hr, waits, thread⟩ := timed
      exact absurd (thread ▸ readies) (sits r hr waits).2
    · cases h
  rw [shade_own, taken] at same
  have own := Except.ok.inj same
  have sleeping : k'.sleeping = k.sleeping := by
    rw [own]
    rfl
  have links : k'.sleepLinks = k.sleepLinks := by
    rw [own]
    rfl
  have head : k'.scheduler.sleepingThreads = k.scheduler.sleepingThreads := by
    rw [own]
    rfl
  have zero : ∀ r ∈ recs, (k.sleeping r).semaphore ≠ 0 → k'.slice (k.sleeping r).thread = 0 := by
    intro r hr waits
    have marked := (watch.marks (watch.waiting r hr waits)).mpr ⟨r, hr, rfl⟩
    have slice : (k.own recs).slice (k.sleeping r).thread = some 0 := by
      rw [← marked]
      exact if_pos ⟨r, hr, waits, rfl⟩
    rw [own]
    show ((k.own recs).slice (k.sleeping r).thread).getD _ = 0
    rw [slice]
    rfl
  have hides' : m.Hides k' recs := hides.congr sleeping
  have sleepers : k'.sleepers recs = k.sleepers recs := by
    unfold Kernel.sleepers
    rw [sleeping]
  have alert : k'.Alert b' recs := by
    refine hides'.alert (sleepers ▸ rest'.inv) ⟨?_, ?_⟩ ?_ ?_ ?_
    · rw [links, head]
      exact watch.alarms.ring
    · rw [sleeping]
      exact watch.alarms.range
    · rw [sleeping]
      exact watch.once
    · rw [sleeping]
      exact fun r hr waits => b'.mem_queue.mp (sits r hr waits).1
    · rw [sleeping]
      exact zero
  exact ⟨b', ⟨alert, rest'.supervisor, rest'.modes, rest'.receiveRoom, rest'.sendRoom⟩, sleeping⟩

/-! ## Traps that look at the sleeping list -/

theorem Kernel.Alert.congr (alert : k.Alert b recs) (view : k'.view = k.view)
    (current : k'.scheduler.threadCurrent = k.scheduler.threadCurrent) : k'.Alert b recs := by
  have live : k'.hist.live = k.hist.live := congrArg View.live view
  have sleeping : k'.sleeping = k.sleeping := congrArg View.sleeping view
  have main : k'.scheduler.kernelMain = k.scheduler.kernelMain := congrArg View.kernelMain view
  have slice : k'.slice = k.slice := congrArg View.timeLeft view
  have thread : ∀ {t}, k'.view.Thread t ↔ k.view.Thread t := by rw [view]
  have timers : k'.Timers b recs k.view.kept := alert.timers.congr
    ⟨sleeping, congrArg View.sleepLinks view, congrArg View.sleepHead view,
      congrArg View.heap view⟩ (congrArg View.links view) (congrArg View.head view)
    (congrArg View.opened view) slice current main
  refine ⟨by rwa [view], fun ht => thread.mpr (alert.known ht), ?_, ?_, fun {t} ht => ?_,
    fun {t} ht => ?_, (congrArg View.userThreadCount view).trans (alert.count.trans ?_)⟩
  · rw [live]
    exact alert.placed
  · rw [sleeping]
    exact alert.sleeps
  · rw [slice]
    exact alert.short (thread.mp ht)
  · rw [slice, sleeping]
    exact alert.lasts (thread.mp ht)
  · rw [live]

theorem Kernel.SameThreads.modes (same : k.SameThreads k') (modes : k.Modes) : k'.Modes := by
  intro t ht
  rw [same.saved, same.main]
  exact modes t (same.thread.mp ht)

/-- The kernel goes back to the interrupted code. -/
theorem Kernel.Alert.watch (alert : k.Alert b recs) (modes : k.Modes)
    (receiveRoom : k.console.receiveCnt ≤ consoleBufferSize)
    (sendRoom : k.console.sendCnt ≤ consoleBufferSize) : (leave k).Watch b recs := by
  refine ⟨alert.congr rfl rfl, ?_, fun t ht ne => ?_, receiveRoom, sendRoom⟩
  · have mode := modes k.scheduler.threadCurrent
      (alert.known (by rw [alert.running.mpr rfl]; simp))
    rw [saved_current] at mode
    exact mode
  · have mode := modes t ht
    rw [saved_other (k := k) ne] at mode
    exact mode

theorem Kernel.Watch.enter_modes (watch : k.Watch b recs) (fits : tr.FitsTimed k) :
    (enter k tr).Modes := by
  intro t ht
  by_cases h : t = k.scheduler.threadCurrent
  · rw [h, enter_saved_current]
    exact fits.mode.trans watch.supervisor
  · rw [enter_saved_other h, saved_other h]
    exact watch.modes t ht h

theorem Kernel.Watch.user (watch : k.Watch b recs) (mode : k.hart.supervisor = false) :
    k.scheduler.threadCurrent ≠ k.scheduler.kernelMain := by
  simpa [mode] using watch.supervisor

/-- The kernel `k` in a system call. -/
theorem Kernel.Watch.requested (watch : k.Watch b recs) (fits : tr.FitsTimed k) :
    (k.requested tr).Alert b recs ∧ (k.requested tr).Modes :=
  ⟨watch.alert.congr rfl rfl, bumpSepc_modes (watch.enter_modes fits)⟩

/-- **A timed wait** that blocks. -/
theorem timedWait_watch (watch : k.Watch b recs) (fits : tr.FitsTimed k) (meets : tr.Meets k)
    (call : tr.Calls syscallSemTimedWait) :
    ∃ k' b' recs', trap k tr = .ok k' ∧ k'.Watch b' recs' ∧ k.KeepsAlarms k' recs recs' ∧
      k'.Alarm recs' k.scheduler.threadCurrent (tr.regs regA1) (tr.regs regA2) := by
  obtain ⟨opened, room⟩ := fits.timedWait call
  obtain ⟨pos, low⟩ := meets.timedWait call
  obtain ⟨alert, modes⟩ := watch.requested fits
  obtain ⟨k₁, b', recs', run, alert', same, keeps, alarm⟩ := semTimedWait_alert alert
    (watch.user (fits.userCall call.1)) opened low room pos (fits.words regA2)
  have ran : handleSemTimedWait (k.requested tr) tr.frame = .ok k₁ := by
    rw [handleSemTimedWait, requested_arg (by decide) (by decide),
      requested_arg (by decide) (by decide), run]
    rfl
  refine ⟨_, b', recs', trap_ran call ran, alert'.watch (same.modes modes) ?_ ?_, keeps, alarm⟩
  · rw [same.console]
    exact watch.receiveRoom
  · rw [same.console]
    exact watch.sendRoom

/-- **A sleep.** -/
theorem sleep_watch (watch : k.Watch b recs) (fits : tr.FitsTimed k)
    (call : tr.Calls syscallTimedSleep) (some : tr.regs regA1 ≠ 0) :
    ∃ k' b' recs', trap k tr = .ok k' ∧ k'.Watch b' recs' ∧ k.KeepsAlarms k' recs recs' := by
  have room := (fits.request call.1 (by rw [call.2]; decide)).sleep call.2 some
  obtain ⟨alert, modes⟩ := watch.requested fits
  let k₀ := (k.requested tr).setContext tr.frame regA0 0
  have alert₀ : k₀.Alert b recs := alert.congr rfl rfl
  have modes₀ : k₀.Modes := modes
  obtain ⟨k₁, b', recs', run, alert', same, keeps⟩ := sleep_alert alert₀
    (watch.user (fits.userCall call.1)) room (Nat.one_le_iff_ne_zero.mpr some) (fits.words regA1)
  have ran : handleTimedSleep (k.requested tr) tr.frame = .ok (switch k₁) := by
    unfold handleTimedSleep
    dsimp only
    rw [requested_arg (by decide) (by decide), if_neg some]
    show schedulerTimeout k₀ k₀.scheduler.threadCurrent _ _ >>= _ = _
    rw [run]
    rfl
  refine ⟨_, b', recs', trap_ran call ran, alert'.watch (same.modes modes₀) ?_ ?_, keeps⟩
  · rw [same.console]
    exact watch.receiveRoom
  · rw [same.console]
    exact watch.sendRoom

/-- **A signal.** -/
theorem signal_watch (watch : k.Watch b recs) (fits : tr.FitsTimed k) (meets : tr.Meets k)
    (call : tr.Calls syscallSemSignal) : ∃ k' b' recs', trap k tr = .ok k' ∧ k'.Watch b' recs' ∧
      ∀ {th s n}, s ≠ tr.regs regA1 → k.Alarm recs th s n → k'.Alarm recs' th s n := by
  have opened := (fits.request call.1 (by rw [call.2]; decide)).sem (by rw [call.2]; decide)
  obtain ⟨alert, modes⟩ := watch.requested fits
  obtain ⟨r, k₁, b', recs', run, alert', same, keeps⟩ :=
    semSignal_alert alert opened (meets.signal call recs watch.alarms.ring)
  let k₂ := k₁.setContext tr.frame regA0 (u64 r)
  have ran : handleSemSignal (k.requested tr) tr.frame = .ok k₂ := by
    rw [handleSemSignal, requested_arg (by decide) (by decide), run]
    rfl
  have alert₂ : k₂.Alert b' recs' := alert'.congr rfl rfl
  have modes₂ : k₂.Modes := same.modes modes
  refine ⟨_, b', recs', trap_ran call ran, alert₂.watch modes₂ ?_ ?_, keeps⟩
  · show k₁.console.receiveCnt ≤ consoleBufferSize
    rw [same.console]
    exact watch.receiveRoom
  · show k₁.console.sendCnt ≤ consoleBufferSize
    rw [same.console]
    exact watch.sendRoom

/-- A timed waiter whose ring has one node waits alone. -/
theorem Kernel.Watch.expireAlone (watch : k.Watch b recs) (meets : tr.Meets k)
    (timer : tr.scause = irqTimer) : k.ExpireAlone b recs := by
  intro r hr waits
  have mem : r ∈ recs := by
    rw [expiring_append_remaining k recs]
    exact List.mem_append_left _ hr
  have here := b.mem_queue.mpr (watch.waiting r mem waits)
  have active : k.view.Active (.sem (k.sleeping r).semaphore) := by
    by_contra idle
    rw [watch.rings.idle _ idle] at here
    cases here
  have ring : IsRing k.links (k.sem (k.sleeping r).semaphore).waitingThreads _ :=
    watch.rings.ring _ active
  have self := meets.timer timer recs watch.alarms.ring r hr waits
  obtain ⟨x, xs, hq⟩ := List.exists_cons_of_ne_nil (List.ne_nil_of_mem here)
  rw [hq] at ring here ⊢
  have head := ring.head_eq
  rw [head] at self ring
  obtain rfl : xs = [] := ring.first_only.mp self
  rw [List.mem_singleton.mp here]

/-- **A timer interrupt** returns. -/
theorem timer_watch (watch : k.Watch b recs) (fits : tr.FitsTimed k) (meets : tr.Meets k)
    (timer : tr.scause = irqTimer) :
    ∃ k' b' recs', trap k tr = .ok k' ∧ k'.Watch b' recs' ∧
      (∀ {th s n}, k.Alarm recs th s (n + 2) → k'.Alarm recs' th s (n + 1)) ∧
      (∀ {th s}, k.Alarm recs th s 1 → b'.loc th = some (.queue .ready) ∨
        b'.loc th = some (.spot .running)) := by
  have alert : (enter k tr).Alert b recs := watch.alert.congr rfl rfl
  obtain ⟨k₁, b', recs', run, alert', same, later, due⟩ :=
    handleTimer_alert alert (watch.expireAlone meets timer)
  refine ⟨_, b', recs', trap_timer timer run,
    alert'.watch (same.modes (watch.enter_modes fits)) ?_ ?_, later, due⟩
  · rw [same.console]
    exact watch.receiveRoom
  · rw [same.console]
    exact watch.sendRoom

/-- The trap looks at the sleeping list. -/
def Trap.LooksAtSleepers (tr : Trap) : Prop :=
  tr.scause = irqTimer ∨ tr.Calls syscallSemTimedWait ∨ tr.Calls syscallSemSignal ∨
    tr.Calls syscallTimedSleep ∧ tr.regs regA1 ≠ 0

theorem looks_returns (watch : k.Watch b recs) (fits : tr.FitsTimed k) (meets : tr.Meets k)
    (looks : tr.LooksAtSleepers) : ∃ k', trap k tr = .ok k' := by
  rcases looks with timer | call | call | ⟨call, some⟩
  · obtain ⟨k', -, -, taken, -⟩ := timer_watch watch fits meets timer
    exact ⟨k', taken⟩
  · obtain ⟨k', -, -, taken, -⟩ := timedWait_watch watch fits meets call
    exact ⟨k', taken⟩
  · obtain ⟨k', -, -, taken, -⟩ := signal_watch watch fits meets call
    exact ⟨k', taken⟩
  · obtain ⟨k', -, -, taken, -⟩ := sleep_watch watch fits call some
    exact ⟨k', taken⟩

/-- The trap signals the semaphore `s`. -/
def Trap.SignalsSem (tr : Trap) (s : Nat) : Prop := tr.Calls syscallSemSignal ∧ tr.regs regA1 = s

/-- **One trap.** It keeps the alarms, but those of a semaphore that it signals; a timer interrupt
brings every alarm closer, and a timed wait sets one. -/
theorem trap_watch (watch : k.Watch b recs) (fits : tr.FitsTimed k) (meets : tr.Meets k)
    (taken : trap k tr = .ok k') : ∃ b' recs', k'.Watch b' recs' ∧
      (tr.scause ≠ irqTimer → ∀ {th s n}, ¬ tr.SignalsSem s →
        k.Alarm recs th s n → k'.Alarm recs' th s n) ∧
      (tr.scause = irqTimer → ∀ {th s n}, k.Alarm recs th s (n + 2) →
        k'.Alarm recs' th s (n + 1)) ∧
      (tr.scause = irqTimer → ∀ {th s}, k.Alarm recs th s 1 →
        b'.loc th = some (.queue .ready) ∨ b'.loc th = some (.spot .running)) ∧
      (tr.Calls syscallSemTimedWait →
        k'.Alarm recs' k.scheduler.threadCurrent (tr.regs regA1) (tr.regs regA2)) := by
  by_cases timer : tr.scause = irqTimer
  · obtain ⟨k₁, b', recs', run, watch', later, due⟩ := timer_watch watch fits meets timer
    obtain rfl : k₁ = k' := Except.ok.inj (run.symm.trans taken)
    refine ⟨b', recs', watch', fun other => absurd timer other, fun _ => later, fun _ => due,
      fun call => ?_⟩
    rw [call.1] at timer
    cases timer
  by_cases timed : tr.Calls syscallSemTimedWait
  · obtain ⟨k₁, b', recs', run, watch', keeps, alarm⟩ := timedWait_watch watch fits meets timed
    obtain rfl : k₁ = k' := Except.ok.inj (run.symm.trans taken)
    exact ⟨b', recs', watch', fun _ _ _ _ _ => keeps, fun h => absurd h timer,
      fun h => absurd h timer, fun _ => alarm⟩
  by_cases sleep : tr.Calls syscallTimedSleep ∧ tr.regs regA1 ≠ 0
  · obtain ⟨k₁, b', recs', run, watch', keeps⟩ := sleep_watch watch fits sleep.1 sleep.2
    obtain rfl : k₁ = k' := Except.ok.inj (run.symm.trans taken)
    exact ⟨b', recs', watch', fun _ _ _ _ _ => keeps, fun h => absurd h timer,
      fun h => absurd h timer, fun h => absurd h timed⟩
  by_cases signal : tr.Calls syscallSemSignal
  · obtain ⟨k₁, b', recs', run, watch', keeps⟩ := signal_watch watch fits meets signal
    obtain rfl : k₁ = k' := Except.ok.inj (run.symm.trans taken)
    exact ⟨b', recs', watch', fun _ _ _ _ other => keeps fun e => other ⟨signal, e.symm⟩,
      fun h => absurd h timer, fun h => absurd h timer, fun h => absurd h timed⟩
  · obtain ⟨b', watch', sleeping⟩ := plain_watch watch fits timer timed
      (fun call => by_contra fun some => sleep ⟨call, some⟩) (fun call => absurd call signal)
      (fun call => meets.close call recs watch.alarms.ring) taken
    refine ⟨b', recs, watch', fun _ _ _ _ _ alarm => ?_, fun h => absurd h timer,
      fun h => absurd h timer, fun h => absurd h timed⟩
    unfold Kernel.Alarm
    rw [sleeping]
    exact alarm

end

end RiscvKernel
