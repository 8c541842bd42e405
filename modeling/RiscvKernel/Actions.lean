import RiscvKernel.Latency
import RiscvKernel.Multitasking

/-!
# System calls are actions

* `Kernel.system`: what the kernel is for its threads, with nothing of how it is done;
* `Asks`: which action a system call is;
* `Called.does`: every system call does its action.
-/

namespace RiscvKernel
open Function Intrusive Placement Console Counting RoundRobin DeltaList Multitasking

/-! ## The abstract state -/

/-- The kernel on the board `b` with the sleeping records `recs`, as an abstract system. -/
def Kernel.system (k : Kernel) (b : Threads) (recs : List Nat) (s : Server Nat) :
    System Nat Nat UInt8 where
  server := s
  live := k.hist.live
  opened := k.hist.opened
  sem x := ⟨(k.sem x).val, b.queue (.sem x)⟩
  alarms := k.alarms recs
  readers := b.queue .input
  typed := k.console.unread
  printed := k.output

/-- The system calls that always do something. -/
def actingCodes : List Nat :=
  [syscallThreadExit, syscallThreadDispatch, syscallSemClose, syscallSemWait, syscallSemSignal,
    syscallTimedSleep, syscallGetc, syscallPutc]

/-- The action that the system call `code` is while the console is `c`; `arg` and `arg'` are
its first two arguments. -/
inductive Asks (c : Console) (code arg arg' : Nat) : Action Nat Nat UInt8 → Prop where
  | nothing (other : code ∉ actingCodes) : Asks c code arg arg' .nothing
  | create (t : Nat) (call : code = syscallThreadCreate) : Asks c code arg arg' (.create t)
  | exit (call : code = syscallThreadExit) : Asks c code arg arg' .exit
  | dispatch (call : code = syscallThreadDispatch) : Asks c code arg arg' .yield
  | openSem (s : Nat) (call : code = syscallSemOpen) :
      Asks c code arg arg' (.openSem s (toI32 (arg' % 2 ^ 32 : Nat)))
  | closeSem (call : code = syscallSemClose) : Asks c code arg arg' (.closeSem arg)
  | wait (call : code = syscallSemWait) : Asks c code arg arg' (.wait arg)
  | signal (call : code = syscallSemSignal) : Asks c code arg arg' (.signal arg)
  | sleep (call : code = syscallTimedSleep) : Asks c code arg arg' (.sleep arg)
  | read (call : code = syscallGetc) : Asks c code arg arg' .read
  | print (call : code = syscallPutc) (accepts : ¬ c.Refuses) :
      Asks c code arg arg' (.print (charOf arg))
  | retry (call : code = syscallPutc) (refuses : c.Refuses) : Asks c code arg arg' .yield

/-! ## System calls -/

section
variable {k k' : Kernel} {context code arg arg' : Nat} {b b' : Threads} {recs recs' : List Nat}
  {s : Server Nat} {a : Action Nat Nat UInt8}

/-- What a step that touches no semaphore and no console leaves. -/
theorem system_quiet (sems : k.SameSems k')
    (queue : ∀ x, b'.queue (.sem x) = b.queue (.sem x)) (console : k.SameConsole k')
    (input : b'.queue .input = b.queue .input) : k'.system b' recs' s =
      { k.system b recs s with live := k'.hist.live, alarms := k'.alarms recs' } := by
  have output : k'.output = k.output := by
    unfold Kernel.output
    rw [console.console]
  unfold Kernel.system
  simp only [sems.sem, sems.opened, queue, console.console, input, output]

/-- What a step on the console leaves. -/
theorem system_console (sems : k.SameSems k')
    (queue : ∀ x, b'.queue (.sem x) = b.queue (.sem x)) (live : k'.hist.live = k.hist.live)
    (alarms : k'.alarms recs' = k.alarms recs) : k'.system b' recs' s =
      { k.system b recs s with
        readers := b'.queue .input, typed := k'.console.unread, printed := k'.output } := by
  unfold Kernel.system
  simp only [sems.sem, sems.opened, queue, live, alarms]

/-- What a step on the semaphores leaves. -/
theorem system_sems (console : k.SameConsole k') (input : b'.queue .input = b.queue .input)
    (live : k'.hist.live = k.hist.live) (alarms : k'.alarms recs' = k.alarms recs) :
    k'.system b' recs' s =
      { k.system b recs s with
        opened := k'.hist.opened, sem := fun x => ⟨(k'.sem x).val, b'.queue (.sem x)⟩ } := by
  have output : k'.output = k.output := by
    unfold Kernel.output
    rw [console.console]
  unfold Kernel.system
  simp only [console.console, input, output, live, alarms]

/-- Calls other than `thread_create` and `thread_exit` leave the live threads. -/
theorem Called.sameLive (called : Called k context b recs code k' b' recs')
    (create : code ≠ syscallThreadCreate) (exit : code ≠ syscallThreadExit) :
    k'.hist.live = k.hist.live := by
  cases called with
  | memAlloc p heap =>
    unfold Kernel.memAlloced
    split <;> rfl
  | getcBlocked =>
    show (switch k).hist.live = _
    rw [switch_hist]
  | putcRefused => exact (putcRefused_dispatched k _).2.1
  | created => exact absurd rfl create
  | exited => exact absurd rfl exit
  | dispatched =>
    rw [dispatch_eq, switch_hist]
    rfl
  | @closed s =>
    show (pushAll (k.note _) (b.queue (.sem s))).hist.live = _
    rw [pushAll_hist]
    rfl
  | @blocked s =>
    show (switch (k.waited s)).hist.live = _
    rw [switch_hist]
    rfl
  | slept put =>
    rw [switch_hist, put.frame]
    rfl
  | _ => rfl

/-- The call does the action `a`: it changes the abstract system as `a` does, and it is the
same for the scheduler. -/
structure Does (k k' : Kernel) (b b' : Threads) (recs recs' : List Nat) (s : Server Nat)
    (code arg arg' : Nat) (a : Action Nat Nat UInt8) : Prop where
  asks : Asks k.console code arg arg' a
  enabled : (k.system b recs s).Enabled a
  change : k'.system b' recs' s = (k.system b recs s).change a
  signals : k.Signals code arg ((k.system b recs s).turn a)
  joins : ∀ new, (k.system b recs s).turn a = .join new →
    b'.queue .ready = b.queue .ready ++ new

/-- A call after which its thread goes on. -/
theorem does_join {new : List Nat} (asks : Asks k.console code arg arg' a)
    (enabled : (k.system b recs s).Enabled a)
    (change : k'.system b' recs' s = (k.system b recs s).change a)
    (turn : (k.system b recs s).turn a = .join new)
    (ready : b'.queue .ready = b.queue .ready ++ new)
    (stays : ¬ k.Yields code ∧ ¬ k.Blocks code arg) :
    Does k k' b b' recs recs' s code arg arg' a := by
  constructor
  · exact asks
  · exact enabled
  · exact change
  · rw [turn]
    exact stays
  · intro new' same
    obtain rfl := Event.join.inj (turn.symm.trans same)
    exact ready

/-- A call that takes its thread from the processor. -/
theorem does_leave (asks : Asks k.console code arg arg' a)
    (enabled : (k.system b recs s).Enabled a)
    (change : k'.system b' recs' s = (k.system b recs s).change a)
    (turn : (k.system b recs s).turn a = .leave) (blocks : k.Blocks code arg) :
    Does k k' b b' recs recs' s code arg arg' a := by
  constructor
  · exact asks
  · exact enabled
  · exact change
  · rw [turn]
    exact blocks
  · intro new same
    cases turn.symm.trans same

theorem does_yield (asks : Asks k.console code arg arg' .yield)
    (change : k'.system b' recs' s = k.system b recs s) (yields : k.Yields code) :
    Does k k' b b' recs recs' s code arg arg' .yield := by
  constructor
  · exact asks
  · trivial
  · exact change
  · exact yields
  · intro new same
    cases same

theorem does_nothing (same : k'.system b' recs' s = k.system b recs s)
    (ready : b'.queue .ready = b.queue .ready) (other : code ∉ actingCodes) :
    Does k k' b b' recs recs' s code arg arg' .nothing := by
  apply does_join (.nothing other) trivial same rfl
  · rw [ready, List.append_nil]
  · simp only [actingCodes, List.mem_cons, List.not_mem_nil, or_false, not_or] at other
    simp [Kernel.Yields, Kernel.Blocks, other]

/-- The other semaphores. -/
theorem waited_other {x y : Nat} (ne : y ≠ x) : (k.waited x).sem y = k.sem y :=
  update_of_ne ne ..

theorem signalled_other {x y : Nat} (ne : y ≠ x) : (k.signalled x).sem y = k.sem y :=
  update_of_ne ne ..

/-- The calls on threads touch neither semaphores nor the console. -/
theorem Called.quiet (called : Called k context b recs code k' b' recs') (s : Server Nat)
    (sem : code ∉ [syscallSemOpen, syscallSemClose, syscallSemWait, syscallSemSignal])
    (getc : code ≠ syscallGetc) (putc : code ≠ syscallPutc) : k'.system b' recs' s =
      { k.system b recs s with live := k'.hist.live, alarms := k'.alarms recs' } := by
  obtain ⟨sems, queue⟩ := called.sameSems sem
  obtain ⟨console, input⟩ := called.sameConsole getc putc
  exact system_quiet sems queue console input

theorem Called.createDoes (called : Called k context b recs syscallThreadCreate k' b' recs') :
    ∃ a, Does k k' b b' recs recs' s syscallThreadCreate arg arg' a := by
  have quiet := called.quiet s (by decide) (by decide) (by decide)
  rw [called.sameAlarms fun sleep => absurd sleep (by decide)] at quiet
  cases called with
  | unknown none => exact absurd (by decide) none
  | createRefused => exact ⟨.nothing, does_nothing quiet rfl (by decide)⟩
  | @created p b' heap notLive _ _ queue =>
    refine ⟨.create p, does_join (.create p rfl) notLive quiet rfl ?_ ?_⟩
    · rw [queue, update_self]
    · simp [Kernel.Yields, Kernel.Blocks]

theorem Called.exitDoes (called : Called k context b recs syscallThreadExit k' b' recs')
    (user : k.scheduler.threadCurrent ∈ k.hist.live)
    (running : s.running = k.scheduler.threadCurrent) :
    Does k k' b b' recs recs' s syscallThreadExit arg arg' .exit := by
  have quiet := called.quiet s (by decide) (by decide) (by decide)
  rw [called.sameAlarms fun sleep => absurd sleep (by decide)] at quiet
  cases called with
  | unknown none => exact absurd (by decide) none
  | exited heap queue =>
    have live : ({ k.threadExited with heap } : Kernel).hist.live =
        k.hist.live.erase k.scheduler.threadCurrent := by
      show (switch _).hist.live = _
      rw [switch_hist]
      rfl
    rw [live] at quiet
    refine does_leave (.exit rfl) ?_ (quiet.trans ?_) rfl (Or.inl rfl)
    · show s.running ∈ _
      rw [running]
      exact user
    · show _ = { k.system b recs s with live := (k.hist.live : Multiset Nat).erase s.running }
      rw [running, Multiset.coe_erase]
      rfl

theorem Called.dispatchDoes (called : Called k context b recs syscallThreadDispatch k' b' recs') :
    Does k k' b b' recs recs' s syscallThreadDispatch arg arg' .yield := by
  have quiet := called.quiet s (by decide) (by decide) (by decide)
  rw [called.sameAlarms fun sleep => absurd sleep (by decide),
    called.sameLive (by decide) (by decide)] at quiet
  cases called with
  | unknown none => exact absurd (by decide) none
  | dispatched queue =>
    exact does_yield (.dispatch rfl) quiet (Or.inl rfl)

theorem Called.sleepDoes (called : Called k context b recs syscallTimedSleep k' b' recs')
    (running : s.running = k.scheduler.threadCurrent) (time : k.context context regA1 = arg) :
    Does k k' b b' recs recs' s syscallTimedSleep arg arg' (.sleep arg) := by
  have quiet := called.quiet s (by decide) (by decide) (by decide)
  rw [called.sameLive (by decide) (by decide)] at quiet
  by_cases zero : arg = 0
  · subst zero
    rw [called.sameAlarms fun _ => time] at quiet
    apply does_join (.sleep rfl) trivial quiet rfl
    · cases called with
      | unknown none => exact absurd (by decide) none
      | sleepZero => exact (List.append_nil _).symm
      | slept put => exact absurd time (Nat.one_le_iff_ne_zero.mp put.time_pos)
    · simp [Kernel.Yields, Kernel.Blocks]
  · obtain ⟨early, late, before, after⟩ := called.setsAlarm (time ▸ zero)
    refine does_leave (.sleep rfl) trivial (quiet.trans ?_) (if_neg zero) ?_
    · have change : (k.system b recs s).change (.sleep arg) = { k.system b recs s with
          alarms := (s.running, arg) ::ₘ (k.alarms recs : Multiset (Nat × Nat)) } := if_neg zero
      rw [change, after, before, time, running]
      have moved : (early ++ (k.scheduler.threadCurrent, arg) :: late : Multiset (Nat × Nat)) =
          (k.scheduler.threadCurrent, arg) ::ₘ (early ++ late : List (Nat × Nat)) :=
        Multiset.coe_eq_coe.mpr List.perm_middle
      rw [moved]
      rfl
    · exact Or.inr (Or.inl ⟨rfl, zero⟩)

theorem Called.readDoes (called : Called k context b recs syscallGetc k' b' recs')
    (running : s.running = k.scheduler.threadCurrent) :
    Does k k' b b' recs recs' s syscallGetc arg arg' .read := by
  obtain ⟨sems, queue⟩ := called.sameSems (by decide)
  have reads := @system_console _ _ _ _ _ _ s sems queue (called.sameLive (by decide) (by decide))
    (called.sameAlarms fun sleep => absurd sleep (by decide))
  cases called with
  | unknown none => exact absurd (by decide) none
  | getcByte some =>
    have unread := getcByte_unread some
    have typed : (k.system b recs s).typed ≠ [] := by
      show k.console.unread ≠ []
      rw [unread]
      exact List.cons_ne_nil _ _
    refine does_join (.read rfl) trivial (reads.trans ?_) (if_neg typed)
      (List.append_nil _).symm ?_
    · have change : (k.system b recs s).change .read =
          { k.system b recs s with typed := k.console.unread.tail } := if_neg typed
      rw [change, unread]
      rfl
    · simp [Kernel.Yields, Kernel.Blocks, some]
  | getcBlocked none queue =>
    have typed : (k.system b recs s).typed = [] := by
      show firsts _ k.console.receiveCnt = []
      rw [none]
      rfl
    have console : (waitingPush (switch k) k.scheduler.threadCurrent).console = k.console :=
      switch_console k
    refine does_leave (.read rfl) trivial (reads.trans ?_) (if_pos typed) ?_
    · have change : (k.system b recs s).change .read =
          { k.system b recs s with readers := b.queue .input ++ [s.running] } := if_pos typed
      rw [change, queue, update_self, running]
      unfold Kernel.output
      rw [console]
      rfl
    · exact Or.inr (Or.inr (Or.inl ⟨rfl, none⟩))

theorem Called.putcDoes (called : Called k context b recs syscallPutc k' b' recs')
    (room : k.console.sendCnt ≤ consoleBufferSize) (char : k.context context regA1 = arg) :
    ∃ a, Does k k' b b' recs recs' s syscallPutc arg arg' a := by
  obtain ⟨sems, queue⟩ := called.sameSems (by decide)
  have prints := @system_console _ _ _ _ _ _ s sems queue
    (called.sameLive (by decide) (by decide))
    (called.sameAlarms fun sleep => absurd sleep (by decide))
  subst char
  cases called with
  | unknown none => exact absurd (by decide) none
  | putcAccepted accepted =>
    have accepts : ¬ k.console.Refuses := fun refuses => by
      rw [(putc_refused refuses _).1] at accepted
      exact absurd accepted (by decide)
    obtain ⟨-, put⟩ := putc_accepted accepts room (charOf (k.context context regA1))
    refine ⟨_, does_join (.print rfl accepts) trivial (prints.trans ?_) rfl
      (List.append_nil _).symm ?_⟩
    · have typed : (k.putcAccepted (charOf (k.context context regA1))).console.unread =
          k.console.unread := put.input.unread
      have printed : (k.putcAccepted (charOf (k.context context regA1))).output =
          k.output ++ [charOf (k.context context regA1)] := put.order
      rw [typed, printed]
      rfl
    · simp [Kernel.Yields, Kernel.Blocks, accepts]
  | putcRefused refused queue =>
    have refuses : k.console.Refuses := by
      by_contra accepts
      exact refused (putc_accepted accepts room _).1
    have same := dispatch_sameConsole (k.putcRefused (charOf (k.context context regA1)))
    refine ⟨_, does_yield (.retry rfl refuses) (prints.trans ?_) (Or.inr ⟨rfl, refuses⟩)⟩
    rcases putc_spec room (charOf (k.context context regA1)) with ⟨-, -, sent⟩ | ⟨zero, -⟩
    · have typed : (dispatch (k.putcRefused (charOf (k.context context regA1)))).console.unread =
          k.console.unread := by
        rw [same.console]
        exact sent.input.unread
      have printed : (dispatch (k.putcRefused (charOf (k.context context regA1)))).output =
          k.output := by
        unfold Kernel.output
        rw [same.console]
        exact sent.order
      rw [typed, printed, queue, update_of_ne (by simp)]
      rfl
    · exact absurd zero refused

/-- What a call on the semaphore `x` leaves. -/
theorem Called.changesSem (called : Called k context b recs code k' b' recs')
    (call : code ∈ [syscallSemOpen, syscallSemClose, syscallSemWait, syscallSemSignal])
    {x : Nat} {sem : Semaphore Nat} (val : (k'.sem x).val = sem.val)
    (queue : b'.queue (.sem x) = sem.queue) (others : ∀ y ≠ x,
      (k'.sem y).val = (k.sem y).val ∧ b'.queue (.sem y) = b.queue (.sem y)) :
    k'.system b' recs' s = { k.system b recs s with
      opened := k'.hist.opened, sem := update (k.system b recs s).sem x sem } := by
  simp only [List.mem_cons, List.not_mem_nil, or_false] at call
  have apart : ∀ other ∉ [syscallSemOpen, syscallSemClose, syscallSemWait, syscallSemSignal],
      code ≠ other := by
    rintro other out rfl
    exact out (by simpa using call)
  obtain ⟨console, input⟩ := called.sameConsole (apart _ (by decide)) (apart _ (by decide))
  have live := called.sameLive (apart _ (by decide)) (apart _ (by decide))
  have alarms := called.sameAlarms fun sleep => absurd sleep (apart _ (by decide))
  have sems : (fun x => ⟨(k'.sem x).val, b'.queue (.sem x)⟩ : Nat → Semaphore Nat) =
      update (k.system b recs s).sem x sem := by
    apply eq_update_iff.mpr
    constructor
    · rw [val, queue]
    · intro y ne
      obtain ⟨val, queue⟩ := others y ne
      rw [val, queue]
      rfl
  rw [system_sems console input live alarms, sems]

theorem Called.waitDoes (called : Called k context b recs syscallSemWait k' b' recs')
    (running : s.running = k.scheduler.threadCurrent) (first : k.context context regA1 = arg)
    (opened : arg ∈ k.hist.opened) (fits : toI32 ((k.sem arg).val - 1) = (k.sem arg).val - 1) :
    Does k k' b b' recs recs' s syscallSemWait arg arg' (.wait arg) := by
  have changes := @Called.changesSem _ _ _ _ _ _ _ _ s called (by decide) arg
    ((k.account b arg).toSemaphore.wait k.scheduler.threadCurrent)
  cases called with
  | unknown none => exact absurd (by decide) none
  | @waited x arg₁ passes =>
    obtain rfl : arg = x := first.symm.trans arg₁
    rw [fits] at passes
    refine does_join (.wait rfl) opened ((changes ?_ ?_ ?_).trans ?_) (if_neg passes)
      (List.append_nil _).symm ?_
    · exact (waited_val k arg).trans fits
    · exact (if_neg passes).symm
    · exact fun y ne => ⟨congrArg Sem.val (waited_other ne), rfl⟩
    · rw [← running]
      rfl
    · simp [Kernel.Yields, Kernel.Blocks, fits, passes]
  | @blocked x b' arg₁ blocks queue =>
    obtain rfl : arg = x := first.symm.trans arg₁
    rw [fits] at blocks
    have same := switch_sameSems (k.waited arg)
    refine does_leave (.wait rfl) opened ((changes ?_ ?_ ?_).trans ?_) (if_pos blocks) ?_
    · simp [semPush, Kernel.modifySem, waited_val, fits, Kernel.account, Semaphore.wait]
    · rw [queue, update_self]
      exact (if_pos blocks).symm
    · intro y ne
      simp [semPush, Kernel.modifySem, waited_other ne, queue, ne]
    · have opened : (semPush (switch (k.waited arg)) arg k.scheduler.threadCurrent).hist.opened =
          k.hist.opened := same.opened
      rw [opened, ← running]
      rfl
    · exact Or.inr (Or.inr (Or.inr ⟨rfl, fits.symm ▸ blocks⟩))

theorem Called.signalDoes (called : Called k context b recs syscallSemSignal k' b' recs')
    (first : k.context context regA1 = arg) (opened : arg ∈ k.hist.opened)
    (fits : toI32 ((k.sem arg).val + 1) = (k.sem arg).val + 1) :
    Does k k' b b' recs recs' s syscallSemSignal arg arg' (.signal arg) := by
  have changes := @Called.changesSem _ _ _ _ _ _ _ _ s called (by decide) arg
    (k.account b arg).toSemaphore.signal
  have val : ((k.signalled arg).sem arg).val = (k.sem arg).val + 1 :=
    (congrArg Sem.val (signalled_sem k arg)).trans fits
  have stays : ¬ k.Yields syscallSemSignal ∧ ¬ k.Blocks syscallSemSignal arg := by
    simp [Kernel.Yields, Kernel.Blocks]
  cases called with
  | unknown none => exact absurd (by decide) none
  | @signalled x arg₁ above =>
    obtain rfl : arg = x := first.symm.trans arg₁
    rw [fits] at above
    refine does_join (.signal rfl) opened (changes val ?_ ?_) (congrArg _ (if_neg above))
      (List.append_nil _).symm stays
    · exact (if_neg above).symm
    · exact fun y ne => ⟨congrArg Sem.val (signalled_other ne), rfl⟩
  | @unheard x arg₁ below nobody =>
    obtain rfl : arg = x := first.symm.trans arg₁
    rw [fits] at below
    refine does_join (.signal rfl) opened (changes val ?_ ?_) (congrArg _ (if_pos below)) ?_ stays
    · refine Eq.trans ?_ (if_pos below).symm
      show b.queue (.sem arg) = (b.queue (.sem arg)).tail
      rw [nobody]
      rfl
    · exact fun y ne => ⟨congrArg Sem.val (signalled_other ne), rfl⟩
    · show b.queue .ready = b.queue .ready ++ (b.queue (.sem arg)).take 1
      rw [nobody]
      exact (List.append_nil _).symm
  | @woke x w ws b' arg₁ below head queue =>
    obtain rfl : arg = x := first.symm.trans arg₁
    rw [fits] at below
    refine does_join (.signal rfl) opened (changes ?_ ?_ ?_) (congrArg _ (if_pos below)) ?_ stays
    · refine Eq.trans ?_ val
      simp [Kernel.unblocked, schedulerPush, semNext, Kernel.modifySem, Kernel.modifyThread,
        Kernel.setContext, Kernel.poke]
    · refine Eq.trans ?_ (if_pos below).symm
      show b'.queue (.sem arg) = (b.queue (.sem arg)).tail
      rw [queue, head]
      simp
    · intro y ne
      simp [Kernel.unblocked, schedulerPush, semNext, Kernel.modifySem, Kernel.modifyThread,
        Kernel.setContext, Kernel.poke, signalled_other ne, queue, ne]
    · show _ = b.queue .ready ++ (b.queue (.sem arg)).take 1
      rw [queue, update_self, head]
      rfl

theorem Called.closeDoes (called : Called k context b recs syscallSemClose k' b' recs')
    (first : k.context context regA1 = arg) (opened : arg ∈ k.hist.opened) :
    Does k k' b b' recs recs' s syscallSemClose arg arg' (.closeSem arg) := by
  have changes := @Called.changesSem _ _ _ _ _ _ _ _ s called (by decide) arg
    ⟨(k.sem arg).val, []⟩
  cases called with
  | unknown none => exact absurd (by decide) none
  | @closed x b' arg₁ heap queue =>
    obtain rfl : arg = x := first.symm.trans arg₁
    have same := pushAll_sameSems (k.note fun h => { h with opened := h.opened.erase arg })
      (b.queue (.sem arg))
    have sem : ((k.semClosed arg (b.queue (.sem arg)) heap).setContext context regA0 0).sem =
        k.sem := same.sem
    refine does_join (.closeSem rfl) opened ((changes ?_ ?_ ?_).trans ?_) rfl ?_ ?_
    · rw [sem]
    · rw [queue]
      simp
    · intro y ne
      rw [sem, queue]
      simp [ne]
    · have closed : ((k.semClosed arg (b.queue (.sem arg)) heap).setContext
          context regA0 0).hist.opened = k.hist.opened.erase arg := same.opened
      rw [closed, ← Multiset.coe_erase]
      rfl
    · rw [queue, update_self]
      rfl
    · simp [Kernel.Yields, Kernel.Blocks]

theorem Called.openDoes (called : Called k context b recs syscallSemOpen k' b' recs')
    (inv : k.Inv b recs) (second : k.context context regA2 = arg') :
    ∃ a, Does k k' b b' recs recs' s syscallSemOpen arg arg' a := by
  have changes := @Called.changesSem _ _ _ _ _ _ _ _ s called (by decide)
  cases called with
  | unknown none => exact absurd (by decide) none
  | openRefused => exact ⟨.nothing, does_nothing rfl rfl (by decide)⟩
  | @opened x heap nonzero fresh =>
    have idle : b.queue (.sem x) = [] := inv.places.rings.idle (.sem x) fresh
    subst second
    refine ⟨_, does_join (.openSem x rfl) fresh (changes ?_ idle ?_) rfl
      (List.append_nil _).symm ?_⟩
    · simp [Kernel.semOpened, Kernel.modifySem, Kernel.note, Kernel.setContext, Kernel.poke]
    · intro y ne
      simp [Kernel.semOpened, Kernel.modifySem, Kernel.note, Kernel.setContext, Kernel.poke, ne]
    · simp [Kernel.Yields, Kernel.Blocks]

/-- Every system call of a thread does an action. -/
theorem Called.does (called : Called k context b recs code k' b' recs') (inv : k.Inv b recs)
    (room : k.console.sendCnt ≤ consoleBufferSize)
    (user : k.scheduler.threadCurrent ∈ k.hist.live)
    (running : s.running = k.scheduler.threadCurrent) (first : k.context context regA1 = arg)
    (second : k.context context regA2 = arg')
    (opened : code ∈ [syscallSemClose, syscallSemWait, syscallSemSignal] → arg ∈ k.hist.opened)
    (wait : code = syscallSemWait → toI32 ((k.sem arg).val - 1) = (k.sem arg).val - 1)
    (signal : code = syscallSemSignal → toI32 ((k.sem arg).val + 1) = (k.sem arg).val + 1) :
    ∃ a, Does k k' b b' recs recs' s code arg arg' a := by
  by_cases known : code ∈ syscallCodes
  case neg =>
    cases called with
    | unknown =>
      simp only [syscallCodes, List.mem_cons, List.not_mem_nil, or_false, not_or] at known
      exact ⟨.nothing, does_nothing rfl rfl (by simp [actingCodes, known])⟩
    | _ => exact absurd (by decide) known
  simp only [syscallCodes, List.mem_cons, List.not_mem_nil, or_false] at known
  rcases known with rfl | rfl | rfl | rfl | rfl | rfl | rfl | rfl | rfl | rfl | rfl | rfl
  · have quiet := called.quiet s (by decide) (by decide) (by decide)
    rw [called.sameAlarms fun sleep => absurd sleep (by decide),
      called.sameLive (by decide) (by decide)] at quiet
    cases called with
    | unknown none => exact absurd (by decide) none
    | memAlloc => exact ⟨.nothing, does_nothing quiet rfl (by decide)⟩
  · exact ⟨_, called.readDoes running⟩
  · exact called.putcDoes room first
  · exact called.createDoes
  · exact ⟨_, called.exitDoes user running⟩
  · exact ⟨_, called.dispatchDoes⟩
  · exact called.openDoes inv second
  · exact ⟨_, called.closeDoes first (opened (by simp))⟩
  · exact ⟨_, called.waitDoes running first (opened (by simp)) (wait rfl)⟩
  · exact ⟨_, called.signalDoes first (opened (by simp)) (signal rfl)⟩
  · cases called with
    | unknown none => exact absurd (by decide) none
  · exact ⟨_, called.sleepDoes running first⟩

/-- The threads that join are those that are ready afterwards. -/
theorem Turned.join_eq {ready new new' : List Nat}
    (turned : Turned k k' ready (ready ++ new) (.join new')) : new' = new := by
  obtain ⟨_, -, turned⟩ := turned
  obtain ⟨_, same⟩ := turned [] []
  exact List.append_cancel_left (congrArg Server.queue same)

/-- A call is one event for the scheduler. -/
theorem Does.event {e : Event Nat} (does : Does k k' b b' recs recs' s code arg arg' a)
    (signals : k.Signals code arg e)
    (turned : Turned k k' (b.queue .ready) (b'.queue .ready) e) :
    e = (k.system b recs s).turn a := by
  have does_signals := does.signals
  have joins := does.joins
  have apart : k.Yields code → ¬ k.Blocks code arg := by
    rintro (rfl | ⟨rfl, -⟩) <;> simp [Kernel.Blocks]
  generalize (k.system b recs s).turn a = e' at does_signals joins
  cases e with
  | join new =>
    cases e' with
    | join new' =>
      rw [joins new' rfl] at turned
      rw [turned.join_eq]
    | rejoin => exact absurd does_signals signals.1
    | leave => exact absurd does_signals signals.2
    | tick => exact does_signals.elim
  | rejoin =>
    cases e' with
    | join => exact absurd signals does_signals.1
    | rejoin => rfl
    | leave => exact absurd does_signals (apart signals)
    | tick => exact does_signals.elim
  | leave =>
    cases e' with
    | join => exact absurd signals does_signals.2
    | rejoin => exact absurd signals (apart does_signals)
    | leave => rfl
    | tick => exact does_signals.elim
  | tick => exact signals.elim

end

end RiscvKernel
