import RiscvKernel.RoundRobin
import RiscvKernel.Retries
import RiscvKernel.Slices
import RiscvKernel.SleepRuns
import RiscvKernel.Conservation

/-!
# Turns

The scheduler is a round-robin server: every trap is one event of it.

* `Trap.Signals`: which event a trap is;
* `trap_turned`: a trap does to the ready queue and the time slices what its event does;
* `kernel_round_robin`: in every run, threads run in the order in which they became ready;
* `no_starvation`: a ready thread runs within a bounded number of timer interrupts.
-/

namespace RiscvKernel
open Function Intrusive Placement Console RoundRobin

/-! ## The server -/

/-- The scheduler of `k` as a server whose clients are the threads; `ready` is its queue. -/
def Kernel.server (k : Kernel) (ready joined served : List Nat) : Server Nat :=
  ⟨k.scheduler.threadCurrent, k.slice, ready, joined, served⟩

/-- From `k` to `k'` the scheduler takes the step `e`. -/
def Turned (k k' : Kernel) (ready ready' : List Nat) (e : Event Nat) : Prop :=
  ∃ new, k'.hist.pushed = k.hist.pushed ++ new ∧ ∀ joined served, ∃ served',
    (k.server ready joined served).step k.scheduler.kernelMain defaultTimeSlice e =
      k'.server ready' (joined ++ new) served'

/-- The hart goes to the first of the threads `ready`, or to `main` when there is none. -/
def Hands (main : Nat) (ready : List Nat) (current : Nat) (ready' : List Nat) : Prop :=
  ready = current :: ready' ∨ ready = [] ∧ ready' = [] ∧ current = main

section
variable {k k' : Kernel} {ready ready' new : List Nat}

theorem switch_hands (ring : IsRing k.links k.scheduler.readyThreads ready) :
    Hands k.scheduler.kernelMain ready (switch k).scheduler.threadCurrent ready.tail := by
  cases ready with
  | nil =>
    have empty : k.scheduler.readyThreads = 0 := ring
    apply Or.inr
    refine ⟨rfl, rfl, ?_⟩
    unfold switch
    rw [yield_scheduler, schedulerNext_empty k empty]
  | cons r rs =>
    apply Or.inl
    rw [switch_first (ring.head_null.not.mpr (by simp)), ring.head_eq]
    rfl

theorem dispatch_hands (ring : IsRing k.links k.scheduler.readyThreads ready)
    (nonzero : k.scheduler.threadCurrent ≠ 0) :
    Hands k.scheduler.kernelMain (ready ++ [k.scheduler.threadCurrent])
      (dispatch k).scheduler.threadCurrent (ready ++ [k.scheduler.threadCurrent]).tail :=
  Or.inl (dispatch_current ring nonzero).symm

theorem server_join (current : k'.scheduler.threadCurrent = k.scheduler.threadCurrent)
    (slice : ∀ t, k'.slice t = if t ∈ new then defaultTimeSlice else k.slice t)
    (joined served : List Nat) : (k.server ready joined served).join defaultTimeSlice new =
      k'.server (ready ++ new) (joined ++ new) served := by
  have left : k'.slice = fun t => if t ∈ new then defaultTimeSlice else k.slice t := funext slice
  unfold Kernel.server
  rw [current, left]
  rfl

theorem server_next {main : Nat} (slice : k'.slice = k.slice)
    (hands : Hands main ready k'.scheduler.threadCurrent ready') (joined served : List Nat) :
    ∃ served', (k.server ready joined served).next main = k'.server ready' joined served' := by
  unfold Kernel.server
  rw [slice]
  rcases hands with rfl | ⟨rfl, rfl, rfl⟩
  · exact ⟨served ++ [k'.scheduler.threadCurrent], rfl⟩
  · exact ⟨served, rfl⟩

theorem server_rejoin {main : Nat}
    (slice : k'.slice = update k.slice k.scheduler.threadCurrent defaultTimeSlice)
    (hands : Hands main (ready ++ [k.scheduler.threadCurrent]) k'.scheduler.threadCurrent ready')
    (joined served : List Nat) : ∃ served', (k.server ready joined served).rejoin main
      defaultTimeSlice = k'.server ready' (joined ++ [k.scheduler.threadCurrent]) served' := by
  let k₁ := schedulerPush k k.scheduler.threadCurrent
  have pushed : k₁.slice = update k.slice k.scheduler.threadCurrent defaultTimeSlice :=
    schedulerPush_slice ..
  have join : (k.server ready joined served).join defaultTimeSlice [k.scheduler.threadCurrent] =
      k₁.server (ready ++ [k.scheduler.threadCurrent]) (joined ++ [k.scheduler.threadCurrent])
        served := by
    apply server_join
    · rfl
    · exact @slice_one k k₁ _ pushed
  have next := server_next (k := k₁) (slice.trans pushed.symm) hands
    (joined ++ [k.scheduler.threadCurrent]) served
  have same : (k.server ready joined served).running = k.scheduler.threadCurrent := rfl
  unfold Server.rejoin
  rwa [same, join]

theorem turned_join (current : k'.scheduler.threadCurrent = k.scheduler.threadCurrent)
    (slice : ∀ t, k'.slice t = if t ∈ new then defaultTimeSlice else k.slice t)
    (queue : ready' = ready ++ new) (pushed : k'.hist.pushed = k.hist.pushed ++ new) :
    Turned k k' ready ready' (.join new) :=
  ⟨new, pushed, fun joined served => ⟨served, queue ▸ server_join current slice joined served⟩⟩

theorem turned_same (current : k'.scheduler.threadCurrent = k.scheduler.threadCurrent)
    (slice : k'.slice = k.slice) (queue : ready' = ready)
    (pushed : k'.hist.pushed = k.hist.pushed) : Turned k k' ready ready' (.join []) :=
  turned_join current (fun t => by simp [slice]) (by simp [queue]) (by simp [pushed])

theorem turned_leave (slice : k'.slice = k.slice) (pushed : k'.hist.pushed = k.hist.pushed)
    (hands : Hands k.scheduler.kernelMain ready k'.scheduler.threadCurrent ready') :
    Turned k k' ready ready' .leave := by
  refine ⟨[], by rw [pushed, List.append_nil], fun joined served => ?_⟩
  rw [List.append_nil]
  exact server_next slice hands joined served

theorem turned_rejoin
    (slice : k'.slice = update k.slice k.scheduler.threadCurrent defaultTimeSlice)
    (pushed : k'.hist.pushed = k.hist.pushed ++ [k.scheduler.threadCurrent])
    (hands : Hands k.scheduler.kernelMain (ready ++ [k.scheduler.threadCurrent])
      k'.scheduler.threadCurrent ready') : Turned k k' ready ready' .rejoin :=
  ⟨_, pushed, server_rejoin slice hands⟩

end

/-! ## System calls -/

/-- The system call `code` gives up the hart, and its thread is ready. -/
def Kernel.Yields (k : Kernel) (code : Nat) : Prop :=
  code = syscallThreadDispatch ∨ code = syscallPutc ∧ k.console.Refuses

/-- The system call `code` gives up the hart, and its thread is not ready; `arg` is its
first argument. -/
def Kernel.Blocks (k : Kernel) (code arg : Nat) : Prop :=
  code = syscallThreadExit ∨ code = syscallTimedSleep ∧ arg ≠ 0 ∨
    code = syscallGetc ∧ k.console.receiveCnt = 0 ∨
    code = syscallSemWait ∧ toI32 ((k.sem arg).val - 1) < 0

/-- The event that the system call `code` is. -/
def Kernel.Signals (k : Kernel) (code arg : Nat) : Event Nat → Prop
  | .join _ => ¬ k.Yields code ∧ ¬ k.Blocks code arg
  | .rejoin => k.Yields code
  | .leave => k.Blocks code arg
  | .tick _ => False

section
variable {k k' : Kernel} {b b' : Threads} {recs recs' : List Nat} {context code : Nat}

theorem putcRefused_turned {ready : List Nat} (ch : UInt8)
    (ring : IsRing k.links k.scheduler.readyThreads ready)
    (nonzero : k.scheduler.threadCurrent ≠ 0) : Turned k (dispatch (k.putcRefused ch)) ready
      (ready ++ [k.scheduler.threadCurrent]).tail .rejoin := by
  apply turned_rejoin
  · rw [dispatch_slice, putcRefused_slice]
    rfl
  · exact dispatch_pushed (k.putcRefused ch)
  · exact dispatch_hands (k := k.putcRefused ch) ring nonzero

/-- **System calls.** -/
theorem Called.turned (called : Called k context b recs code k' b' recs')
    (room : k.console.sendCnt ≤ consoleBufferSize)
    (ring : IsRing k.links k.scheduler.readyThreads (b.queue .ready))
    (nonzero : k.scheduler.threadCurrent ≠ 0) :
    ∃ e, k.Signals code (k.context context regA1) e ∧
      Turned k k' (b.queue .ready) (b'.queue .ready) e := by
  cases called with
  | unknown none =>
    refine ⟨.join [], ?_, turned_same rfl rfl rfl rfl⟩
    simp only [syscallCodes, List.mem_cons, List.not_mem_nil, or_false, not_or] at none
    simp [Kernel.Signals, Kernel.Yields, Kernel.Blocks, none]
  | memAlloc p heap =>
    refine ⟨.join [], by simp [Kernel.Signals, Kernel.Yields, Kernel.Blocks],
      turned_same ?_ ?_ rfl ?_⟩
    all_goals
      unfold Kernel.memAlloced
      split <;> rfl
  | getcByte some =>
    exact ⟨.join [], by simp [Kernel.Signals, Kernel.Yields, Kernel.Blocks, some],
      turned_same rfl rfl rfl rfl⟩
  | getcBlocked none queue =>
    refine ⟨.leave, by simp [Kernel.Signals, Kernel.Blocks, none],
      turned_leave (switch_slice k) (switch_pushed k) ?_⟩
    have tail : b'.queue .ready = (b.queue .ready).tail := by simp [queue]
    exact tail ▸ switch_hands ring
  | putcAccepted accepted =>
    have accepts : ¬ k.console.Refuses := fun refuses => by
      rw [(putc_refused refuses _).1] at accepted
      exact absurd accepted (by decide)
    exact ⟨.join [], by simp [Kernel.Signals, Kernel.Yields, Kernel.Blocks, accepts],
      turned_same rfl rfl rfl rfl⟩
  | putcRefused refused queue =>
    have refuses : k.console.Refuses := by
      by_contra accepts
      exact refused (putc_accepted accepts room _).1
    refine ⟨.rejoin, Or.inr ⟨rfl, refuses⟩, ?_⟩
    have tail : b'.queue .ready = (b.queue .ready ++ [k.scheduler.threadCurrent]).tail := by
      simp [queue]
    exact tail ▸ putcRefused_turned _ ring nonzero
  | createRefused heap =>
    exact ⟨.join [], by simp [Kernel.Signals, Kernel.Yields, Kernel.Blocks],
      turned_same rfl rfl rfl rfl⟩
  | @created p b' heap _ _ _ queue =>
    refine ⟨.join [p], by simp [Kernel.Signals, Kernel.Yields, Kernel.Blocks],
      turned_join rfl (slice_one ?_) (by simp [queue]) rfl⟩
    rw [setContext_slice, threadCreated_slice]
  | exited heap queue =>
    let k₁ := (schedulerUserThreadDecrement k).note fun h =>
      { h with live := h.live.erase k.scheduler.threadCurrent }
    refine ⟨.leave, Or.inl rfl, turned_leave (switch_slice k₁) (switch_pushed k₁) ?_⟩
    have tail : b'.queue .ready = (b.queue .ready).tail := by simp [queue]
    exact tail ▸ switch_hands (k := k₁) ring
  | dispatched queue =>
    refine ⟨.rejoin, Or.inl rfl, turned_rejoin (dispatch_slice k) (dispatch_pushed k) ?_⟩
    have tail : b'.queue .ready = (b.queue .ready ++ [k.scheduler.threadCurrent]).tail := by
      simp [queue]
    exact tail ▸ dispatch_hands ring nonzero
  | openRefused heap =>
    exact ⟨.join [], by simp [Kernel.Signals, Kernel.Yields, Kernel.Blocks],
      turned_same rfl rfl rfl rfl⟩
  | opened heap =>
    exact ⟨.join [], by simp [Kernel.Signals, Kernel.Yields, Kernel.Blocks],
      turned_same rfl rfl rfl rfl⟩
  | @closed s b' arg heap queue =>
    let k₁ := k.note fun h => { h with opened := h.opened.erase s }
    refine ⟨.join (b.queue (.sem s)), by simp [Kernel.Signals, Kernel.Yields, Kernel.Blocks],
      turned_join ?_ (pushAll_slice k₁ _) (by simp [queue]) (pushAll_pushed k₁ _)⟩
    exact pushAll_current k₁ _
  | waited arg passes =>
    exact ⟨.join [], by simp [Kernel.Signals, Kernel.Yields, Kernel.Blocks, arg, passes],
      turned_same rfl rfl rfl rfl⟩
  | @blocked s b' arg blocks queue =>
    refine ⟨.leave, by simp [Kernel.Signals, Kernel.Blocks, arg, blocks],
      turned_leave (switch_slice (k.waited s)) (switch_pushed (k.waited s)) ?_⟩
    have tail : b'.queue .ready = (b.queue .ready).tail := by simp [queue]
    exact tail ▸ switch_hands (k := k.waited s) ring
  | signalled =>
    exact ⟨.join [], by simp [Kernel.Signals, Kernel.Yields, Kernel.Blocks],
      turned_same rfl rfl rfl rfl⟩
  | unheard =>
    exact ⟨.join [], by simp [Kernel.Signals, Kernel.Yields, Kernel.Blocks],
      turned_same rfl rfl rfl rfl⟩
  | @woke s w ws b' arg below first queue =>
    refine ⟨.join [w], by simp [Kernel.Signals, Kernel.Yields, Kernel.Blocks],
      turned_join rfl (slice_one ?_) (by simp [queue]) rfl⟩
    rw [setContext_slice]
    exact schedulerPush_slice _ w
  | sleepZero zero =>
    exact ⟨.join [], by simp [Kernel.Signals, Kernel.Yields, Kernel.Blocks, zero],
      turned_same rfl rfl rfl rfl⟩
  | @slept k₁ p front back b' put queue =>
    have frame := put.frame
    refine ⟨.leave, ?_, turned_leave ((switch_slice k₁).trans ?_)
      ((switch_pushed k₁).trans ?_) ?_⟩
    · exact Or.inr (Or.inl ⟨rfl, Nat.one_le_iff_ne_zero.mp put.time_pos⟩)
    · rw [frame]
      rfl
    · rw [frame]
      rfl
    · have tail : b'.queue .ready = (b.queue .ready).tail := by simp [queue]
      have ring₁ : IsRing k₁.links k₁.scheduler.readyThreads (b.queue .ready) := by
        rw [frame]
        exact ring
      have main : k₁.scheduler.kernelMain = k.scheduler.kernelMain := by
        rw [frame]
        rfl
      exact tail ▸ main ▸ switch_hands ring₁

end

/-! ## Traps -/

section
variable {k k' : Kernel} {b b' : Threads} {recs recs' : List Nat}

/-- `handleTimer` after the tick. -/
theorem handleTimer_run {k₁ : Kernel} (inv : k₁.Inv b recs) (tick : schedulerTick k = .ok k₁) :
    handleTimer k = .ok (if k₁.slice k₁.scheduler.threadCurrent ≤ 1 then dispatch k₁
      else k₁.spend) := by
  have range := inv.slice_range inv.current_thread
  rw [handleTimer_ticked tick, u64_eq (by omega) (by omega)]
  by_cases last : k₁.slice k₁.scheduler.threadCurrent ≤ 1
  · rw [if_pos last, if_pos (by omega)]
  · rw [if_neg last, if_neg (by omega)]

/-- The current thread uses up a tick: it queues again after its last one. -/
theorem spend_turned (inv : k.Inv b recs)
    (spent : k' = if k.slice k.scheduler.threadCurrent ≤ 1 then dispatch k else k.spend) :
    ∃ new ready', IsRing k'.links k'.scheduler.readyThreads ready' ∧
      k'.hist.pushed = k.hist.pushed ++ new ∧ ∀ joined served, ∃ served',
        (k.server (b.queue .ready) joined served).spend k.scheduler.kernelMain defaultTimeSlice =
          k'.server ready' (joined ++ new) served' := by
  have ring := inv.places.rings.ring .ready trivial
  subst spent
  split
  · next last =>
    obtain ⟨b', inv', queue⟩ := dispatch_inv inv
    have tail : b'.queue .ready = (b.queue .ready ++ [k.scheduler.threadCurrent]).tail := by
      simp [queue]
    have hands := dispatch_hands ring (thread_pos inv.owns inv.current_thread)
    refine ⟨[k.scheduler.threadCurrent], b'.queue .ready,
      inv'.places.rings.ring .ready trivial, dispatch_pushed k, fun joined served => ?_⟩
    have spend : (k.server (b.queue .ready) joined served).spend k.scheduler.kernelMain
        defaultTimeSlice = _ := if_pos last
    rw [spend]
    exact server_rejoin (dispatch_slice k) (tail ▸ hands) joined served
  · next more =>
    refine ⟨[], b.queue .ready, ring, (List.append_nil _).symm, fun joined served => ⟨served, ?_⟩⟩
    have range := inv.slice_range inv.current_thread
    have spend : (k.server (b.queue .ready) joined served).spend k.scheduler.kernelMain
        defaultTimeSlice = _ := if_neg more
    have slice : u64 (k.slice k.scheduler.threadCurrent - 1) =
        k.slice k.scheduler.threadCurrent - 1 := by
      rw [u64_eq (by omega) (by omega)]
      omega
    rw [spend, List.append_nil]
    unfold Kernel.server
    rw [spend_slice, slice]
    rfl

/-- **The timer.** -/
theorem timer_turned (inv : k.Inv b recs) (timer : handleTimer k = .ok k') :
    ∃ k₁ gone left ready', k.Ticked k₁ recs gone left ∧
      IsRing k'.links k'.scheduler.readyThreads ready' ∧
      Turned k k' (b.queue .ready) ready' (.tick (gone.map fun r => (k.sleeping r).thread)) := by
  obtain ⟨k₁, gone, left, b₁, tick, ticked, inv₁, queue⟩ := tick_inv inv
  have spent := Except.ok.inj (timer.symm.trans (handleTimer_run inv₁ tick))
  obtain ⟨pushed, ready', ring', pushed', spend⟩ := spend_turned inv₁ spent
  have slice := ticked_slice ticked
  have before : k₁.hist.pushed = k.hist.pushed ++ gone.map fun r => (k.sleeping r).thread := by
    have pushed := pushAll_pushed { k with sleeping := k₁.sleeping }
      (gone.map fun r => (k.sleeping r).thread)
    rw [ticked.frame]
    exact pushed
  have ready : b₁.queue .ready = b.queue .ready ++ gone.map fun r => (k.sleeping r).thread := by
    rw [queue, update_self]
  have main : k₁.scheduler.kernelMain = k.scheduler.kernelMain := (ticked_threads ticked).2.2.2
  rw [ready, main] at spend
  refine ⟨k₁, gone, left, ready', ticked, ring', ?_⟩
  generalize (gone.map fun r => (k.sleeping r).thread) = new at *
  refine ⟨new ++ pushed, ?_, fun joined served => ?_⟩
  · rw [pushed', before, List.append_assoc]
  · obtain ⟨served', spend⟩ := spend (joined ++ new) served
    have join : (k.server (b.queue .ready) joined served).join defaultTimeSlice new =
        k₁.server (b.queue .ready ++ new) (joined ++ new) served :=
      server_join (ticked_current ticked) slice joined served
    refine ⟨served', ?_⟩
    show ((k.server (b.queue .ready) joined served).join defaultTimeSlice new).spend _ _ = _
    rw [join, spend, List.append_assoc]

/-- A trap that is neither the timer nor a call of `kernel_main`. -/
theorem Handled.turned (handled : Handled k b recs k' b' recs')
    (room : k.console.sendCnt ≤ consoleBufferSize)
    (ring : IsRing k.links k.scheduler.readyThreads (b.queue .ready))
    (nonzero : k.scheduler.threadCurrent ≠ 0) (notTimer : k.hart.scause ≠ irqTimer)
    (notKernel : k.hart.scause ≠ irqEcallKernel) :
    ∃ e, Turned k k' (b.queue .ready) (b'.queue .ready) e ∧
      if k.hart.scause = irqEcallUser then k.Signals (k.context k.hart.sscratch regA0)
        (k.context k.hart.sscratch regA1) e else ∃ new, e = .join new := by
  cases handled with
  | ignored notUser =>
    refine ⟨.join [], turned_same rfl rfl rfl rfl, ?_⟩
    rw [if_neg notUser]
    exact ⟨[], rfl⟩
  | @console ws rest input bytes b' cause _ _ delivered queue =>
    have notUser : k.hart.scause ≠ irqEcallUser := cause ▸ (by decide)
    have frame := delivered.frame
    refine ⟨.join ws, turned_join ?_ delivered.slices (by simp [queue]) ?_, ?_⟩
    · show (consoleReceive k).scheduler.threadCurrent = _
      rw [frame]
    · show (consoleReceive k).hist.pushed = _
      rw [frame]
    · rw [if_neg notUser]
      exact ⟨ws, rfl⟩
  | ticked timer => exact absurd timer notTimer
  | preempted timer => exact absurd timer notTimer
  | called user called =>
    obtain ⟨e, signals, turned⟩ := called.turned room ring nonzero
    refine ⟨e, turned, ?_⟩
    rw [if_pos user]
    exact signals
  | mainIgnored kernel => exact absurd kernel notKernel
  | mainDispatched kernel => exact absurd kernel notKernel

/-- The event that a trap is. -/
def Trap.Signals (tr : Trap) (k : Kernel) (e : Event Nat) : Prop :=
  if tr.scause = irqTimer then ∃ new, e = .tick new
  else if tr.scause = irqEcallUser then k.Signals (tr.regs regA0) (tr.regs regA1) e
  else if tr.scause = irqEcallKernel ∧ tr.regs regA0 = syscallKernelDispatch then e = .leave
  else ∃ new, e = .join new

/-- A call of `kernel_main`. -/
theorem main_turned {k₁ : Kernel} {tr : Trap} (inv : k₁.Inv b recs)
    (entered : k₁ = enter k tr) (main : k₁.scheduler.threadCurrent = k₁.scheduler.kernelMain) :
    ∃ e ready', IsRing (handleEcallKernel k₁).links
      (handleEcallKernel k₁).scheduler.readyThreads ready' ∧
      Turned k₁ (handleEcallKernel k₁) (b.queue .ready) ready' e ∧
      if tr.regs regA0 = syscallKernelDispatch then e = .leave else ∃ new, e = .join new := by
  have ring := inv.places.rings.ring .ready trivial
  have code : k₁.context k₁.hart.sscratch regA0 = tr.regs regA0 := by
    rw [entered]
    exact enter_arg k tr (by decide) (by decide)
  by_cases call : tr.regs regA0 = syscallKernelDispatch
  · rw [handleEcallKernel_dispatch k₁ (code.trans call)]
    obtain ⟨b', inv', queue⟩ := mainDispatch_inv (k := bumpSepc k₁ 4) (inv.congr rfl rfl) main
    have tail : b'.queue .ready = (b.queue .ready).tail := by simp [queue]
    refine ⟨.leave, b'.queue .ready, inv'.places.rings.ring .ready trivial,
      turned_leave (switch_slice _) (switch_pushed _) ?_, by rw [if_pos call]⟩
    exact tail ▸ switch_hands (k := bumpSepc k₁ 4) ring
  · have skip : handleEcallKernel k₁ = bumpSepc k₁ 4 := if_neg (code ▸ call)
    refine ⟨.join [], b.queue .ready, skip ▸ ring, skip ▸ turned_same rfl rfl rfl rfl, ?_⟩
    rw [if_neg call]
    exact ⟨[], rfl⟩

theorem trap_handler {tr : Trap} (taken : trap k tr = .ok k') :
    ∃ k₁, irqHandler tr.plic (enter k tr) = .ok k₁ ∧ k' = leave k₁ := by
  unfold trap at taken
  cases handler : irqHandler tr.plic (enter k tr) with
  | error halt =>
    rw [handler] at taken
    cases taken
  | ok k₁ =>
    rw [handler] at taken
    exact ⟨k₁, rfl, (Except.ok.inj taken).symm⟩

/-- Entering and leaving a trap do nothing to the scheduler. -/
theorem Turned.trap {k₁ : Kernel} {tr : Trap} {ready ready' : List Nat} {e : Event Nat}
    (turned : Turned (enter k tr) k₁ ready ready' e)
    (ring : IsRing k₁.links k₁.scheduler.readyThreads ready') :
    IsRing (leave k₁).links (leave k₁).scheduler.readyThreads ready' ∧
      Turned k (leave k₁) ready ready' e := ⟨ring, turned⟩

/-- **Traps.** Every trap is one event of the scheduler. -/
theorem trap_turned {tr : Trap} (rest : k.Rest b recs) (fits : tr.Fits k)
    (taken : trap k tr = .ok k') : ∃ e ready', tr.Signals k e ∧
      IsRing k'.links k'.scheduler.readyThreads ready' ∧
      Turned k k' (b.queue .ready) ready' e := by
  have inv := enter_inv rest.inv tr
  have nonzero := thread_pos rest.inv.owns rest.inv.current_thread
  unfold Trap.Signals
  by_cases timer : tr.scause = irqTimer
  · obtain ⟨k₁, handler, rfl⟩ := trap_handler taken
    have arm : irqHandler tr.plic (enter k tr) = handleTimer (enter k tr) := if_pos timer
    obtain ⟨-, gone, -, ready', -, ring, turned⟩ := timer_turned inv (arm.symm.trans handler)
    refine ⟨_, ready', ?_, turned.trap ring⟩
    rw [if_pos timer]
    exact ⟨_, rfl⟩
  by_cases kernel : tr.scause = irqEcallKernel
  · obtain ⟨k₁, handler, rfl⟩ := trap_handler taken
    have cause : (enter k tr).hart.scause = irqEcallKernel := kernel
    have notUser : tr.scause ≠ irqEcallUser := kernel ▸ (by decide)
    have arm : irqHandler tr.plic (enter k tr) = .ok (handleEcallKernel (enter k tr)) := by
      simp [irqHandler, cause, show irqEcallKernel ≠ irqTimer by decide]
    obtain rfl := Except.ok.inj (handler.symm.trans arm)
    have main : k.scheduler.threadCurrent = k.scheduler.kernelMain := by
      have mode := fits.kernelCall kernel
      rw [rest.supervisor] at mode
      exact of_decide_eq_true mode
    obtain ⟨e, ready', ring, turned, signals⟩ := main_turned inv rfl main
    refine ⟨e, ready', ?_, turned.trap ring⟩
    rw [if_neg timer, if_neg notUser]
    simpa only [kernel, true_and] using signals
  · obtain ⟨k₁, b', recs', rfl, handled, rest'⟩ := trap_rest rest fits taken
    obtain ⟨e, turned, signals⟩ := handled.turned rest.sendRoom
      (rest.places.rings.ring .ready trivial) nonzero timer kernel
    refine ⟨e, b'.queue .ready, ?_, turned.trap (rest'.places.rings.ring .ready trivial)⟩
    have a0 : (enter k tr).context (enter k tr).hart.sscratch regA0 = tr.regs regA0 :=
      enter_arg k tr (by decide) (by decide)
    have a1 : (enter k tr).context (enter k tr).hart.sscratch regA1 = tr.regs regA1 :=
      enter_arg k tr (by decide) (by decide)
    have cause : (enter k tr).hart.scause = tr.scause := rfl
    rw [a0, a1, cause] at signals
    rw [if_neg timer, if_neg fun main : _ ∧ _ => kernel main.1]
    exact signals

end

/-! ## Runs -/

/-- The scheduler of `k` is the server `s`; the threads `old` were pushed before it started. -/
structure Kernel.Serves (k : Kernel) (old : List Nat) (s : Server Nat) : Prop where
  running : s.running = k.scheduler.threadCurrent
  left : s.left = k.slice
  queue : IsRing k.links k.scheduler.readyThreads s.queue
  joined : k.hist.pushed = old ++ s.joined
  order : s.InOrder

section
variable {k k' : Kernel} {b : Threads} {recs old : List Nat} {s : Server Nat}

theorem Kernel.Serves.server (serves : k.Serves old s) :
    s = k.server s.queue s.joined s.served := by
  unfold Kernel.server
  rw [← serves.running, ← serves.left]

/-- A step of the scheduler is one of the server. -/
theorem Kernel.Serves.turned {ready ready' : List Nat} {e : Event Nat} (serves : k.Serves old s)
    (ring : IsRing k.links k.scheduler.readyThreads ready)
    (turned : Turned k k' ready ready' e)
    (ring' : IsRing k'.links k'.scheduler.readyThreads ready') :
    k'.Serves old (s.step k.scheduler.kernelMain defaultTimeSlice e) := by
  obtain ⟨new, pushed, turned⟩ := turned
  obtain ⟨served', turned⟩ := turned s.joined s.served
  rw [ring.unique serves.queue, ← serves.server] at turned
  have order : (s.step k.scheduler.kernelMain defaultTimeSlice e).InOrder :=
    Server.step_order serves.order e
  rw [turned] at order ⊢
  constructor
  · rfl
  · rfl
  · exact ring'
  · show _ = old ++ (s.joined ++ new)
    rw [pushed, serves.joined, List.append_assoc]
  · exact order

theorem Kernel.Serves.step {tr : Trap} (serves : k.Serves old s) (rest : k.Rest b recs)
    (fits : tr.Fits k) (taken : trap k tr = .ok k') : ∃ e, tr.Signals k e ∧
      k'.Serves old (s.step k.scheduler.kernelMain defaultTimeSlice e) := by
  obtain ⟨e, ready', signals, ring, turned⟩ := trap_turned rest fits taken
  exact ⟨e, signals, serves.turned (rest.places.rings.ring .ready trivial) turned ring⟩

theorem Kernel.Booted.serves {k₀ : Kernel} {p stackSpace : Nat}
    (booted : k₀.Booted k b p stackSpace) :
    k.Serves k₀.hist.pushed (k.server [p] [p] []) := by
  have ring := booted.rest.places.rings.ring .ready trivial
  rw [booted.queue, update_self] at ring
  constructor
  · rfl
  · rfl
  · exact ring
  · rw [booted.hist]
    rfl
  · rfl

end

/-- **Threads take turns.** In every run the scheduler is a round-robin server: threads get
the hart in the order in which they were pushed, and every trap is one of its events. -/
theorem kernel_round_robin {k₀ k : Kernel} (run : Run anyTrap k₀ k) :
    ∃ s, k.Serves k₀.hist.pushed s ∧ ∀ tr k', tr.Fits k → trap k tr = .ok k' →
      ∃ e, tr.Signals k e ∧
        k'.Serves k₀.hist.pushed (s.step k.scheduler.kernelMain defaultTimeSlice e) := by
  have serves : ∃ s, k.Serves k₀.hist.pushed s := by
    induction run with
    | boot platform booted =>
      obtain ⟨b, p, stackSpace, booted⟩ := boot_booted platform booted
      exact ⟨_, booted.serves⟩
    | trap run fits _ taken ih =>
      obtain ⟨b, recs, rest⟩ := run_rest run
      obtain ⟨s, serves⟩ := ih
      obtain ⟨e, -, serves'⟩ := serves.step rest fits taken
      exact ⟨_, serves'⟩
  obtain ⟨b, recs, rest⟩ := run_rest run
  obtain ⟨s, serves⟩ := serves
  exact ⟨s, serves, fun tr k' fits taken => serves.step rest fits taken⟩

theorem kernel_round_robin_small : ∃ k k' s e, boot smallKernel = .ok k ∧
    trap k (firstCall k) = .ok k' ∧ k.Serves [] s ∧ (firstCall k).Signals k e ∧
    k'.Serves [] (s.step k.scheduler.kernelMain defaultTimeSlice e) := by
  obtain ⟨k, k', booted, taken, fits, run, -⟩ := small_run anyTrap fun _ _ _ => trivial
  obtain ⟨s, serves, step⟩ := kernel_round_robin run
  obtain ⟨e, signals, serves'⟩ := step _ k' fits taken
  exact ⟨k, k', s, e, booted, taken, serves, signals, serves'⟩

/-! ## Waiting -/

/-- The traps from `k` to `k'`, `n` of them timer interrupts, do not give the hart to the
thread `t`. -/
inductive Kernel.Unserved (t : Nat) (k : Kernel) : Nat → Kernel → Prop where
  | start : k.Unserved t 0 k
  | trap {n k' tr k''} (before : k.Unserved t n k') (fits : tr.Fits k')
      (taken : trap k' tr = .ok k'') (other : k''.scheduler.threadCurrent ≠ t) :
      k.Unserved t (n + if tr.scause = irqTimer then 1 else 0) k''

section
variable {k k' : Kernel} {b : Threads} {recs : List Nat}

theorem Trap.Signals.ticks {tr : Trap} {e : Event Nat} (signals : tr.Signals k e) :
    e.ticks = if tr.scause = irqTimer then 1 else 0 := by
  unfold Trap.Signals at signals
  split at signals
  · next timer =>
    obtain ⟨new, rfl⟩ := signals
    exact (if_pos timer).symm
  · next notTimer =>
    rw [if_neg notTimer]
    split at signals
    · cases e with
      | tick => exact signals.elim
      | _ => rfl
    · split at signals
      · rw [signals]
        rfl
      · obtain ⟨new, rfl⟩ := signals
        rfl

theorem Kernel.Inv.apart (inv : k.Inv b recs) (joined served : List Nat) :
    (k.server (b.queue .ready) joined served).Placed :=
  List.nodup_cons.mpr ⟨fun queued => inv.notRunning queued rfl, b.nodup .ready⟩

theorem trap_waits {tr : Trap} {joined served : List Nat} {t ahead budget : Nat}
    (rest : k.Rest b recs) (fits : tr.Fits k) (taken : trap k tr = .ok k')
    (waits : (k.server (b.queue .ready) joined served).Waits defaultTimeSlice t ahead budget)
    (other : k'.scheduler.threadCurrent ≠ t) :
    ∃ b' recs' joined' served' ahead' budget', k'.Rest b' recs' ∧ ahead' ≤ ahead ∧
      budget' + (if tr.scause = irqTimer then 1 else 0) = budget ∧
      (k'.server (b'.queue .ready) joined' served').Waits defaultTimeSlice t ahead' budget' := by
  obtain ⟨e, ready', signals, ring, new, -, turned⟩ := trap_turned rest fits taken
  obtain ⟨k₁, b', recs', -, -, rest'⟩ := trap_rest rest fits taken
  obtain ⟨served', turned⟩ := turned joined served
  rw [ring.unique (rest'.places.rings.ring .ready trivial)] at turned
  have admits := Server.admits_of_step (rest.inv.apart joined served)
    (turned ▸ rest'.inv.apart (joined ++ new) served')
  have other' : ((k.server (b.queue .ready) joined served).step k.scheduler.kernelMain
      defaultTimeSlice e).running ≠ t := by
    rw [turned]
    exact other
  obtain ⟨ahead', budget', closer, spent, waits'⟩ :=
    Server.step_waits waits (by decide) admits other'
  rw [turned] at waits'
  exact ⟨b', recs', _, served', ahead', budget', rest', closer, signals.ticks ▸ spent, waits'⟩

theorem unserved_waits {joined served : List Nat} {t ahead budget n : Nat}
    (rest : k.Rest b recs)
    (waits : (k.server (b.queue .ready) joined served).Waits defaultTimeSlice t ahead budget)
    (unserved : k.Unserved t n k') :
    ∃ b' recs' joined' served' ahead' budget', k'.Rest b' recs' ∧ ahead' ≤ ahead ∧
      budget' + n = budget ∧
      (k'.server (b'.queue .ready) joined' served').Waits defaultTimeSlice t ahead' budget' := by
  induction unserved with
  | start => exact ⟨b, recs, joined, served, ahead, budget, rest, Nat.le_refl ahead, rfl, waits⟩
  | trap _ fits taken other ih =>
    obtain ⟨b₁, recs₁, joined₁, served₁, ahead₁, budget₁, rest₁, closer₁, spent₁, waits₁⟩ := ih
    obtain ⟨b', recs', joined', served', ahead', budget', rest', closer, spent, waits'⟩ :=
      trap_waits rest₁ fits taken waits₁ other
    exact ⟨b', recs', joined', served', ahead', budget', rest', closer.trans closer₁,
      by omega, waits'⟩

/-- A ready thread waits for the threads before it and for the one that runs. -/
theorem Kernel.Rest.waits (rest : k.Rest b recs) (full : k.Full b) {t i : Nat}
    (queued : (b.queue .ready)[i]? = some t) : (k.server (b.queue .ready) [] []).Waits
      defaultTimeSlice t i (defaultTimeSlice * i + k.slice k.scheduler.threadCurrent) := by
  obtain ⟨inside, here⟩ := List.getElem?_eq_some_iff.mp queued
  constructor
  · refine ⟨(b.queue .ready).take i, (b.queue .ready).drop (i + 1), ?_, ?_⟩
    · show b.queue .ready = _
      rw [← here, ← List.drop_eq_getElem_cons inside, List.take_append_drop]
    · exact List.length_take_of_le (Nat.le_of_lt inside)
  · exact full
  · exact rest.inv.apart [] []
  · exact (rest.inv.slice_range rest.current_thread).1
  · exact Nat.le_refl _

end

/-- **Nobody starves.** While the thread at place `i` of the ready queue waits for the
hart, in any run, it only moves forward, and fewer timer interrupts come than those of the
running thread's slice and of `i` whole slices. -/
theorem no_starvation {k₀ k k' : Kernel} {ready : List Nat} {i t n : Nat} (run : Run anyTrap k₀ k)
    (ring : IsRing k.links k.scheduler.readyThreads ready) (queued : ready[i]? = some t)
    (unserved : k.Unserved t n k') :
    n < defaultTimeSlice * i + k.slice k.scheduler.threadCurrent ∧
      ∃ ready' j, IsRing k'.links k'.scheduler.readyThreads ready' ∧ ready'[j]? = some t ∧ j ≤ i ∧
        n + (defaultTimeSlice * j + k'.slice k'.scheduler.threadCurrent) ≤
          defaultTimeSlice * i + k.slice k.scheduler.threadCurrent := by
  obtain ⟨b, recs, rest, full⟩ := run_full run
  rw [ring.unique (rest.places.rings.ring .ready trivial)] at queued
  obtain ⟨b', recs', joined', served', j, budget, rest', closer, spent, waits⟩ :=
    unserved_waits rest (rest.waits full queued) unserved
  obtain ⟨front, back, place, length⟩ := waits.place
  have pos := waits.pos
  have within := waits.within
  refine ⟨by omega, b'.queue .ready, j, rest'.places.rings.ring .ready trivial, ?_, closer, ?_⟩
  · have place : b'.queue .ready = front ++ t :: back := place
    rw [place, ← length, List.getElem?_append_right (Nat.le_refl _), Nat.sub_self]
    rfl
  · have within : defaultTimeSlice * j + k'.slice k'.scheduler.threadCurrent ≤ budget := within
    omega

/-- A thread that gives up the hart waits while the timer ticks. -/
theorem no_starvation_small : ∃ k k' p, Run anyTrap roomyKernel k ∧
    IsRing k.links k.scheduler.readyThreads [p] ∧ trap k (timerTrap k) = .ok k' ∧
    k.Unserved p 1 k' ∧ 1 < defaultTimeSlice * 0 + k.slice k.scheduler.threadCurrent := by
  obtain ⟨k, b, p, q, run, rest, other, current, ring, whole⟩ := whole_slice
  obtain ⟨k', taken, still⟩ := timerTrap_spends rest whole
  have unserved : k.Unserved p (0 + if (timerTrap k).scause = irqTimer then 1 else 0) k' :=
    .trap .start (timerTrap_fits k) taken (still.trans current ▸ other)
  exact ⟨k, k', p, run, ring, taken, unserved, (no_starvation run (i := 0) ring rfl unserved).1⟩

end RiscvKernel
