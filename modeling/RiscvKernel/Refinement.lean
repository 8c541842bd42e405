import RiscvKernel.Input
import RiscvKernel.Actions

/-!
# The kernel is a multitasking system

* `Trap.Means`: which action a trap is;
* `trap_refines`: every trap does its action;
* `kernel_refines`: every run of the kernel is a run of the abstract system;
* `semaphore_latency`: how many signals a thread waits for.
-/

namespace RiscvKernel
open Function Intrusive Placement Console Counting RoundRobin DeltaList Multitasking

/-- What the rings, the lists and the counters of the kernel show; the threads `old` were
pushed before it started. -/
structure Kernel.Implements (k : Kernel) (old : List Nat) (σ : System Nat Nat UInt8) : Prop where
  running : σ.running = k.scheduler.threadCurrent
  slices : σ.server.left = k.slice
  ready : IsRing k.links k.scheduler.readyThreads σ.server.queue
  pushed : k.hist.pushed = old ++ σ.server.joined
  readers : IsRing k.links k.threadsWaitingForInput σ.readers
  sems : ∀ s ∈ σ.opened, (σ.sem s).val = (k.sem s).val ∧
    IsRing k.links (k.sem s).waitingThreads (σ.sem s).queue
  alarms : ∃ recs, IsRing k.sleepLinks k.scheduler.sleepingThreads recs ∧
    σ.alarms = k.alarms recs
  live : σ.live = k.hist.live
  count : k.scheduler.userThreadCount = σ.live.card
  opened : σ.opened = k.hist.opened
  typed : σ.typed = k.console.unread
  printed : σ.printed = k.output

/-- The action that a trap from `k` to `k'` is. -/
inductive Trap.Means (tr : Trap) (k k' : Kernel) : Action Nat Nat UInt8 → Prop where
  | tick (woken : List Nat) (cause : tr.scause = irqTimer) : tr.Means k k' (.tick woken)
  | input (cs : List UInt8) (cause : tr.scause = irqHw)
      (received : k'.console.received = k.console.received ++ cs) : tr.Means k k' (.input cs)
  | asks {a} (cause : tr.scause = irqEcallUser)
      (asks : Asks k.console (tr.regs regA0) (tr.regs regA1) (tr.regs regA2) a) : tr.Means k k' a
  | leave (cause : tr.scause = irqEcallKernel) (call : tr.regs regA0 = syscallKernelDispatch) :
      tr.Means k k' .leave
  | nothing (other : tr.scause ∉ [irqTimer, irqHw, irqEcallUser])
      (main : tr.scause = irqEcallKernel → tr.regs regA0 ≠ syscallKernelDispatch) :
      tr.Means k k' .nothing

/-! ## Traps -/

/-- The trap `tr` does the action `a`. -/
structure Trap.Does (tr : Trap) (k k' : Kernel) (b b' : Threads) (recs recs' : List Nat)
    (s : Server Nat) (a : Action Nat Nat UInt8) : Prop where
  means : tr.Means k k' a
  enabled : (k.system b recs s).Enabled a
  change : k'.system b' recs' s = (k.system b recs s).change a
  turned : Turned k k' (b.queue .ready) (b'.queue .ready) ((k.system b recs s).turn a)

/-- What every trap keeps. -/
structure Kernel.Good (k : Kernel) (b : Threads) (recs : List Nat) : Prop where
  rest : k.Rest b recs
  input : k.InputInv b
  accounted : ∀ s ∈ k.hist.opened, k.Accounted b s

section
variable {k k' k₁ : Kernel} {b b' : Threads} {recs recs' gone left : List Nat} {s : Server Nat}
  {tr : Trap}

/-- The tick wakes the threads whose time is up. -/
theorem Kernel.Ticked.due (ticked : k.Ticked k₁ recs gone left) :
    ((gone.map fun r => (k.sleeping r).thread : List Nat) : Multiset Nat) =
      (k.system b recs s).due := by
  have up : (closer (k.alarms recs)).filter (·.2 = 0) =
      closer ((k.alarms recs).filter (·.2 ≤ 1)) :=
    filter_closer (· = 0) (· ≤ 1) (fun d => by omega) _
  have woken : _ = ((closer (k.alarms recs)).filter (·.2 = 0)).map Prod.fst := ticked.woken
  rw [woken, up]
  simp only [System.due, Kernel.system, Multiset.filter_coe, Multiset.map_coe, closer,
    List.map_map]
  rfl

/-- The other alarms come closer. -/
theorem Kernel.Ticked.later (ticked : k.Ticked k₁ recs gone left) :
    (k₁.alarms left : Multiset (Nat × Nat)) = (k.system b recs s).later := by
  have kept : (closer (k.alarms recs)).filter (·.2 ≠ 0) =
      closer ((k.alarms recs).filter (1 < ·.2)) :=
    filter_closer (· ≠ 0) (1 < ·) (fun d => by omega) _
  have times : k₁.alarms left = (closer (k.alarms recs)).filter (·.2 ≠ 0) := ticked.times
  rw [times, kept]
  simp only [System.later, Kernel.system, Multiset.filter_coe, Multiset.map_coe, closer]

/-- What a tick leaves. -/
theorem Kernel.Ticked.system {new : List Nat} (ticked : k.Ticked k₁ recs gone left)
    (sems : k₁.SameSems k') (console : k₁.SameConsole k') (live : k'.hist.live = k₁.hist.live)
    (alarms : k'.alarms left = k₁.alarms left) (queue : b'.queue = update b.queue .ready new)
    (woken : List Nat) : k'.system b' left s = (k.system b recs s).change (.tick woken) := by
  have live₁ : k₁.hist.live = k.hist.live := (ticked_threads ticked).2.1
  have quiet := @system_quiet k k' b b' recs left s ((ticked_sameSems ticked).trans sems)
    (fun x => by simp [queue]) ((ticked_sameConsole ticked).trans console) (by simp [queue])
  rw [live, live₁, alarms, @Kernel.Ticked.later k k₁ b recs gone left s ticked] at quiet
  exact quiet

/-- What the timer leaves. -/
theorem Handled.tick (handled : Handled k b recs k' b' recs') (timer : k.hart.scause = irqTimer)
    (woken : List Nat) : k'.system b' recs' s = (k.system b recs s).change (.tick woken) := by
  have user : irqEcallUser ≠ irqTimer := by decide
  have kernel : irqEcallKernel ≠ irqTimer := by decide
  have hw : irqHw ≠ irqTimer := by decide
  cases handled with
  | ignored _ _ notTimer => exact absurd timer notTimer
  | console cause => exact absurd (cause.symm.trans timer) hw
  | @ticked k₁ _ _ _ _ ticked queue =>
    exact ticked.system (.of_hist rfl rfl) (.of_hist rfl rfl) rfl rfl queue woken
  | @preempted k₁ _ _ _ _ ticked queue =>
    have live : (dispatch k₁).hist.live = k₁.hist.live := by
      rw [dispatch_eq, switch_hist]
      rfl
    exact ticked.system (dispatch_sameSems k₁) (dispatch_sameConsole k₁) live
      (dispatch_alarms k₁) queue woken
  | called cause => exact absurd (cause.symm.trans timer) user
  | mainIgnored cause => exact absurd (cause.symm.trans timer) kernel
  | mainDispatched cause => exact absurd (cause.symm.trans timer) kernel

/-- The arrival of input. -/
theorem Handled.hears (handled : Handled (enter k tr) b recs k₁ b' recs') (rest : k.Rest b recs)
    (input : k.InputInv b) (hw : tr.scause = irqHw) : ∃ cs,
    (leave k₁).console.received = k.console.received ++ cs ∧
      (leave k₁).system b' recs' s = (k.system b recs s).change (.input cs) ∧
      b'.queue .ready =
        b.queue .ready ++ (b.queue .input).take (k.console.unread ++ cs).length := by
  have printed : (leave k₁).output = k.output ++ [] :=
    (handled.noOutput rest.sendRoom fun user => absurd (hw.symm.trans user) (by decide)).order
  rw [List.append_nil] at printed
  cases handled with
  | ignored =>
    have spare : b.queue .input = [] ∨ k.console.unread ++ [] = [] := by
      by_cases none : b.queue .input = []
      · exact Or.inl none
      · apply Or.inr
        unfold Console.unread
        rw [input.empty none]
        rfl
    have readers : b.queue .input = [] ++ b.queue .input := rfl
    have unread : k.console.unread ++ [] = [] ++ (k.console.unread ++ []) := rfl
    obtain ⟨woken, waiting, typed⟩ := split_input readers unread rfl spare
    refine ⟨[], (List.append_nil _).symm, ?_, ?_⟩
    · have change : (k.system b recs s).change (.input []) = { k.system b recs s with
          readers := (b.queue .input).drop (k.console.unread ++ []).length
          typed := (k.console.unread ++ []).drop (b.queue .input).length } := rfl
      rw [change, waiting, typed, List.append_nil]
      rfl
    · rw [woken, List.append_nil]
  | @console ws left cs bytes b' _ waiting empty delivered queue =>
    obtain ⟨chars, sent⟩ := send_spec (consoleReceive (enter k tr)).console
    have frame := delivered.frame
    have typed : (leave (consoleSend (consoleReceive (enter k tr)))).console.unread =
        (consoleReceive (enter k tr)).console.unread := sent.input.unread
    have spare : left = [] ∨ (consoleReceive (enter k tr)).console.unread = [] := by
      by_cases none : left = []
      · exact Or.inl none
      · apply Or.inr
        unfold Console.unread
        rw [empty none]
        rfl
    obtain ⟨woken, waiting', typed'⟩ := split_input waiting delivered.unread delivered.length spare
    have same : k.SameSems (consoleReceive (enter k tr)) := by
      rw [frame]
      exact ⟨rfl, rfl, rfl, rfl, rfl⟩
    have sems : k.SameSems (leave (consoleSend (consoleReceive (enter k tr)))) :=
      ⟨same.sem, same.opened, same.waits, same.signals, same.blocked⟩
    have live : (leave (consoleSend (consoleReceive (enter k tr)))).hist.live = k.hist.live := by
      show (consoleReceive (enter k tr)).hist.live = _
      rw [frame]
      rfl
    have alarms : (leave (consoleSend (consoleReceive (enter k tr)))).alarms recs =
        k.alarms recs := by
      apply same_alarms
      show (consoleReceive (enter k tr)).sleeping = _
      rw [frame]
      rfl
    have hears := @system_console k _ b b' recs recs s sems (fun x => by simp [queue]) live alarms
    refine ⟨cs, ?_, hears.trans ?_, ?_⟩
    · exact sent.input.received.trans delivered.received
    · have change : (k.system b recs s).change (.input cs) = { k.system b recs s with
          readers := (b.queue .input).drop (k.console.unread ++ cs).length
          typed := (k.console.unread ++ cs).drop (b.queue .input).length } := rfl
      have waiting'' : (b.queue .input).drop (k.console.unread ++ cs).length = left := waiting'
      have typed'' : (k.console.unread ++ cs).drop (b.queue .input).length =
          (consoleReceive (enter k tr)).console.unread := typed'
      have input : b'.queue .input = left := by simp [queue]
      rw [change, waiting'', typed'', input, typed, printed]
      rfl
    · have woken' : (b.queue .input).take (k.console.unread ++ cs).length = ws := woken
      rw [queue, update_self, woken']
  | ticked cause => exact absurd (hw.symm.trans cause) (by decide)
  | preempted cause => exact absurd (hw.symm.trans cause) (by decide)
  | called cause => exact absurd (hw.symm.trans cause) (by decide)
  | mainIgnored cause => exact absurd (hw.symm.trans cause) (by decide)
  | mainDispatched cause => exact absurd (hw.symm.trans cause) (by decide)

theorem timer_does (rest : k.Rest b recs) (timer : tr.scause = irqTimer)
    (handled : Handled (enter k tr) b recs k₁ b' recs') (rest' : (leave k₁).Rest b' recs')
    (taken : trap k tr = .ok (leave k₁)) :
    ∃ a, tr.Does k (leave k₁) b b' recs recs' s a := by
  obtain ⟨k₂, handler, same⟩ := trap_handler taken
  have arm : irqHandler tr.plic (enter k tr) = handleTimer (enter k tr) := if_pos timer
  obtain ⟨k₃, gone, left, ready', ticked, ring, turned⟩ :=
    timer_turned (enter_inv rest.inv tr) (arm.symm.trans handler)
  obtain ⟨ring, turned⟩ := turned.trap ring
  rw [← same] at ring turned
  rw [ring.unique (rest'.places.rings.ring .ready trivial)] at turned
  refine ⟨.tick (gone.map fun r => (k.sleeping r).thread), .tick _ timer, ?_, ?_, turned⟩
  · exact @Kernel.Ticked.due (enter k tr) k₃ b recs gone left s ticked
  · exact handled.tick timer _

/-- A switch does nothing but to the processor. -/
theorem switch_system (queue : ∀ i ≠ .ready, b'.queue i = b.queue i) :
    (leave (switch k)).system b' recs s = k.system b recs s := by
  have sems := switch_sameSems k
  have console := switch_sameConsole k
  have quiet := @system_quiet k (leave (switch k)) b b' recs recs s
    ⟨sems.sem, sems.opened, sems.waits, sems.signals, sems.blocked⟩
    (fun x => queue _ QueueId.noConfusion)
    ⟨console.console, console.handed, console.inputBlocked, console.served, console.accepted⟩
    (queue _ QueueId.noConfusion)
  have live : (leave (switch k)).hist.live = k.hist.live := by
    show (switch k).hist.live = _
    rw [switch_hist]
  have alarms : (leave (switch k)).alarms recs = k.alarms recs := switch_alarms k
  rw [alarms, live] at quiet
  exact quiet

theorem main_does (rest : k.Rest b recs) (fits : tr.Fits k) (kernel : tr.scause = irqEcallKernel)
    (handled : Handled (enter k tr) b recs k₁ b' recs') (rest' : (leave k₁).Rest b' recs')
    (taken : trap k tr = .ok (leave k₁)) :
    ∃ a, tr.Does k (leave k₁) b b' recs recs' s a := by
  have inv := enter_inv rest.inv tr
  have main : k.scheduler.threadCurrent = k.scheduler.kernelMain := by
    have mode := fits.kernelCall kernel
    rw [rest.supervisor] at mode
    exact of_decide_eq_true mode
  have arm : irqHandler tr.plic (enter k tr) = .ok (handleEcallKernel (enter k tr)) := by
    have cause : (enter k tr).hart.scause = irqEcallKernel := kernel
    simp [irqHandler, cause, show irqEcallKernel ≠ irqTimer by decide]
  have code : (enter k tr).context (enter k tr).hart.sscratch regA0 = tr.regs regA0 :=
    enter_arg k tr (by decide) (by decide)
  obtain ⟨k₂, handler, same⟩ := trap_handler taken
  obtain rfl := Except.ok.inj (handler.symm.trans arm)
  have recs_eq : recs' = recs := by
    have notTimer : irqEcallKernel ≠ irqTimer := by decide
    have notUser : irqEcallKernel ≠ irqEcallUser := by decide
    cases handled with
    | ticked cause => exact absurd (kernel.symm.trans cause) notTimer
    | preempted cause => exact absurd (kernel.symm.trans cause) notTimer
    | called cause => exact absurd (kernel.symm.trans cause) notUser
    | _ => rfl
  rw [same] at rest' ⊢
  subst recs_eq
  by_cases call : tr.regs regA0 = syscallKernelDispatch
  · rw [handleEcallKernel_dispatch _ (code.trans call)] at rest' ⊢
    obtain ⟨b₁, inv₁, queue⟩ :=
      mainDispatch_inv (k := bumpSepc (enter k tr) 4) (inv.congr rfl rfl) main
    rw [rest'.inv.queues_eq inv₁.queues.leave] at queue
    refine ⟨.leave, .leave kernel call, trivial, ?_, ?_⟩
    · exact switch_system (k := bumpSepc (enter k tr) 4) (fun i other => by simp [queue, other])
    · have tail : b'.queue .ready = (b.queue .ready).tail := by simp [queue]
      have hands := switch_hands (k := bumpSepc (enter k tr) 4)
        (inv.places.rings.ring .ready trivial)
      exact turned_leave (k := k) (switch_slice (bumpSepc (enter k tr) 4))
        (switch_pushed (bumpSepc (enter k tr) 4)) (tail ▸ hands)
  · have skip : handleEcallKernel (enter k tr) = bumpSepc (enter k tr) 4 := if_neg (code ▸ call)
    rw [skip] at rest' ⊢
    have queue : b.queue = b'.queue :=
      rest'.inv.queues_eq (q := b.queue) ⟨rest.inv.queues.ring, rest.inv.queues.idle⟩
    refine ⟨.nothing, .nothing (kernel ▸ by decide) fun _ => call, trivial, ?_, ?_⟩
    · have same : (leave (bumpSepc (enter k tr) 4)).system b' recs' s = k.system b' recs' s := rfl
      rw [same]
      unfold Kernel.system
      rw [queue]
      rfl
    · exact turned_same (k := k) rfl rfl (by rw [queue]) rfl

/-- **Traps.** -/
theorem trap_does (good : k.Good b recs) (fits : tr.Fits k) (within : ∀ x, WithinI32 x k tr)
    (running : s.running = k.scheduler.threadCurrent)
    (handled : Handled (enter k tr) b recs k₁ b' recs') (rest' : (leave k₁).Rest b' recs')
    (taken : trap k tr = .ok (leave k₁)) :
    ∃ a, tr.Does k (leave k₁) b b' recs recs' s a := by
  have rest := good.rest
  by_cases timer : tr.scause = irqTimer
  · exact timer_does rest timer handled rest' taken
  by_cases kernel : tr.scause = irqEcallKernel
  · exact main_does rest fits kernel handled rest' taken
  obtain ⟨e, ready', signals, ring, turned⟩ := trap_turned rest fits taken
  rw [ring.unique (rest'.places.rings.ring .ready trivial)] at turned
  unfold Trap.Signals at signals
  rw [if_neg timer] at signals
  by_cases user : tr.scause = irqEcallUser
  · rw [if_pos user] at signals
    have called := handled.call ⟨user, rfl⟩
    have request := fits.request user
    have range : ∀ x ∈ k.hist.opened, -2 ^ 31 ≤ (k.sem x).val ∧ (k.sem x).val < 2 ^ 31 :=
      fun x opened => (good.accounted x opened).range
    obtain ⟨a, does⟩ := called.does (s := s) ((enter_inv rest.inv tr).congr rfl rfl) rest.sendRoom
      (rest.user (fits.userCall user)) running called_arg
      (enter_arg k tr (i := regA2) (by decide) (by decide)) request.sem
      (fun wait => by
        have opened := request.sem (by simp [wait])
        have low := (within _).wait ⟨user, wait⟩ rfl
        have := range _ opened
        exact toI32_eq (x := (k.sem (tr.regs regA1)).val - 1) (by omega) (by omega))
      (fun signal => by
        have opened := request.sem (by simp [signal])
        have high := (within _).signal ⟨user, signal⟩ rfl
        have := range _ opened
        exact toI32_eq (x := (k.sem (tr.regs regA1)).val + 1) (by omega) (by omega))
    obtain rfl := does.event signals turned
    exact ⟨a, .asks user does.asks, does.enabled, does.change, turned⟩
  rw [if_neg user, if_neg fun main : _ ∧ _ => kernel main.1] at signals
  obtain ⟨new, rfl⟩ := signals
  by_cases hw : tr.scause = irqHw
  · obtain ⟨cs, received, change, queue⟩ := handled.hears (s := s) rest good.input hw
    rw [queue] at turned
    obtain rfl := turned.join_eq
    rw [← queue] at turned
    exact ⟨.input cs, .input cs hw received, trivial, change, turned⟩
  · cases handled with
    | ignored =>
      refine ⟨.nothing, .nothing (by simp [timer, hw, user]) fun main => absurd main kernel,
        trivial, rfl, ?_⟩
      exact turned_same (k := k) rfl rfl rfl rfl
    | console cause => exact absurd cause hw
    | ticked cause => exact absurd cause timer
    | preempted cause => exact absurd cause timer
    | called cause => exact absurd cause user
    | mainIgnored cause => exact absurd cause kernel
    | mainDispatched cause => exact absurd cause kernel

end

/-! ## Runs -/

/-- The kernel is at the system `σ`. -/
def Kernel.Embodies (k : Kernel) (old : List Nat) (σ : System Nat Nat UInt8) : Prop :=
  ∃ b recs s, k.Good b recs ∧ k.Serves old s ∧ σ = k.system b recs s

section
variable {k k' : Kernel} {b : Threads} {recs old : List Nat} {σ : System Nat Nat UInt8} {tr : Trap}

/-- **Refinement.** Every trap is an action. -/
theorem trap_refines (here : k.Embodies old σ) (fits : tr.Fits k) (within : ∀ x, WithinI32 x k tr)
    (taken : trap k tr = .ok k') : k'.scheduler.kernelMain = k.scheduler.kernelMain ∧
    ∃ a, tr.Means k k' a ∧ σ.Enabled a ∧
      k'.Embodies old (σ.step k.scheduler.kernelMain defaultTimeSlice a) := by
  obtain ⟨b, recs, s, good, serves, rfl⟩ := here
  obtain ⟨k₁, b', recs', rfl, handled, rest'⟩ := trap_rest good.rest fits taken
  obtain ⟨a, does⟩ := trap_does good fits within serves.running handled rest' taken
  have serves' := serves.turned (good.rest.places.rings.ring .ready trivial) does.turned
    (rest'.places.rings.ring .ready trivial)
  refine ⟨handled.main, a, does.means, does.enabled, b', recs', _, ⟨rest', ?_, ?_⟩, serves', ?_⟩
  · exact handled.inputInv good.rest good.input
  · exact fun x => (handled.sem good.rest.inv x).accounted (within x) (good.accounted x)
  · unfold System.step
    rw [← does.change]
    rfl

theorem Kernel.Embodies.implements (here : k.Embodies old σ) : k.Implements old σ := by
  obtain ⟨b, recs, s, good, serves, rfl⟩ := here
  have rings := good.rest.places.rings
  constructor
  · exact serves.running
  · exact serves.left
  · exact serves.queue
  · exact serves.joined
  · exact rings.ring .input trivial
  · exact fun x opened => ⟨rfl, rings.ring (.sem x) opened⟩
  · exact ⟨recs, good.rest.places.sleepers, rfl⟩
  · rfl
  · exact good.rest.places.count
  · rfl
  · rfl
  · rfl

theorem Kernel.Booted.embodies {k₀ : Kernel} {p stackSpace : Nat}
    (booted : k₀.Booted k b p stackSpace)
    (platform : k₀.Platform) : ∃ σ, k.Embodies k₀.hist.pushed σ ∧
      σ.Initial k.scheduler.kernelMain defaultTimeSlice := by
  have noSems : k.hist.opened = [] := by
    rw [booted.hist]
    exact platform.noSems
  refine ⟨_, ⟨b, [], _, ⟨booted.rest, booted.inputInv platform, ?_⟩, booted.serves, rfl⟩, ?_⟩
  · intro x opened
    rw [noSems] at opened
    exact absurd opened List.not_mem_nil
  · constructor
    · exact booted.main
    · refine ⟨p, booted.notMain, rfl, booted.slice, ?_⟩
      show (k.hist.live : Multiset Nat) = _
      rw [booted.hist]
      rfl
    · rfl
    · show (k.hist.opened : Multiset Nat) = 0
      rw [noSems]
      rfl
    · intro x
      show b.queue (.sem x) = []
      simp [booted.queue]
    · rfl
    · show b.queue .input = []
      simp [booted.queue]
    · show k.console.unread = []
      rw [booted.console]
      rfl
    · show k.output = []
      unfold Kernel.output
      rw [booted.console]
      simp [Console.unsent, platform.noOutput.1]

end

/-- The waits and signals of a trap keep every semaphore within an `i32`. -/
def withinI32 (k : Kernel) (tr : Trap) : Prop := ∀ s, WithinI32 s k tr

/-- The traps `trs` lead from `k` to a kernel. -/
inductive Kernel.Took (k : Kernel) : List Trap → Kernel → Prop where
  | start : k.Took [] k
  | trap {trs k' tr k''} (before : k.Took trs k') (fits : tr.Fits k') (within : withinI32 k' tr)
      (taken : trap k' tr = .ok k'') : k.Took (trs ++ [tr]) k''

/-- The traps `trs` lead from `k` to a kernel, and each of the actions `as` is what its trap
means. -/
inductive Kernel.Acts (k : Kernel) : List Trap → List (Action Nat Nat UInt8) → Kernel → Prop where
  | start : k.Acts [] [] k
  | trap {trs as k' tr k'' a} (before : k.Acts trs as k') (taken : trap k' tr = .ok k'')
      (means : tr.Means k' k'' a) : k.Acts (trs ++ [tr]) (as ++ [a]) k''

theorem Kernel.Took.acts {k k' : Kernel} {old : List Nat} {σ : System Nat Nat UInt8}
    {trs : List Trap} (takes : k.Took trs k') (here : k.Embodies old σ) : ∃ as σ',
      k.Acts trs as k' ∧ System.Run k'.scheduler.kernelMain defaultTimeSlice σ as σ' ∧
      k'.Embodies old σ' := by
  induction takes with
  | start => exact ⟨[], σ, .start, .start, here⟩
  | trap _ fits within taken ih =>
    obtain ⟨as, σ', acts, run, here'⟩ := ih
    obtain ⟨main, a, means, enabled, here''⟩ := trap_refines here' fits within taken
    rw [main]
    exact ⟨as ++ [a], _, acts.trap taken means, run.next enabled, here''⟩

/-- Every run takes some traps. -/
theorem run_takes {k₀ k : Kernel} (run : Run withinI32 k₀ k) :
    ∃ k₁ trs, k₀.Platform ∧ boot k₀ = .ok k₁ ∧ k₁.Took trs k := by
  induction run with
  | @boot k platform booted => exact ⟨k, [], platform, booted, .start⟩
  | trap _ fits within taken ih =>
    obtain ⟨k₁, trs, platform, booted, takes⟩ := ih
    exact ⟨k₁, _, platform, booted, takes.trap fits within taken⟩

theorem takes_embodies {k₀ k₁ k : Kernel} {trs : List Trap} (platform : k₀.Platform)
    (booted : boot k₀ = .ok k₁) (takes : k₁.Took trs k) : ∃ σ₀ as σ,
      k₁.Acts trs as k ∧ σ₀.Initial k.scheduler.kernelMain defaultTimeSlice ∧
      k₁.Embodies k₀.hist.pushed σ₀ ∧
      System.Run k.scheduler.kernelMain defaultTimeSlice σ₀ as σ ∧
      k.Embodies k₀.hist.pushed σ := by
  obtain ⟨b, p, stackSpace, first⟩ := boot_booted platform booted
  obtain ⟨σ₀, here, initial⟩ := first.embodies platform
  obtain ⟨as, σ, acts, run, here'⟩ := takes.acts here
  have main : k.scheduler.kernelMain = k₁.scheduler.kernelMain := by
    clear acts run here' initial
    induction takes with
    | start => rfl
    | trap before fits within taken ih =>
      obtain ⟨-, σ', -, -, here'⟩ := before.acts here
      exact (trap_refines here' fits within taken).1.trans ih
  exact ⟨σ₀, as, σ, acts, main ▸ initial, here, run, here'⟩

/-- **The kernel is a multitasking system.** In every run that keeps the semaphores within an
`i32`, each of its traps is one action of the abstract system, and the kernel shows what these
actions lead to. -/
theorem kernel_refines {k₀ k₁ k : Kernel} {trs : List Trap} (platform : k₀.Platform)
    (booted : boot k₀ = .ok k₁) (takes : k₁.Took trs k) : ∃ σ₀ as σ, k₁.Acts trs as k ∧
      σ₀.Initial k.scheduler.kernelMain defaultTimeSlice ∧ k₁.Implements k₀.hist.pushed σ₀ ∧
      System.Run k.scheduler.kernelMain defaultTimeSlice σ₀ as σ ∧
      k.Implements k₀.hist.pushed σ := by
  obtain ⟨σ₀, as, σ, acts, initial, first, run, here⟩ := takes_embodies platform booted takes
  exact ⟨σ₀, as, σ, acts, initial, first.implements, run, here.implements⟩

theorem setup_within {k : Kernel} {tr : Trap} (setup : setupTrap k tr) : withinI32 k tr :=
  fun _ => ⟨fun call => absurd (setup call.1) (by rw [call.2]; decide),
    fun call => absurd (setup call.1) (by rw [call.2]; decide)⟩

/-- The first user thread opens a semaphore, waits for it and signals it. -/
theorem kernel_refines_small : ∃ k₁ k trs s σ₀ as σ, boot smallKernel = .ok k₁ ∧
    k₁.Took trs k ∧ (∃ tr tr' before, trs = before ++ [tr, tr'] ∧
      tr.Calls syscallSemWait ∧ tr.regs regA1 = s ∧ tr'.Calls syscallSemSignal ∧
      tr'.regs regA1 = s) ∧ k₁.Acts trs as k ∧ k₁.Implements [] σ₀ ∧
    System.Run k.scheduler.kernelMain defaultTimeSlice σ₀ as σ ∧ k.Implements [] σ := by
  obtain ⟨k, b, p, s, user, opened, val, -, -, -, -, run⟩ := small_opens setupTrap
    (fun _ user => absurd user (show irqEcallKernel ≠ irqEcallUser by decide)) 1 (by decide)
    fun _ _ _ _ => rfl
  have one : toI32 (1 % 2 ^ 32 : Nat) = 1 := by decide
  rw [one] at val
  have mem : s ∈ k.hist.opened := by simp [opened]
  obtain ⟨k₁, trs, platform, booted, takes⟩ := run_takes (run.mono fun _ _ => setup_within)
  have within : ∀ {k code}, -2 ^ 31 < (k.sem s).val → (k.sem s).val < 2 ^ 31 - 1 →
      withinI32 k (userCall k code s 0) := fun low high x =>
    ⟨fun _ (arg : s = x) => arg ▸ low, fun _ (arg : s = x) => arg ▸ high⟩
  obtain ⟨k₂, fits, taken, user₂, opened₂, sem₂⟩ := user.waits mem (by omega) (by omega)
  have val₂ : (k₂.sem s).val = 0 := by
    rw [sem₂, update_self, val]
    rfl
  obtain ⟨k₃, fits₂, taken₂, -⟩ := user₂.signals (opened₂.symm ▸ mem) (by omega) (by omega)
  have takes₃ := (takes.trap fits (within (by omega) (by omega)) taken).trap fits₂
    (within (by omega) (by omega)) taken₂
  obtain ⟨σ₀, as, σ, acts, -, first, runs, last⟩ := kernel_refines platform booted takes₃
  refine ⟨k₁, k₃, _, s, σ₀, as, σ, booted, takes₃, ⟨_, _, trs, List.append_assoc .., ⟨rfl, rfl⟩,
    rfl, ⟨rfl, rfl⟩, rfl⟩, acts, first, runs, last⟩

/-! ## Waiting for a semaphore -/

/-- From `k` come traps that do not close the semaphore `s`, `n` of them signals on it. -/
inductive Kernel.Heard (s : Nat) (k : Kernel) : Nat → Kernel → Prop where
  | start : k.Heard s 0 k
  | trap {n k' tr k''} (before : k.Heard s n k') (fits : tr.Fits k') (within : withinI32 k' tr)
      (taken : trap k' tr = .ok k'')
      (kept : tr.Calls syscallSemClose → tr.regs regA1 ≠ s) :
      k.Heard s (n + if tr.scause = irqEcallUser ∧ tr.regs regA0 = syscallSemSignal ∧
        tr.regs regA1 = s then 1 else 0) k''

section
variable {k k' : Kernel} {old : List Nat} {σ : System Nat Nat UInt8} {tr : Trap}
  {a : Action Nat Nat UInt8} {s n : Nat}

theorem Trap.Means.signals (means : tr.Means k k' a) : a.signals s =
    if tr.scause = irqEcallUser ∧ tr.regs regA0 = syscallSemSignal ∧ tr.regs regA1 = s
      then 1 else 0 := by
  cases means with
  | asks cause asks =>
    cases asks with
    | nothing other =>
      have notSignal : tr.regs regA0 ≠ syscallSemSignal := by
        rintro signal
        rw [signal] at other
        exact other (by decide)
      simp [Action.signals, notSignal]
    | signal call => simp [Action.signals, cause, call]
    | _ => simp_all [Action.signals]
  | tick _ cause => simp [Action.signals, cause, show irqTimer ≠ irqEcallUser by decide]
  | input _ cause => simp [Action.signals, cause, show irqHw ≠ irqEcallUser by decide]
  | leave cause => simp [Action.signals, cause, show irqEcallKernel ≠ irqEcallUser by decide]
  | nothing other =>
    simp only [List.mem_cons, List.not_mem_nil, or_false, not_or] at other
    simp [Action.signals, other]

theorem Trap.Means.closes (means : tr.Means k k' (.closeSem s)) :
    tr.Calls syscallSemClose ∧ tr.regs regA1 = s := by
  cases means with
  | asks cause asks =>
    cases asks with
    | closeSem call => exact ⟨⟨cause, call⟩, rfl⟩

theorem heard_run (here : k.Embodies old σ) (heard : k.Heard s n k') : ∃ as σ',
    System.Run k'.scheduler.kernelMain defaultTimeSlice σ as σ' ∧ k'.Embodies old σ' ∧
      System.signals s as = n ∧ .closeSem s ∉ as := by
  induction heard with
  | start => exact ⟨[], σ, .start, here, rfl, List.not_mem_nil⟩
  | trap _ fits within taken kept ih =>
    obtain ⟨as, σ', run, here', total, open'⟩ := ih
    obtain ⟨main, a, means, enabled, here''⟩ := trap_refines here' fits within taken
    rw [main]
    refine ⟨as ++ [a], _, run.next enabled, here'', ?_, ?_⟩
    · rw [System.signals_append, total, means.signals]
    · intro mem
      rcases List.mem_append.mp mem with before | last
      · exact open' before
      · obtain rfl := List.mem_singleton.mp last
        exact kept means.closes.1 means.closes.2

end

/-- **Waiting for a semaphore.** In every run, the thread at place `i` of a semaphore's ring
moves up one place with every signal and never back, and the signal `i + 1` makes it ready. -/
theorem semaphore_latency {k₀ k k' : Kernel} {s i t n : Nat} {waiting : List Nat}
    (run : Run withinI32 k₀ k) (opened : s ∈ k.hist.opened)
    (ring : IsRing k.links (k.sem s).waitingThreads waiting) (waits : waiting[i]? = some t)
    (heard : k.Heard s n k') :
    (n ≤ i → ∃ waiting', IsRing k'.links (k'.sem s).waitingThreads waiting' ∧
      waiting'[i - n]? = some t) ∧
    (i < n → ∃ new, k'.hist.pushed = k.hist.pushed ++ new ∧ t ∈ new) := by
  obtain ⟨k₁, trs, platform, booted, takes⟩ := run_takes run
  obtain ⟨σ₀, as₀, σ, -, initial, -, run₀, here⟩ := takes_embodies platform booted takes
  obtain ⟨as, σ', run', here', rfl, kept⟩ := heard_run here heard
  have shows := here.implements
  have shows' := here'.implements
  have opened' : s ∈ σ.opened := shows.opened ▸ opened
  have queue : (σ.sem s).queue = waiting := (shows.sems s opened').2.unique ring
  obtain ⟨-, open', new, joined, before, woken⟩ :=
    System.run_waits run' (System.run_backed run₀ initial) opened' kept (queue.symm ▸ waits)
  constructor
  · intro few
    exact ⟨_, (shows'.sems s open').2, before few⟩
  · intro many
    refine ⟨new, ?_, woken many⟩
    rw [shows'.pushed, joined, shows.pushed, List.append_assoc]

theorem prepares_within {k : Kernel} {tr : Trap} (prepares : tr.Prepares) : withinI32 k tr :=
  fun _ => ⟨fun call => absurd (prepares call.1) (by rw [call.2]; decide),
    fun call => absurd (prepares call.1) (by rw [call.2]; decide)⟩

/-- A thread waits for a semaphore that has no units, and another one signals it. -/
theorem semaphore_latency_small : ∃ k k' s p, Run withinI32 roomyKernel k ∧
    s ∈ k.hist.opened ∧ IsRing k.links (k.sem s).waitingThreads [p] ∧
    trap k (nextCall k syscallSemSignal s) = .ok k' ∧ k.Heard s 1 k' ∧
    ∃ new, k'.hist.pushed = k.hist.pushed ++ new ∧ p ∈ new := by
  obtain ⟨k₀, b₀, p, q, s, two, run₀⟩ := two_users withinI32 fun _ _ =>
    prepares_within
  -- the first thread waits, and the second gets the hart
  obtain ⟨fits, k, b, taken, one⟩ := two.waits
  have call : (userCall k₀ syscallSemWait s 0).Calls syscallSemWait := ⟨rfl, rfl⟩
  have within : withinI32 k₀ (userCall k₀ syscallSemWait s 0) := by
    intro x
    constructor
    · rintro - rfl
      show -2 ^ 31 < (k₀.sem s).val
      rw [two.val]
      decide
    · exact fun signal => absurd (signal.2.symm.trans call.2) (by decide)
  have run := run₀.trap fits within taken
  have still : s ∈ k.hist.opened := by simp [one.opened]
  have ring : IsRing k.links (k.sem s).waitingThreads (b.queue (.sem s)) :=
    one.rest.places.rings.ring (.sem s) still
  rw [one.queue, update_self] at ring
  -- the second thread signals
  have fits' := nextCall_sem one.mode (show syscallSemSignal ∈ _ by simp) still
    (opened_lt one.rest.inv still)
  have call' : (nextCall k syscallSemSignal s).Calls syscallSemSignal := ⟨rfl, rfl⟩
  have arg' : (nextCall k syscallSemSignal s).regs regA1 = s := rfl
  obtain ⟨k', taken'⟩ := call_returns one.rest call' (by decide) fits'
  have within' : withinI32 k (nextCall k syscallSemSignal s) := by
    intro x
    constructor
    · exact fun wait => absurd (wait.2.symm.trans call'.2) (by decide)
    · rintro - rfl
      show (k.sem s).val < _
      rw [one.val]
      decide
  have heard := Kernel.Heard.trap (s := s) .start fits' within' taken' fun close =>
    absurd (close.2.symm.trans call'.2) (by decide)
  rw [if_pos ⟨call'.1, call'.2, arg'⟩] at heard
  exact ⟨k, k', s, p, run, still, ring, taken', heard,
    (semaphore_latency (i := 0) run still ring rfl heard).2 (by decide)⟩

end RiscvKernel
