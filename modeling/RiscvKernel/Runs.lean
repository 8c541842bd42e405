import RiscvKernel.ConsoleEffects

/-!
# Runs

A run starts when `main` has booted and takes one trap after the other. Between
two traps the kernel keeps `Kernel.Rest`.

* `trap_rest`: a trap that returns keeps it;
* `trap_returns`: a trap returns unless user code does something illegal or exits
  after its stack has overflowed;
* `run_rest`: it holds in every state of every run.
-/

namespace RiscvKernel
open Function Intrusive Placement

/-! ## Modes -/

/-- `kernel_main` resumes in supervisor mode and every user thread in user mode. -/
def Kernel.Modes (k : Kernel) : Prop :=
  ∀ t, k.view.Thread t → (k.saved t).sstatus.testBit 8 = decide (t = k.scheduler.kernelMain)

theorem user_sstatus (x : Nat) : (ExecMode.user.sstatus x).testBit 8 = false := by
  show (x &&& _).testBit 8 = false
  rw [Nat.testBit_and, show (2 ^ 64 - 1 - 2 ^ 8 : Nat).testBit 8 = false by decide, Bool.and_false]

theorem ThreadsAfter.modes {k k' : Kernel} (after : ThreadsAfter k k') (modes : k.Modes)
    (current : k.view.Thread k.scheduler.threadCurrent)
    (main : k'.scheduler.kernelMain = k.scheduler.kernelMain) : k'.Modes := by
  intro t ht
  rw [main]
  cases after with
  | same saved live _ =>
    rw [saved]
    exact modes t (ht.imp (live t) fun h => h.trans main)
  | refused saved live _ =>
    rw [saved, update_apply]
    split
    · next h =>
      subst h
      have same := modes _ current
      rwa [saved_current] at same
    · refine modes t (ht.imp (fun h => ?_) fun h => h.trans main)
      have h : t ∈ k'.hist.live := h
      rwa [live] at h
  | created p _ _ _ _ notMain saved live _ =>
    rw [saved, update_apply]
    split
    · next h =>
      rw [user_sstatus, h]
      simpa using notMain
    · next h =>
      refine modes t (ht.imp (fun live' => ?_) fun h => h.trans main)
      have live' : t ∈ k'.hist.live := live'
      rw [live] at live'
      exact (List.mem_cons.mp live').resolve_left h

theorem bumpSepc_modes {k : Kernel} (modes : k.Modes) : (bumpSepc k 4).Modes := by
  intro t ht
  have same := modes t ht
  by_cases h : t = k.scheduler.threadCurrent
  · subst h
    rw [saved_current] at same
    exact (congrArg (fun s : Saved => s.sstatus.testBit 8)
      (saved_current (bumpSepc k 4))).trans same
  · rw [saved_other h] at same
    exact (congrArg (fun s : Saved => s.sstatus.testBit 8)
      (saved_other (k := bumpSepc k 4) h)).trans same

theorem Handled.modes {k k' : Kernel} {b b' : Threads} {recs recs' : List Nat}
    (handled : Handled k b recs k' b' recs') (modes : k.Modes)
    (current : k.view.Thread k.scheduler.threadCurrent) : k'.Modes := by
  obtain ⟨k₁, entered, after⟩ := handled.threads
  have main := handled.main
  cases entered with
  | same => exact after.modes modes current main
  | ecall => exact after.modes (bumpSepc_modes modes) current main

/-! ## Between two traps -/

/-- What holds of a kernel between two traps. -/
structure Kernel.Rest (k : Kernel) (b : Threads) (recs : List Nat) : Prop
    extends inv : k.Inv b recs where
  supervisor : k.hart.supervisor = decide (k.scheduler.threadCurrent = k.scheduler.kernelMain)
  modes : ∀ t, k.view.Thread t → t ≠ k.scheduler.threadCurrent →
    (k.thread t).sstatus.testBit 8 = decide (t = k.scheduler.kernelMain)
  receiveRoom : k.console.receiveCnt ≤ consoleBufferSize
  sendRoom : k.console.sendCnt ≤ consoleBufferSize

/-- What the machine and the callers of the API promise of a trap. -/
structure Trap.Fits (tr : Trap) (k : Kernel) : Prop where
  mode : tr.sstatus.testBit 8 = k.hart.supervisor
  userCall : tr.scause = irqEcallUser → k.hart.supervisor = false
  kernelCall : tr.scause = irqEcallKernel → k.hart.supervisor = true
  words : ∀ i, tr.regs i < 2 ^ 64
  request : tr.scause = irqEcallUser → Request k tr.regs

/-- The trap is the system call `code`. -/
def Trap.Calls (tr : Trap) (code : Nat) : Prop := tr.scause = irqEcallUser ∧ tr.regs regA0 = code

section
variable {k k' : Kernel} {b : Threads} {recs : List Nat} {tr : Trap}

theorem enter_inv (inv : k.Inv b recs) (tr : Trap) : (enter k tr).Inv b recs := inv.congr rfl rfl

theorem enter_saved_current (k : Kernel) (tr : Trap) :
    (enter k tr).saved k.scheduler.threadCurrent = ⟨tr.frame, tr.sepc, tr.sstatus⟩ :=
  saved_current (enter k tr)

theorem enter_saved_other {t : Nat} (h : t ≠ k.scheduler.threadCurrent) (tr : Trap) :
    (enter k tr).saved t = k.saved t :=
  (saved_other (k := enter k tr) h).trans (saved_other h).symm

theorem Kernel.Rest.enter_modes (rest : k.Rest b recs) (fits : tr.Fits k) :
    (enter k tr).Modes := by
  intro t ht
  by_cases h : t = k.scheduler.threadCurrent
  · rw [h, enter_saved_current]
    exact fits.mode.trans rest.supervisor
  · rw [enter_saved_other h, saved_other h]
    exact rest.modes t ht h

theorem Kernel.Rest.user (rest : k.Rest b recs) (mode : k.hart.supervisor = false) :
    k.scheduler.threadCurrent ∈ k.hist.live := by
  have ne : k.scheduler.threadCurrent ≠ k.scheduler.kernelMain := by
    simpa [mode] using rest.supervisor
  exact rest.current_thread.resolve_right ne

theorem Request.entered (request : Request k tr.regs) :
    Request (enter k tr) ((enter k tr).context tr.frame) := by
  have a0 := enter_arg k tr (i := regA0) (by decide) (by decide)
  have a1 := enter_arg k tr (i := regA1) (by decide) (by decide)
  have a4 := enter_arg k tr (i := regA4) (by decide) (by decide)
  refine ⟨?_, ?_, ?_, ?_, ?_, ?_⟩
  all_goals simp only [a0, a1, a4]
  · exact request.untimed
  · exact request.memAlloc
  · exact request.create
  · exact request.openSem
  · exact request.sem
  · exact request.sleep

theorem Kernel.Rest.handled (rest : k.Rest b recs) (fits : tr.Fits k) :
    (∃ k₁ b' recs', irqHandler tr.plic (enter k tr) = .ok k₁ ∧
        Handled (enter k tr) b recs k₁ b' recs' ∧ k₁.Inv b' recs') ∨
      (tr.scause ∈ illegalCauses ∨
        tr.scause = irqEcallUser ∧ tr.regs regA0 = syscallThreadExit ∧
          tr.frame < (k.thread k.scheduler.threadCurrent).bp) ∧
        ∃ msg, irqHandler tr.plic (enter k tr) = .error (.panic msg) ∧
          msg ∈ ["Stack overflow\n", "Illegal operation\n", "Illegal read\n",
            "Illegal write\n"] := by
  have a0 := enter_arg k tr (i := regA0) (by decide) (by decide)
  have a1 := enter_arg k tr (i := regA1) (by decide) (by decide)
  have result := irqHandler_handled (enter_inv rest.inv tr) tr.plic rest.receiveRoom rest.sendRoom
    (fun user => by
      have mode := fits.userCall user
      refine ⟨rest.user mode, fits.mode.trans mode, ?_, (fits.request user).entered⟩
      exact a1.trans_lt (fits.words _))
    (fun main => by
      have mode := fits.kernelCall main
      rw [rest.supervisor] at mode
      exact of_decide_eq_true mode)
  have code : (enter k tr).context (enter k tr).hart.sscratch regA0 = tr.regs regA0 := a0
  rwa [code] at result

/-- **Step.** A trap that returns is handled and leads to a kernel between traps. -/
theorem trap_rest (rest : k.Rest b recs) (fits : tr.Fits k) (taken : trap k tr = .ok k') :
    ∃ k₁ b' recs', k' = leave k₁ ∧ Handled (enter k tr) b recs k₁ b' recs' ∧ k'.Rest b' recs' := by
  rcases rest.handled fits with ⟨k₁, b', recs', eq, handled, inv⟩ | ⟨-, msg, eq, -⟩
  · have done : k' = leave k₁ := by
      unfold trap at taken
      rw [eq] at taken
      exact (Except.ok.inj taken).symm
    have modes := handled.modes (rest.enter_modes fits) rest.current_thread
    obtain ⟨new, output⟩ := handled.output rest.sendRoom
    obtain ⟨input, bytes, ws, blocked, input'⟩ := handled.input rest.receiveRoom rest.sendRoom
    subst done
    refine ⟨k₁, b', recs', rfl, handled, inv.congr rfl rfl, ?_, ?_, input'.room, output.room⟩
    · have mode := modes _ inv.current_thread
      rw [saved_current] at mode
      exact mode
    · intro t ht ne
      have mode := modes t ht
      rw [saved_other (k := k₁) ne] at mode
      exact mode
  · unfold trap at taken
    rw [eq] at taken
    cases taken

end

/-! ## Runs -/

/-- The kernels between the traps of a run: `main` boots, and then come traps
that keep the promises and that are `Allowed`. -/
inductive Run (Allowed : Kernel → Trap → Prop) (k₀ : Kernel) : Kernel → Prop where
  | boot {k} (platform : k₀.Platform) (booted : boot k₀ = .ok k) : Run Allowed k₀ k
  | trap {k tr k'} (run : Run Allowed k₀ k) (fits : tr.Fits k) (allowed : Allowed k tr)
      (taken : trap k tr = .ok k') : Run Allowed k₀ k'

/-- Any trap may come. -/
def anyTrap : Kernel → Trap → Prop := fun _ _ => True

section
variable {Allowed : Kernel → Trap → Prop} {k₀ k : Kernel}

/-- The first state: `kernel_main` runs and the user's main thread `p` is ready. -/
structure Kernel.Booted (k₀ k : Kernel) (b : Threads) (p stackSpace : Nat) : Prop where
  rest : k.Rest b []
  main : k.scheduler.threadCurrent = k.scheduler.kernelMain
  notMain : p ≠ k.scheduler.kernelMain
  queue : b.queue = update (fun _ => []) .ready [p]
  hist : k.hist = { k₀.hist with
    pushed := k₀.hist.pushed ++ [p]
    live := [p]
    userBlocks := []
    past := update k₀.hist.past p (.created k.image.userMain 0 stackSpace) }
  saved : (k.thread p).saved = ⟨u64 (stackSpace - contextSize), k.image.threadWrapper,
    ExecMode.user.sstatus k₀.hart.sstatus⟩
  slice : k.slice p = defaultTimeSlice
  console : k.console = { k₀.console with
    receiveBuffer := { k₀.console.receiveBuffer with addr := k.console.receiveBuffer.addr }
    sendBuffer := { k₀.console.sendBuffer with addr := k.console.sendBuffer.addr }
    receiveCnt := 0
    sendCnt := 0 }

theorem boot_booted (platform : k₀.Platform) (booted : boot k₀ = .ok k) :
    ∃ b p stackSpace, k₀.Booted k b p stackSpace := by
  obtain ⟨h, h', receive, send, main, sched, system, stack, p, b, eq, inv, queue, -⟩ :=
    boot_spec platform
  obtain rfl := Except.ok.inj (booted.symm.trans eq)
  let k₁ := k₀.prepared h receive send main sched system
  let k := k₁.threadCreated k₀.image.userMainVar k₀.image.userMain 0 (stack + 4088) p h'
  have hist : k.hist = { k₀.hist with
      pushed := k₀.hist.pushed ++ [p]
      live := [p]
      userBlocks := []
      past := update k₀.hist.past p (.created k.image.userMain 0 (stack + 4088)) } := by
    have live : k₁.hist.live = [] := platform.noThreads
    have userBlocks : k₁.hist.userBlocks = [] := platform.noBlocks
    rw [threadCreated_hist, live, userBlocks]
    rfl
  have live : k.hist.live = [p] := by rw [hist]
  have notMain : p ≠ main := by
    rintro rfl
    refine main_not_live inv.owns (?_ : p ∈ k.hist.live)
    rw [live]
    exact List.mem_singleton_self p
  have saved := threadCreated_saved (k := k₁) (p := p) notMain k₀.image.userMainVar
    k₀.image.userMain 0 (stack + 4088) h'
  have mine : (k.thread p).saved = ⟨u64 ((stack + 4088 : Nat) - contextSize), k.image.threadWrapper,
      ExecMode.user.sstatus k₀.hart.sstatus⟩ := by
    have := congrFun saved p
    rw [update_self, saved_other (k := k) notMain] at this
    exact this
  have slice : k.slice p = defaultTimeSlice := by
    rw [threadCreated_slice, update_self]
  refine ⟨b, p, stack + 4088, ⟨inv, ?_, ?_, Nat.zero_le _, Nat.zero_le _⟩, rfl, notMain, queue,
    hist,
    mine, slice, threadCreated_console ..⟩
  · exact platform.supervisor.trans (decide_eq_true rfl).symm
  · intro t ht ne
    have ht : t = p := by
      have live' : t ∈ k.hist.live := ht.resolve_right ne
      rw [live] at live'
      exact List.mem_singleton.mp live'
    subst ht
    have sstatus : (k.thread t).sstatus = ExecMode.user.sstatus k₀.hart.sstatus :=
      congrArg Saved.sstatus mine
    have mode : (k.thread t).sstatus.testBit 8 = decide (t = main) := by
      rw [sstatus, user_sstatus, decide_eq_false notMain]
    exact mode

/-- What holds after booting and is kept by every trap holds in every run. -/
theorem run_invariant {P : Kernel → Threads → List Nat → Prop}
    (start : ∀ {k b p stackSpace}, k₀.Platform → k₀.Booted k b p stackSpace → P k b [])
    (step : ∀ {k b recs tr k₁ b' recs'}, k.Rest b recs → tr.Fits k → Allowed k tr →
      Handled (enter k tr) b recs k₁ b' recs' → (leave k₁).Rest b' recs' → P k b recs →
      P (leave k₁) b' recs')
    (run : Run Allowed k₀ k) : ∃ b recs, k.Rest b recs ∧ P k b recs := by
  induction run with
  | boot platform booted =>
    obtain ⟨b, p, stackSpace, booted⟩ := boot_booted platform booted
    exact ⟨b, [], booted.rest, start platform booted⟩
  | trap _ fits allowed taken ih =>
    obtain ⟨b, recs, rest, holds⟩ := ih
    obtain ⟨k₁, b', recs', rfl, handled, rest'⟩ := trap_rest rest fits taken
    exact ⟨b', recs', rest', step rest fits allowed handled rest' holds⟩

theorem Run.mono {Allowed' : Kernel → Trap → Prop} (run : Run Allowed k₀ k)
    (h : ∀ k tr, Allowed k tr → Allowed' k tr) : Run Allowed' k₀ k := by
  induction run with
  | boot platform booted => exact .boot platform booted
  | trap _ fits allowed taken ih => exact .trap ih fits (h _ _ allowed) taken

/-- **Runs.** -/
theorem run_rest (run : Run Allowed k₀ k) : ∃ b recs, k.Rest b recs := by
  obtain ⟨b, recs, rest, -⟩ := run_invariant (P := fun _ _ _ => True) (fun _ _ => trivial)
    (fun _ _ _ _ _ _ => trivial) run
  exact ⟨b, recs, rest⟩

end

/-! ## The first user thread -/

/-- The first `ecall` of `main`, with its stack below the heap. -/
def firstCall (k : Kernel) : Trap where
  scause := irqEcallKernel
  sepc := 0x80000400
  sstatus := 2 ^ 8
  regs := fun i => if i = regA0 then syscallKernelDispatch else if i = regSp then 2048 else 0
  mem := k.mem
  plic := 0

/-- A machine boots and starts its first user thread. -/
theorem first_run {k₀ : Kernel} (platform : k₀.Platform) (Allowed : Kernel → Trap → Prop)
    (allowed : ∀ k, k₀.Platform → boot k₀ = .ok k → Allowed k (firstCall k)) :
    ∃ k k', boot k₀ = .ok k ∧ trap k (firstCall k) = .ok k' ∧
      (firstCall k).Fits k ∧ Run Allowed k₀ k ∧ Run Allowed k₀ k' := by
  obtain ⟨h, h', receive, send, main, sched, system, stack, p, b, eq, -, -⟩ := boot_spec platform
  obtain ⟨b, p, stackSpace, booted⟩ := boot_booted platform eq
  have rest := booted.rest
  generalize (k₀.prepared h receive send main sched system).threadCreated _ _ _ _ _ _ = k
    at eq rest booted
  have mode : k.hart.supervisor = true := rest.supervisor.trans (decide_eq_true booted.main)
  have notUser : irqEcallKernel ≠ irqEcallUser := by decide
  have legal : irqEcallKernel ∉ illegalCauses := by decide
  have fits : (firstCall k).Fits k := by
    have spp : (2 ^ 8 : Nat).testBit 8 = true := by decide
    refine ⟨spp.trans mode.symm, fun h => absurd h notUser, fun _ => mode, fun i => ?_,
      fun h => absurd h notUser⟩
    show (if _ then _ else if _ then _ else _) < _
    split
    · decide
    · split <;> decide
  rcases rest.handled fits with ⟨k₁, -, -, ok, -⟩ | ⟨cause, -⟩
  · have taken : trap k (firstCall k) = .ok (leave k₁) := by
      unfold trap
      rw [ok]
      rfl
    have run : Run Allowed k₀ k := .boot platform eq
    exact ⟨k, _, eq, taken, fits, run, .trap run fits (allowed k platform eq) taken⟩
  · rcases cause with illegal | ⟨user, -⟩
    · exact absurd illegal legal
    · exact absurd user notUser

/-- The machine `k₀` between two traps of its first user thread `p`. -/
structure FirstUser (k₀ k : Kernel) (b : Threads) (p : Nat) : Prop where
  run : Run anyTrap k₀ k
  rest : k.Rest b []
  current : k.scheduler.threadCurrent = p
  live : k.hist.live = [p]
  userBlocks : k.hist.userBlocks = []
  idle : ∀ i, b.queue i = []
  start : k.heap.heapStart = k₀.heap.heapStart
  stop : k.heap.heapEnd = k₀.heap.heapEnd

theorem irqHandler_user {k : Kernel} (plic : Int) (cause : k.hart.scause = irqEcallUser) :
    irqHandler plic k = handleSyscall (bumpSepc k 4) k.hart.sscratch
      (k.context k.hart.sscratch regA0) := by
  unfold irqHandler
  rw [cause]
  rfl

theorem leave_inv {k : Kernel} {b : Threads} {recs : List Nat} (inv : k.Inv b recs) :
    (leave k).Inv b recs := inv.congr rfl rfl

theorem first_user {k₀ : Kernel} (platform : k₀.Platform) (Allowed : Kernel → Trap → Prop)
    (allowed : ∀ k, boot k₀ = .ok k → Allowed k (firstCall k)) :
    ∃ k b p, FirstUser k₀ k b p ∧ k.hist.opened = [] ∧
      k.console.device = k₀.console.device ∧ k.console.receiveCnt = 0 ∧ k.console.sendCnt = 0 ∧
      (∃ k₁, boot k₀ = .ok k₁ ∧ k.heap = k₁.heap ∧
        k = leave (switch (bumpSepc (enter k₁ (firstCall k₁)) 4))) ∧
      Run Allowed k₀ k := by
  obtain ⟨k, k', booted, taken, fits, run, run'⟩ := first_run platform
    (fun k tr => Allowed k tr ∧ anyTrap k tr) fun k _ booted => ⟨allowed k booted, trivial⟩
  have bounds := boot_bounds platform booted
  obtain ⟨b, p, stackSpace, first⟩ := boot_booted platform booted
  have code : (enter k (firstCall k)).context (enter k (firstCall k)).hart.sscratch regA0 =
      syscallKernelDispatch := enter_arg k (firstCall k) (i := regA0) (by decide) (by decide)
  have done : k' = leave (switch (bumpSepc (enter k (firstCall k)) 4)) := by
    have handled : irqHandler (firstCall k).plic (enter k (firstCall k)) =
        .ok (handleEcallKernel (enter k (firstCall k))) := rfl
    unfold trap at taken
    rw [handled, handleEcallKernel_dispatch _ code] at taken
    exact (Except.ok.inj taken).symm
  obtain ⟨k₁, b₁, recs₁, -, -, rest⟩ := trap_rest first.rest fits taken
  obtain ⟨b', inv, queue⟩ := mainDispatch_inv (k := bumpSepc (enter k (firstCall k)) 4)
    ((enter_inv first.rest.inv _).congr rfl rfl) first.main
  have inv : k'.Inv b' [] := by
    rw [done]
    exact inv.congr rfl rfl
  have hist : k'.hist = (enter k (firstCall k)).hist := by
    rw [done]
    exact switch_hist _
  have heap : k'.heap = k.heap := by
    rw [done]
    exact switch_heap _
  have console : k'.console = k.console := by
    rw [done]
    exact switch_console _
  have live : k'.hist.live = [p] := by
    rw [hist]
    exact congrArg History.live first.hist
  have idle : ∀ i, b'.queue i = [] := by
    intro i
    rw [queue, first.queue, update_apply]
    split
    · rfl
    · next h => simp [h]
  have current : k'.scheduler.threadCurrent = p := by
    obtain ⟨place, loc⟩ := Option.ne_none_iff_exists'.mp
      (inv.placed (t := p) (by rw [live]; exact List.mem_singleton_self p))
    match place, loc with
    | .queue i, loc =>
      have mem := b'.mem_queue.mpr loc
      rw [idle] at mem
      exact absurd mem List.not_mem_nil
    | .spot (.asleep r), loc => exact absurd (inv.places.asleep.mp loc).1 List.not_mem_nil
    | .spot .running, loc => exact (inv.running.mp loc).symm
  refine ⟨k', b', p, ⟨run'.mono fun _ _ _ => trivial,
    ⟨inv, rest.supervisor, rest.modes, rest.receiveRoom, rest.sendRoom⟩,
    current, live, ?_, idle, ?_, ?_⟩, ?_, ?_, ?_, ?_, ⟨k, booted, heap, done⟩,
    run'.mono fun _ _ h => h.1⟩
  · rw [hist]
    exact congrArg History.userBlocks first.hist
  · rw [heap, bounds.1]
  · rw [heap, bounds.2]
  · rw [hist]
    exact (congrArg History.opened first.hist).trans platform.noSems
  · rw [console, first.console]
  · rw [console, first.console]
  · rw [console, first.console]

/-- A system call returns what its arm of the `switch` returns. -/
theorem trap_user {k : Kernel} {tr : Trap} (cause : tr.scause = irqEcallUser) :
    trap k tr = handleSyscall (bumpSepc (enter k tr) 4) tr.frame (tr.regs regA0) >>= fun k =>
      .ok (leave k) := by
  have code : (enter k tr).context tr.frame regA0 = tr.regs regA0 :=
    enter_arg k tr (by decide) (by decide)
  have run := irqHandler_user (k := enter k tr) tr.plic cause
  have frame : (enter k tr).hart.sscratch = tr.frame := rfl
  rw [frame, code] at run
  unfold trap
  rw [run]
  rfl

theorem semOpen_refused {k : Kernel} {heap : Heap} (refused : memAlloc (sizeInBlocks 16) k.heap =
    .ok (0, heap)) (handle init : Nat) :
    semOpen k handle init = .ok (semCreateNoMemory, { k with heap }) := by
  unfold semOpen Kernel.alloc
  rw [refused]
  rfl

/-- A `sem_open` opens a semaphore when it finds a block. -/
theorem semOpen_trap {k k' : Kernel} {b : Threads} {recs : List Nat} {tr : Trap}
    (rest : k.Rest b recs) (fits : tr.Fits k) (call : tr.Calls syscallSemOpen)
    (taken : trap k tr = .ok k') :
    (k.heap.HasRoom (sizeInBlocks 16) ∧ ∃ s h', memAlloc (sizeInBlocks 16) k.heap = .ok (s, h') ∧
      k' = leave (((bumpSepc (enter k tr) 4).semOpened (tr.regs regA1) (tr.regs regA2 % 2 ^ 32) s
        h').setContext tr.frame regA0 (u64 0))) ∨
    (¬ k.heap.HasRoom (sizeInBlocks 16) ∧ ∃ h',
      k' = leave ({ bumpSepc (enter k tr) 4 with heap := h' }.setContext tr.frame regA0
        (u64 semCreateNoMemory))) := by
  have arm : ∀ k c, handleSyscall k c syscallSemOpen = handleSemOpen k c := fun _ _ => rfl
  have inv : (bumpSepc (enter k tr) 4).Inv b recs := (enter_inv rest.inv tr).congr rfl rfl
  have same : (bumpSepc (enter k tr) 4).context = (enter k tr).context := rfl
  rw [trap_user call.1, call.2, arm, handleSemOpen, same, enter_arg k tr (by decide) (by decide),
    enter_arg k tr (by decide) (by decide)] at taken
  by_cases room : k.heap.HasRoom (sizeInBlocks 16)
  · obtain ⟨s, h', alloc, opened, -⟩ :=
      semOpen_room inv room (tr.regs regA1) (tr.regs regA2 % 2 ^ 32)
    rw [opened] at taken
    exact Or.inl ⟨room, s, h', alloc, (Except.ok.inj taken).symm⟩
  · obtain ⟨-, r, refused⟩ := ((fits.request call.1).openSem call.2).resolve_left room
    have refused : memAlloc (sizeInBlocks 16) (bumpSepc (enter k tr) 4).heap =
      .ok (0, { (bumpSepc (enter k tr) 4).heap with reach := r }) := refused
    rw [semOpen_refused refused] at taken
    exact Or.inr ⟨room, _, (Except.ok.inj taken).symm⟩

section
variable {k k' k₁ : Kernel} {b b' : Threads} {recs recs' : List Nat} {tr : Trap} {code : Nat}

theorem Handled.call (handled : Handled (enter k tr) b recs k₁ b' recs') (call : tr.Calls code) :
    Called (bumpSepc (enter k tr) 4) tr.frame b recs code k₁ b' recs' := by
  obtain ⟨cause, rfl⟩ := call
  have code : (enter k tr).context (enter k tr).hart.sscratch regA0 = tr.regs regA0 :=
    enter_arg k tr (by decide) (by decide)
  have called := handled.userCall cause
  rw [code] at called
  exact called

/-- The first argument of a call. -/
theorem called_arg : (bumpSepc (enter k tr) 4).context tr.frame regA1 = tr.regs regA1 :=
  enter_arg k tr (by decide) (by decide)

/-- The kernel behind the `ecall`, before its request is served. -/
def Kernel.requested (k : Kernel) (tr : Trap) : Kernel := bumpSepc (enter k tr) 4

theorem requested_arg {i : Nat} (lo : regA0 ≤ i) (hi : i ≤ regA4) :
    (k.requested tr).context tr.frame i = tr.regs i := enter_arg k tr lo hi

theorem trap_ran {code : Nat} (call : tr.Calls code)
    (arm : handleSyscall (k.requested tr) tr.frame code = .ok k₁) :
    trap k tr = .ok (leave k₁) := by
  rw [trap_user call.1, call.2]
  show handleSyscall (k.requested tr) tr.frame code >>= _ = _
  rw [arm]
  rfl

/-- A `mem_alloc` that finds room returns a block. -/
theorem memAlloc_trap (inv : k.Inv b recs) (call : tr.Calls syscallMemAlloc)
    (pos : 0 < tr.regs regA1) (room : k.heap.HasRoom (tr.regs regA1)) :
    ∃ p h', memAlloc (tr.regs regA1) k.heap = .ok (p, h') ∧ p ≠ 0 ∧ trap k tr =
      .ok (leave (((bumpSepc (enter k tr) 4).memAlloced p (tr.regs regA1) h').setContext tr.frame
        regA0 p)) := by
  obtain ⟨p, h', eq, -, holds⟩ := memAlloc_spec inv.owns pos room
  have nonzero := (holds.starts.2 (p, tr.regs regA1) (Multiset.mem_cons_self _ _)).ne'
  refine ⟨p, h', eq, nonzero, ?_⟩
  have arm : ∀ k c, handleSyscall k c syscallMemAlloc = handleMemAlloc k c := fun _ _ => rfl
  have served : (bumpSepc (enter k tr) 4).alloc (tr.regs regA1) =
      .ok (p, { bumpSepc (enter k tr) 4 with heap := h' }) := by
    unfold Kernel.alloc
    show memAlloc _ k.heap >>= _ = _
    rw [eq]
    rfl
  rw [trap_user call.1, call.2, arm, handleMemAlloc]
  dsimp only
  rw [called_arg, served]
  rfl

/-- A `mem_alloc` moves no thread. -/
theorem memAlloc_rest (rest : k.Rest b recs) (fits : tr.Fits k) (call : tr.Calls syscallMemAlloc)
    (taken : trap k tr = .ok k') : k'.Rest b recs := by
  obtain ⟨k₁, b', recs', rfl, handled, rest'⟩ := trap_rest rest fits taken
  cases handled.call call with
  | unknown none => exact absurd (by decide) none
  | memAlloc => exact rest'

/-- A `thread_create` that finds room creates a thread. -/
theorem threadCreate_trap (inv : k.Inv b recs) (call : tr.Calls syscallThreadCreate)
    (room : k.heap.HasRoom (sizeInBlocks 56)) :
    ∃ p h', memAlloc (sizeInBlocks 56) k.heap = .ok (p, h') ∧ trap k tr =
      .ok (leave (((bumpSepc (enter k tr) 4).threadCreated (tr.regs regA1) (tr.regs regA2)
        (tr.regs regA3) (tr.regs regA4) p h').setContext tr.frame regA0 (u64 0))) := by
  obtain ⟨p, h', eq, -, holds⟩ := memAlloc_spec inv.owns (by decide) room
  have nonzero := (holds.starts.2 (p, sizeInBlocks 56) (Multiset.mem_cons_self _ _)).ne'
  refine ⟨p, h', eq, ?_⟩
  have arm : ∀ k c, handleSyscall k c syscallThreadCreate = handleThreadCreate k c :=
    fun _ _ => rfl
  have served : (bumpSepc (enter k tr) 4).alloc (sizeInBlocks 56) =
      .ok (p, { bumpSepc (enter k tr) 4 with heap := h' }) := by
    unfold Kernel.alloc
    show memAlloc _ k.heap >>= _ = _
    rw [eq]
    rfl
  have created : ∀ handle startF arg stackSpace, threadCreate (bumpSepc (enter k tr) 4) handle
      startF arg stackSpace .user = .ok (0, (bumpSepc (enter k tr) 4).threadCreated handle startF
        arg stackSpace p h') := by
    intro handle startF arg stackSpace
    unfold threadCreate
    rw [served]
    exact if_neg nonzero
  have same : (bumpSepc (enter k tr) 4).context = (enter k tr).context := rfl
  rw [trap_user call.1, call.2, arm, handleThreadCreate, created, same,
    enter_arg k tr (by decide) (by decide), enter_arg k tr (by decide) (by decide),
    enter_arg k tr (by decide) (by decide), enter_arg k tr (by decide) (by decide)]
  rfl

/-- A new thread goes to the end of the ready queue. -/
theorem threadCreate_rest {p : Nat} (rest : k.Rest b recs) (fits : tr.Fits k)
    (call : tr.Calls syscallThreadCreate) (taken : trap k tr = .ok k')
    (live : k'.hist.live = p :: k.hist.live) :
    ∃ b', k'.Rest b' recs ∧ b'.queue = update b.queue .ready (b.queue .ready ++ [p]) := by
  obtain ⟨k₁, b', recs', rfl, handled, rest'⟩ := trap_rest rest fits taken
  cases handled.call call with
  | unknown none => exact absurd (by decide) none
  | createRefused => exact absurd (congrArg List.length live) (Nat.succ_ne_self _).symm
  | @created q _ _ _ _ _ queue =>
    have live : q :: k.hist.live = p :: k.hist.live := live
    rw [(List.cons.inj live).1] at queue
    exact ⟨b', rest', queue⟩

theorem semOpened_val (k : Kernel) (tr : Trap) (handle init s c v : Nat) (h : Heap) :
    ((leave (((bumpSepc (enter k tr) 4).semOpened handle init s h).setContext c regA0 v)).sem
      s).val = toI32 init := by
  show (update k.sem s _ s).val = _
  rw [update_self]

/-- A `sem_open` moves no thread. -/
theorem semOpen_rest (rest : k.Rest b recs) (fits : tr.Fits k) (call : tr.Calls syscallSemOpen)
    (taken : trap k tr = .ok k') : k'.Rest b recs := by
  obtain ⟨k₁, b', recs', rfl, handled, rest'⟩ := trap_rest rest fits taken
  cases handled.call call with
  | unknown none => exact absurd (by decide) none
  | openRefused => exact rest'
  | opened => exact rest'

end

/-- What the boot leaves free. -/
theorem boot_room {k k' : Kernel} (platform : k.Platform) (booted : boot k = .ok k') {m : Nat}
    (pos : 0 < m) (le : m + 163 + (4 * ((k.heap.heapEnd - k.heap.heapStart) / memBlockSize) +
      memBlockSize - 1) / memBlockSize ≤ (k.heap.heapEnd - k.heap.heapStart) / memBlockSize) :
    k'.heap.HasRoom m := by
  obtain ⟨h, h', receive, send, main, sched, system, stack, p, b, eq, -, -, -, free⟩ :=
    boot_spec platform
  obtain rfl := Except.ok.inj (booted.symm.trans eq)
  exact free m pos le

/-- The call `sem_open` of the first user thread, with its stack below the heap. -/
def openCall (k : Kernel) (init : Nat) : Trap where
  scause := irqEcallUser
  sepc := 0x80000500
  sstatus := 0
  regs := fun i => if i = regA0 then syscallSemOpen else if i = regA1 then 3072 else
    if i = regA2 then init else if i = regSp then 2048 else 0
  mem := k.mem
  plic := 0

/-- A system call of the first user thread, with its stack below the heap. -/
def userCall (k : Kernel) (code arg arg' : Nat) : Trap where
  scause := irqEcallUser
  sepc := 0x80000500
  sstatus := 0
  regs := fun i => if i = regA0 then code else if i = regA1 then arg else
    if i = regA2 then arg' else if i = regSp then 2048 else 0
  mem := k.mem
  plic := 0

section
variable {k₀ k : Kernel} {b : Threads} {recs : List Nat} {p : Nat}

theorem Kernel.Rest.userMode (rest : k.Rest b recs)
    (user : k.scheduler.threadCurrent ∈ k.hist.live) : k.hart.supervisor = false :=
  rest.supervisor.trans (decide_eq_false fun main =>
    main_not_live rest.inv.owns (main ▸ user : k.scheduler.kernelMain ∈ k.hist.live))

theorem FirstUser.mode (user : FirstUser k₀ k b p) : k.hart.supervisor = false := by
  apply user.rest.userMode
  rw [user.current, user.live]
  exact List.mem_singleton_self p

theorem userCall_fits (mode : k.hart.supervisor = false) {code arg arg' : Nat}
    (code_lt : code < 2 ^ 64) (arg_lt : arg < 2 ^ 64) (arg'_lt : arg' < 2 ^ 64)
    (request : Request k (userCall k code arg arg').regs) : (userCall k code arg arg').Fits k := by
  have cause : irqEcallUser ≠ irqEcallKernel := by decide
  refine ⟨?_, fun _ => mode, fun h => absurd h cause, fun i => ?_, fun _ => request⟩
  · exact (show (0 : Nat).testBit 8 = false by decide).trans mode.symm
  · show (if _ then _ else if _ then _ else if _ then _ else if _ then _ else _) < _
    repeat' split
    all_goals first | decide | assumption

/-- The calls that ask for no memory, name no semaphore and do not sleep promise nothing. -/
theorem plainCall_fits (mode : k.hart.supervisor = false) {code arg arg' : Nat} (plain : code ∉
    [syscallMemAlloc, syscallThreadCreate, syscallSemOpen, syscallSemClose, syscallSemWait,
      syscallSemSignal, syscallSemTimedWait, syscallTimedSleep]) (code_lt : code < 2 ^ 64)
    (arg_lt : arg < 2 ^ 64) (arg'_lt : arg' < 2 ^ 64) : (userCall k code arg arg').Fits k := by
  have same : (userCall k code arg arg').regs regA0 = code := rfl
  simp only [List.mem_cons, List.not_mem_nil, or_false, not_or] at plain
  refine userCall_fits mode code_lt arg_lt arg'_lt ⟨?_, ?_, ?_, ?_, ?_, ?_⟩
  all_goals simp [same, plain]

/-- A trap for nothing illegal returns, unless the thread exits. -/
theorem Kernel.Rest.returns {tr : Trap} (rest : k.Rest b recs) (fits : tr.Fits k)
    (legal : tr.scause ∉ illegalCauses) (stays : ¬ tr.Calls syscallThreadExit) :
    ∃ k', trap k tr = .ok k' := by
  rcases rest.handled fits with ⟨k₁, -, -, ok, -⟩ | ⟨illegal | ⟨user, exit, -⟩, -⟩
  · refine ⟨leave k₁, ?_⟩
    unfold trap
    rw [ok]
    rfl
  · exact absurd illegal legal
  · exact absurd ⟨user, exit⟩ stays

/-- A system call returns, unless the thread exits. -/
theorem call_returns {tr : Trap} {code : Nat} (rest : k.Rest b recs) (call : tr.Calls code)
    (stays : code ≠ syscallThreadExit) (fits : tr.Fits k) : ∃ k', trap k tr = .ok k' := by
  apply rest.returns fits
  · rw [call.1]
    decide
  · exact fun exit => stays (call.2.symm.trans exit.2)

theorem userCall_returns (rest : k.Rest b recs) {code arg arg' : Nat}
    (stays : code ≠ syscallThreadExit) (fits : (userCall k code arg arg').Fits k) :
    ∃ k', trap k (userCall k code arg arg') = .ok k' :=
  call_returns rest ⟨rfl, rfl⟩ stays fits

theorem opened_lt (inv : k.Inv b []) {s : Nat} (opened : s ∈ k.hist.opened) : s < 2 ^ 64 := by
  have block : (s, sizeInBlocks 16) ∈ k.view.owned [] := by
    simp [View.owned, View.kept, Kernel.view, opened]
  have := inv.owns.block_end block
  simp only at this
  omega

/-- The calls on an open semaphore return. -/
theorem userCall_sem (rest : k.Rest b []) (mode : k.hart.supervisor = false) (code s : Nat)
    (call : code ∈ [syscallSemClose, syscallSemWait, syscallSemSignal])
    (opened : s ∈ k.hist.opened) : (userCall k code s 0).Fits k ∧
      ∃ k', trap k (userCall k code s 0) = .ok k' := by
  have same : (userCall k code s 0).regs regA0 = code := rfl
  have others : code ≠ syscallSemTimedWait ∧ code ≠ syscallMemAlloc ∧ code ≠ syscallThreadCreate ∧
      code ≠ syscallSemOpen ∧ code ≠ syscallTimedSleep ∧ code ≠ syscallThreadExit ∧
      code < 2 ^ 64 := by
    simp only [List.mem_cons, List.not_mem_nil, or_false] at call
    rcases call with rfl | rfl | rfl <;> decide
  obtain ⟨timed, alloc, create, openSem, sleep, exit, word⟩ := others
  have fits : (userCall k code s 0).Fits k :=
    userCall_fits mode word (opened_lt rest.inv opened) (by decide)
      ⟨timed, fun h => absurd h alloc, fun h => absurd h create, fun h => absurd h openSem,
        fun _ => opened, fun h => absurd h sleep⟩
  exact ⟨fits, userCall_returns rest exit fits⟩

/-- A trap that leaves the first user thread the hart and moves no thread. -/
theorem FirstUser.next {k' : Kernel} {tr : Trap} (user : FirstUser k₀ k b p) (fits : tr.Fits k)
    (taken : trap k tr = .ok k') (inv' : k'.Inv b [])
    (current : k'.scheduler.threadCurrent = k.scheduler.threadCurrent)
    (live : k'.hist.live = k.hist.live) (userBlocks : k'.hist.userBlocks = k.hist.userBlocks)
    (geometry : k'.heap.toGeometry = k.heap.toGeometry) : FirstUser k₀ k' b p := by
  obtain ⟨k₁, b₁, recs₁, -, -, rest'⟩ := trap_rest user.rest fits taken
  constructor
  · exact .trap user.run fits trivial taken
  · exact ⟨inv', rest'.supervisor, rest'.modes, rest'.receiveRoom, rest'.sendRoom⟩
  · exact current.trans user.current
  · exact live.trans user.live
  · exact userBlocks.trans user.userBlocks
  · exact user.idle
  · exact (congrArg Geometry.heapStart geometry).trans user.start
  · exact (congrArg Geometry.heapEnd geometry).trans user.stop

/-- The first user thread waits for a semaphore that has units. -/
theorem FirstUser.waits (user : FirstUser k₀ k b p) {s : Nat} (opened : s ∈ k.hist.opened)
    (units : 0 < (k.sem s).val) (range : (k.sem s).val < 2 ^ 31) :
    ∃ k', (userCall k syscallSemWait s 0).Fits k ∧
      trap k (userCall k syscallSemWait s 0) = .ok k' ∧ FirstUser k₀ k' b p ∧
      k'.hist.opened = k.hist.opened ∧
      k'.sem = update k.sem s { k.sem s with val := (k.sem s).val - 1 } := by
  obtain ⟨fits, -⟩ := userCall_sem user.rest user.mode syscallSemWait s (by simp) opened
  let tr := userCall k syscallSemWait s 0
  let k₁ := bumpSepc (enter k tr) 4
  have operand : tr.regs regA1 = s := rfl
  have arg : k₁.context tr.frame regA1 = s := by
    have same : k₁.context = (enter k tr).context := rfl
    rw [same, enter_arg k tr (by decide) (by decide), operand]
  have word : toI32 ((k.sem s).val - 1) = (k.sem s).val - 1 := toI32_eq (by omega) (by omega)
  have passes : ¬ toI32 ((k.sem s).val - 1) < 0 := by omega
  have run : semWait k₁ s = (0, k₁.waited s) := (semWait_run k₁ s).trans (if_neg passes)
  let k' := leave ((k₁.waited s).setContext tr.frame regA0 0)
  have taken : trap k tr = .ok k' := by
    have arm : ∀ k c, handleSyscall k c syscallSemWait = .ok (handleSemWait k c) :=
      fun _ _ => rfl
    have code : tr.regs regA0 = syscallSemWait := rfl
    rw [trap_user rfl, code, arm]
    show Except.ok (leave (handleSemWait k₁ tr.frame)) = _
    rw [handleSemWait, arg, run]
    rfl
  have inv₁ : k₁.Inv b [] := (enter_inv user.rest.inv tr).congr rfl rfl
  have inv' : k'.Inv b [] := leave_inv ((waited_inv inv₁ s).setContext ..)
  refine ⟨k', fits, taken, user.next fits taken inv' rfl rfl rfl rfl, rfl, ?_⟩
  · show update k.sem s { k.sem s with val := toI32 ((k.sem s).val - 1) } = _
    rw [word]

/-- The first user thread signals a semaphore for which nobody waits. -/
theorem FirstUser.signals (user : FirstUser k₀ k b p) {s : Nat} (opened : s ∈ k.hist.opened)
    (units : 0 ≤ (k.sem s).val) (range : (k.sem s).val < 2 ^ 31 - 1) :
    ∃ k', (userCall k syscallSemSignal s 0).Fits k ∧
      trap k (userCall k syscallSemSignal s 0) = .ok k' ∧ FirstUser k₀ k' b p ∧
      k'.hist.opened = k.hist.opened ∧
      k'.sem = update k.sem s { k.sem s with val := (k.sem s).val + 1 } := by
  obtain ⟨fits, -⟩ := userCall_sem user.rest user.mode syscallSemSignal s (by simp) opened
  let tr := userCall k syscallSemSignal s 0
  let k₁ := bumpSepc (enter k tr) 4
  have operand : tr.regs regA1 = s := rfl
  have arg : k₁.context tr.frame regA1 = s := by
    have same : k₁.context = (enter k tr).context := rfl
    rw [same, enter_arg k tr (by decide) (by decide), operand]
  have word : toI32 ((k.sem s).val + 1) = (k.sem s).val + 1 := toI32_eq (by omega) (by omega)
  have above : ¬ toI32 ((k.sem s).val + 1) ≤ 0 := by omega
  have run : semSignal k₁ s = .ok (0, k₁.signalled s) := (semSignal_run k₁ s).trans (if_neg above)
  let k' := leave ((k₁.signalled s).setContext tr.frame regA0 (u64 0))
  have taken : trap k tr = .ok k' := by
    have arm : ∀ k c, handleSyscall k c syscallSemSignal = handleSemSignal k c := fun _ _ => rfl
    have code : tr.regs regA0 = syscallSemSignal := rfl
    rw [trap_user rfl, code, arm]
    show handleSemSignal k₁ tr.frame >>= _ = _
    rw [handleSemSignal, arg, run]
    rfl
  have inv₁ : k₁.Inv b [] := (enter_inv user.rest.inv tr).congr rfl rfl
  have inv' : k'.Inv b [] := leave_inv ((signalled_inv inv₁ s).setContext ..)
  refine ⟨k', fits, taken, user.next fits taken inv' rfl rfl rfl rfl, rfl, ?_⟩
  · show update k.sem s { k.sem s with val := toI32 ((k.sem s).val + 1) } = _
    rw [word]

theorem openCall_fits (mode : k.hart.supervisor = false) (room : k.heap.HasRoom (sizeInBlocks 16))
    {init : Nat} (word : init < 2 ^ 64) : (openCall k init).Fits k := by
  have code : (userCall k syscallSemOpen 3072 init).regs regA0 = syscallSemOpen := rfl
  refine userCall_fits mode (by decide) (by decide) word
    ⟨?_, ?_, ?_, fun _ => Or.inl room, ?_, ?_⟩
  all_goals rw [code]
  · decide
  all_goals exact fun h => absurd h (by decide)

/-- The first user thread opens a semaphore. -/
theorem FirstUser.opens {Allowed : Kernel → Trap → Prop} (user : FirstUser k₀ k b p)
    (run : Run Allowed k₀ k) (room : k.heap.HasRoom (sizeInBlocks 16)) {init : Nat}
    (word : init < 2 ^ 64) (allowed : Allowed k (openCall k init)) : ∃ k' s, FirstUser k₀ k' b p ∧
      k'.hist.opened = s :: k.hist.opened ∧ (∀ s' ∈ k.hist.opened, k'.sem s' = k.sem s') ∧
      (k'.sem s).val = toI32 (init % 2 ^ 32 : Nat) ∧
      (k'.sem s).waitingThreads = 0 ∧ (k'.sem s).init = toI32 (init % 2 ^ 32 : Nat) ∧
      k'.hist.waits s = 0 ∧ k'.hist.signals s = 0 ∧ Run Allowed k₀ k' := by
  have rest := user.rest
  let tr := openCall k init
  let k₁ := bumpSepc (enter k tr) 4
  have inv₁ : k₁.Inv b [] := (enter_inv rest.inv tr).congr rfl rfl
  have fits : tr.Fits k := openCall_fits user.mode room word
  have args : k₁.context tr.frame regA1 = 3072 ∧ k₁.context tr.frame regA2 = init := by
    have same : k₁.context = (enter k tr).context := rfl
    rw [same, enter_arg k tr (by decide) (by decide), enter_arg k tr (by decide) (by decide)]
    simp [tr, openCall]
  obtain ⟨s, h', -, eq, inv⟩ := semOpen_room inv₁ room 3072 (init % 2 ^ 32)
  let k' := leave ((k₁.semOpened 3072 (init % 2 ^ 32) s h').setContext tr.frame regA0 (u64 0))
  have taken : trap k tr = .ok k' := by
    have arm : ∀ k c, handleSyscall k c syscallSemOpen = handleSemOpen k c := fun _ _ => rfl
    have code : tr.regs regA0 = syscallSemOpen := rfl
    rw [trap_user rfl, code, arm]
    show handleSemOpen k₁ tr.frame >>= _ = _
    rw [handleSemOpen, args.1, args.2, eq]
    rfl
  have inv' : k'.Inv b [] := leave_inv (inv.setContext ..)
  have geometry : h'.toGeometry = k₁.heap.toGeometry := semOpened_geometry eq
  have user' := user.next fits taken inv' rfl rfl rfl geometry
  refine ⟨k', s, user', ?_, ?_, ?_, ?_, ?_, ?_, ?_, .trap run fits allowed taken⟩
  · show s :: k.hist.opened = _
    rfl
  · intro s' opened
    have nodup : (s :: k.hist.opened).Nodup := (owned_nodup inv'.owns).2.2
    have ne : s' ≠ s := by
      rintro rfl
      exact (List.nodup_cons.mp nodup).1 opened
    show update k.sem s _ s' = _
    rw [update_of_ne ne]
  · show (update k.sem s _ s).val = _
    rw [update_self]
  · show (update k.sem s _ s).waitingThreads = 0
    rw [update_self]
  · show (update k.sem s _ s).init = _
    rw [update_self]
  · show update k.hist.waits s 0 s = 0
    rw [update_self]
  · show update k.hist.signals s 0 s = 0
    rw [update_self]

end

/-! ## A small machine -/

/-- A machine with a heap of 200 blocks, before `main` starts. -/
def smallKernel : Kernel where
  image := ⟨0x80000100, 0x80000200, 0x80000300⟩
  heap := { smallHeap with heapEnd := 4096 + 200 * memBlockSize }
  thread := fun _ => ⟨0, 0, 0, 0, 0⟩
  links := ⟨fun _ => 0, fun _ => 0⟩
  sleeping := fun _ => ⟨0, 0, 0⟩
  sleepLinks := ⟨fun _ => 0, fun _ => 0⟩
  sem := fun _ => ⟨0, 0, 0⟩
  schedulerPtr := 0
  scheduler := ⟨0, 0, 0, 0, 0⟩
  semTable := ⟨0, fun _ => 0, 0⟩
  console := {
    receiveBuffer := ⟨0, fun _ => 0, 0⟩
    sendBuffer := ⟨0, fun _ => 0, 0⟩
    receiveCnt := 0
    sendCnt := 0
    device := ⟨fun _ => 0, fun _ => 0, 0, 0, []⟩ }
  threadsWaitingForInput := 0
  systemStack := 0
  mem := fun _ => 0
  hart := ⟨0, 0, 2 ^ 8, 0, 0, 0, true⟩
  hist := ⟨[], [], [], [], fun _ => 0, fun _ => 0, fun _ => [], [], [], [], [],
    fun _ => .created 0 0 0⟩

theorem smallKernel_platform : smallKernel.Platform := by
  refine ⟨by constructor <;> decide, by decide, rfl, rfl, rfl, rfl, ?_, ?_, ?_⟩
  · exact ⟨rfl, rfl, rfl, rfl⟩
  · exact ⟨rfl, rfl⟩
  · exact ⟨rfl, rfl⟩

theorem small_run (Allowed : Kernel → Trap → Prop)
    (allowed : ∀ k, smallKernel.Platform → boot smallKernel = .ok k → Allowed k (firstCall k)) :
    ∃ k k', boot smallKernel = .ok k ∧ trap k (firstCall k) = .ok k' ∧
      (firstCall k).Fits k ∧ Run Allowed smallKernel k ∧ Run Allowed smallKernel k' :=
  first_run smallKernel_platform Allowed allowed

/-- The small machine has a free block while little is allocated. -/
theorem small_room {k : Kernel} {b : Threads} {recs : List Nat} {p : Nat} (inv : k.Inv b recs)
    (start : k.heap.heapStart = 4096) (stop : k.heap.heapEnd = 4096 + 200 * memBlockSize)
    (live : k.hist.live = [p]) (none : k.hist.userBlocks = [])
    (few : recs.length + k.hist.opened.length ≤ 20) : k.heap.HasRoom 1 := by
  have ok := inv.owns.ok
  have blocks : k.heap.nMemBlocks = 200 := by
    rw [ok.blocks, start, stop]
    rfl
  have len : k.heap.memIndexLenInBlocks = 13 := by
    rw [ok.indexLen, blocks]
    rfl
  refine inv.owns.room_one ?_
  have sizes : ((k.view.owned recs).map Prod.snd).sum =
    recs.length + k.hist.opened.length + 163 := by
    have boot : (k.view.boot.map Prod.snd).sum = 98 := rfl
    have view : k.view.live = [p] ∧ k.view.userBlocks = [] ∧ k.view.opened = k.hist.opened :=
      ⟨live, none, rfl⟩
    have one : sizeInBlocks 40 = 1 ∧ sizeInBlocks 56 = 1 ∧ sizeInBlocks 16 = 1 ∧
        sizeInBlocks defaultStackSize = 64 := ⟨rfl, rfl, rfl, rfl⟩
    simp only [View.owned, recordBlocks, View.kept, view, one, Multiset.map_add, Multiset.sum_add,
      Multiset.map_coe, Multiset.sum_coe, boot]
    simp [View.stack, one, Function.comp_def]
    omega
  omega

/-- The first user thread of the small machine has opened one semaphore. -/
theorem small_opens (Allowed : Kernel → Trap → Prop) (first : ∀ k, Allowed k (firstCall k))
    (init : Nat) (word : init < 2 ^ 64) (opens : ∀ k, Run Allowed smallKernel k →
      k.hist.opened = [] → Allowed k (openCall k init)) :
    ∃ k b p s, FirstUser smallKernel k b p ∧ k.hist.opened = [s] ∧
      (k.sem s).val = toI32 (init % 2 ^ 32 : Nat) ∧ (k.sem s).waitingThreads = 0 ∧
      (k.sem s).init = toI32 (init % 2 ^ 32 : Nat) ∧ k.hist.waits s = 0 ∧ k.hist.signals s = 0 ∧
      Run Allowed smallKernel k := by
  obtain ⟨k, b, p, user, noSems, -, -, -, -, run⟩ := first_user smallKernel_platform Allowed
    fun k _ => first k
  have room : k.heap.HasRoom (sizeInBlocks 16) := small_room user.rest.inv user.start user.stop
    user.live user.userBlocks (by rw [noSems]; decide)
  obtain ⟨k', s, user', opened, -, after⟩ := user.opens run room word (opens k run noSems)
  rw [noSems] at opened
  exact ⟨k', b, p, s, user', opened, after⟩

/-- User code only opens semaphores. -/
def setupTrap : Kernel → Trap → Prop :=
  fun _ tr => tr.scause = irqEcallUser → tr.regs regA0 = syscallSemOpen

theorem small_open (init : Nat) (small : init < 2 ^ 31) : ∃ k b p s,
    FirstUser smallKernel k b p ∧ k.hist.opened = [s] ∧ (k.sem s).val = init ∧
      (k.sem s).waitingThreads = 0 ∧
    (k.sem s).init = init ∧ Run setupTrap smallKernel k := by
  obtain ⟨k, b, p, s, user, opened, val, nobody, units, -, -, run⟩ := small_opens setupTrap
    (fun _ user => absurd user (show irqEcallKernel ≠ irqEcallUser by decide)) init (by omega)
    fun _ _ _ _ => rfl
  have eq : toI32 (init % 2 ^ 32 : Nat) = init := by
    rw [toI32_eq] <;> omega
  exact ⟨k, b, p, s, user, opened, val.trans eq, nobody, units.trans eq, run⟩

/-- The small machine with a heap of 250 blocks. -/
def roomyKernel : Kernel :=
  { smallKernel with heap := { smallHeap with heapEnd := 4096 + 250 * memBlockSize } }

theorem roomyKernel_platform : roomyKernel.Platform := by
  obtain ⟨-, -, supervisor, noThreads, noSems, noBlocks, noInput, noOutput, untouched⟩ :=
    smallKernel_platform
  exact ⟨by constructor <;> decide, by decide, supervisor, noThreads, noSems, noBlocks, noInput,
    noOutput, untouched⟩

/-- The call `thread_create` of the first user thread. -/
def createCall (k : Kernel) (stackSpace : Nat) : Trap := { userCall k 0 0 0 with
  regs := fun i => if i = regA4 then stackSpace else
    (userCall k syscallThreadCreate 3080 0x80000400).regs i }

/-- A system call of the thread that has just got the hart, on its own stack. -/
def nextCall (k : Kernel) (code arg : Nat) : Trap := { userCall k 0 0 0 with
  regs := fun i => if i = regSp then u64 (k.hart.sscratch + contextSize : Nat)
    else (userCall k code arg 0).regs i }

theorem createCall_fits {k : Kernel} {b : Threads} {recs : List Nat} {st : Nat}
    (rest : k.Rest b recs) (mode : k.hart.supervisor = false)
    (block : (st, sizeInBlocks defaultStackSize) ∈ k.hist.userBlocks)
    (room : k.heap.HasRoom (sizeInBlocks 56)) : (createCall k (st + 4088)).Fits k := by
  have owned : (st, sizeInBlocks defaultStackSize) ∈ k.view.owned recs := by
    simp [View.owned, View.kept, Kernel.view, block]
  obtain ⟨-, -, stack⟩ := stack_addresses rest.inv.owns owned
  have word : st + 4088 < 2 ^ 64 := by
    have bounds := rest.inv.owns.block_end owned
    have size : sizeInBlocks defaultStackSize = 64 := rfl
    rw [size] at bounds
    simp only at bounds
    omega
  have causes : irqEcallUser ≠ irqEcallKernel := by decide
  have code : (createCall k (st + 4088)).regs regA0 = syscallThreadCreate := rfl
  have top : (createCall k (st + 4088)).regs regA4 = st + 4088 := rfl
  refine ⟨?_, fun _ => mode, fun h => absurd h causes, fun i => ?_, fun _ => ?_⟩
  · exact (show (0 : Nat).testBit 8 = false by decide).trans mode.symm
  · show (if _ then _ else if _ then _ else if _ then _ else if _ then _ else
      if _ then _ else _) < _
    repeat' split
    all_goals first | decide | exact word
  · refine ⟨?_, ?_, fun _ => ⟨Or.inl room, top.symm ▸ stack.symm ▸ block⟩, ?_, ?_, ?_⟩
    all_goals rw [code]
    · decide
    all_goals exact fun h => absurd h (by decide)

theorem nextCall_fits {k : Kernel} {code arg : Nat} (mode : k.hart.supervisor = false)
    (code_lt : code < 2 ^ 64) (arg_lt : arg < 2 ^ 64)
    (request : Request k (nextCall k code arg).regs) : (nextCall k code arg).Fits k := by
  have causes : irqEcallUser ≠ irqEcallKernel := by decide
  refine ⟨?_, fun _ => mode, fun h => absurd h causes, fun i => ?_, fun _ => request⟩
  · exact (show (0 : Nat).testBit 8 = false by decide).trans mode.symm
  · show (if _ then _ else if _ then _ else if _ then _ else if _ then _ else
      if _ then _ else _) < _
    repeat' split
    all_goals first | decide | exact u64_lt _ | assumption

theorem nextCall_sem {k : Kernel} {code s : Nat} (mode : k.hart.supervisor = false)
    (call : code ∈ [syscallSemClose, syscallSemWait, syscallSemSignal])
    (opened : s ∈ k.hist.opened) (word : s < 2 ^ 64) : (nextCall k code s).Fits k := by
  have same : (nextCall k code s).regs regA0 = code := rfl
  have others : code ≠ syscallSemTimedWait ∧ code ≠ syscallMemAlloc ∧ code ≠ syscallThreadCreate ∧
      code ≠ syscallSemOpen ∧ code ≠ syscallTimedSleep ∧ code < 2 ^ 64 := by
    simp only [List.mem_cons, List.not_mem_nil, or_false] at call
    rcases call with rfl | rfl | rfl <;> decide
  obtain ⟨timed, alloc, create, openSem, sleep, small⟩ := others
  exact nextCall_fits mode small word ⟨timed, fun h => absurd h alloc, fun h => absurd h create,
    fun h => absurd h openSem, fun _ => opened, fun h => absurd h sleep⟩

/-- User code only asks for memory, threads and semaphores. -/
def Trap.Prepares (tr : Trap) : Prop :=
  tr.scause = irqEcallUser → tr.regs regA0 ∈ [syscallMemAlloc, syscallThreadCreate, syscallSemOpen]

/-- The first user thread has got a stack for another one. -/
theorem roomy_stack (Allowed : Kernel → Trap → Prop)
    (allowed : ∀ k tr, tr.Prepares → Allowed k tr) :
    ∃ k b p st, Run Allowed roomyKernel k ∧ k.Rest b [] ∧
      (∀ i, b.queue i = []) ∧ k.scheduler.threadCurrent = p ∧ k.hist.live = [p] ∧
      k.hist.opened = [] ∧ (st, sizeInBlocks defaultStackSize) ∈ k.hist.userBlocks ∧
      k.heap.HasRoom 3 := by
  have noCall : irqEcallKernel ≠ irqEcallUser := by decide
  obtain ⟨k, b, p, user, noSems, -, -, -, ⟨k₀, booted, heap, -⟩, run⟩ :=
    first_user roomyKernel_platform Allowed fun k _ => allowed k _ fun user => absurd user noCall
  have room : k.heap.HasRoom (64 + 3) := by
    rw [heap]
    exact boot_room roomyKernel_platform booted (by decide) (by decide)
  let tr := userCall k syscallMemAlloc 64 0
  have call : tr.Calls syscallMemAlloc := ⟨rfl, rfl⟩
  have arg : tr.regs regA1 = 64 := rfl
  have pos : 0 < tr.regs regA1 := by
    rw [arg]
    decide
  have enough : k.heap.HasRoom (tr.regs regA1) := room.mono (by rw [arg]; decide)
  have fits : tr.Fits k := by
    refine userCall_fits user.mode (by decide) (by decide) (by decide)
      ⟨?_, fun _ => ⟨pos, Or.inl enough⟩, ?_, ?_, ?_, ?_⟩
    all_goals rw [show (userCall k syscallMemAlloc 64 0).regs regA0 = syscallMemAlloc from rfl]
    · decide
    all_goals exact fun h => absurd h (by decide)
  obtain ⟨st, h, alloc, nonzero, taken⟩ := memAlloc_trap user.rest.inv call pos enough
  have room' : h.HasRoom 3 :=
    memAlloc_room user.rest.inv.owns pos (by decide) (by rw [arg]; exact room) alloc
  have rest' := memAlloc_rest user.rest fits call taken
  have run' := Run.trap run fits (allowed k tr fun _ => List.mem_cons_self) taken
  rw [Kernel.memAlloced, if_neg nonzero] at rest' run'
  refine ⟨_, b, p, st, run', rest', user.idle, user.current, user.live, noSems, ?_, room'⟩
  show (st, tr.regs regA1) ∈ (st, tr.regs regA1) :: k.hist.userBlocks
  exact List.mem_cons_self

/-- The thread `p` runs, the thread `q` is ready, and the semaphore `s` has no units. -/
structure TwoUsers (k : Kernel) (b : Threads) (p q s : Nat) : Prop where
  rest : k.Rest b []
  current : k.scheduler.threadCurrent = p
  queue : b.queue = update (fun _ => []) .ready [q]
  live : k.hist.live = [q, p]
  opened : k.hist.opened = [s]
  val : (k.sem s).val = 0
  room : k.heap.HasRoom 1

theorem TwoUsers.mode {k : Kernel} {b : Threads} {p q s : Nat} (two : TwoUsers k b p q s) :
    k.hart.supervisor = false := by
  apply two.rest.userMode
  rw [two.current, two.live]
  simp

theorem TwoUsers.ne {k : Kernel} {b : Threads} {p q s : Nat} (two : TwoUsers k b p q s) :
    q ≠ p := by
  have nodup := (owned_nodup two.rest.inv.owns).1
  rw [two.live] at nodup
  simpa using nodup

/-- A thread that neither waits nor sleeps runs. -/
theorem Kernel.Inv.runs {k : Kernel} {b : Threads} {recs : List Nat} {t : Nat}
    (inv : k.Inv b recs) (live : t ∈ k.hist.live) (out : ∀ i, t ∉ b.queue i)
    (awake : ∀ r ∈ recs, (k.sleeping r).thread ≠ t) : k.scheduler.threadCurrent = t := by
  obtain ⟨place, loc⟩ := Option.ne_none_iff_exists'.mp (inv.placed live)
  match place with
  | .queue i => exact absurd (b.mem_queue.mpr loc) (out i)
  | .spot .running => exact (inv.running.mp loc).symm
  | .spot (.asleep r) =>
    obtain ⟨mem, thread⟩ := inv.places.asleep.mp loc
    exact absurd thread (awake r mem)

theorem TwoUsers.dispatches {k : Kernel} {b : Threads} {p q s : Nat} (two : TwoUsers k b p q s) :
    (userCall k syscallThreadDispatch 0 0).Fits k ∧ ∃ k' b',
      trap k (userCall k syscallThreadDispatch 0 0) = .ok k' ∧ k'.Rest b' [] ∧
      k'.scheduler.threadCurrent = q ∧ b'.queue = update (fun _ => []) .ready [p] ∧
      k'.slice q = k.slice q := by
  let tr := userCall k syscallThreadDispatch 0 0
  let k₀ := bumpSepc (enter k tr) 4
  have fits : tr.Fits k :=
    plainCall_fits two.mode (by decide) (by decide) (by decide) (by decide)
  obtain ⟨k', taken⟩ := userCall_returns two.rest (by decide) fits
  refine ⟨fits, k', ?_⟩
  obtain ⟨k₁, b', recs', rfl, handled, rest'⟩ := trap_rest two.rest fits taken
  have current : k₀.scheduler.threadCurrent = p := two.current
  cases handled.call (⟨rfl, rfl⟩ : tr.Calls syscallThreadDispatch) with
  | unknown none => exact absurd (by decide) none
  | dispatched queue =>
    have queue : b'.queue = update (fun _ => []) .ready [p] := by
      rw [queue, current, two.queue, update_self, update_idem]
      rfl
    have live : (dispatch k₀).hist.live = [q, p] := by
      rw [dispatch_eq, switch_hist]
      exact two.live
    refine ⟨b', taken, rest', ?_, queue, ?_⟩
    · refine rest'.inv.runs (live ▸ List.mem_cons_self) (fun i mem => ?_) (by simp)
      rw [queue, update_apply] at mem
      split at mem
      · exact two.ne (List.mem_singleton.mp mem)
      · cases mem
    · show (dispatch k₀).slice q = k.slice q
      rw [dispatch_slice, current, update_of_ne two.ne]
      rfl

/-- The thread `p` waits for the semaphore `s`, and the thread `q` runs. -/
structure OneWaits (k : Kernel) (b : Threads) (p q s : Nat) : Prop where
  rest : k.Rest b []
  current : k.scheduler.threadCurrent = q
  queue : b.queue = update (fun _ => []) (.sem s) [p]
  live : k.hist.live = [q, p]
  opened : k.hist.opened = [s]
  val : (k.sem s).val = -1
  room : k.heap.HasRoom 1

theorem OneWaits.mode {k : Kernel} {b : Threads} {p q s : Nat} (one : OneWaits k b p q s) :
    k.hart.supervisor = false := by
  apply one.rest.userMode
  rw [one.current, one.live]
  exact List.mem_cons_self

theorem TwoUsers.waits {k : Kernel} {b : Threads} {p q s : Nat} (two : TwoUsers k b p q s) :
    (userCall k syscallSemWait s 0).Fits k ∧ ∃ k' b',
      trap k (userCall k syscallSemWait s 0) = .ok k' ∧ OneWaits k' b' p q s := by
  obtain ⟨fits, k', taken⟩ :=
    userCall_sem two.rest two.mode syscallSemWait s (by simp) (by simp [two.opened])
  refine ⟨fits, k', ?_⟩
  let tr := userCall k syscallSemWait s 0
  let k₀ := bumpSepc (enter k tr) 4
  obtain ⟨k₁, b', recs', rfl, handled, rest'⟩ := trap_rest two.rest fits taken
  have called := handled.call (⟨rfl, rfl⟩ : tr.Calls syscallSemWait)
  have current : k₀.scheduler.threadCurrent = p := two.current
  have val : (k₀.sem s).val = 0 := two.val
  cases called with
  | unknown none => exact absurd (by decide) none
  | @waited s₁ arg passes =>
    obtain rfl : s₁ = s := arg.symm.trans called_arg
    rw [val] at passes
    exact absurd (by decide) passes
  | @blocked s₁ b' arg _ queue =>
    obtain rfl : s₁ = s := arg.symm.trans called_arg
    have queue : b'.queue = update (fun _ => []) (.sem s₁) [p] := by
      rw [queue, current, two.queue]
      funext i
      by_cases here : i = .sem s₁
      · simp [here]
      · by_cases ready : i = .ready <;> simp [here, ready]
    have hist : (switch (k₀.waited s₁)).hist = (k₀.waited s₁).hist := switch_hist _
    have live : (switch (k₀.waited s₁)).hist.live = [q, p] := by
      rw [hist]
      exact two.live
    refine ⟨b', taken, ⟨rest', ?_, queue, live, ?_, ?_, ?_⟩⟩
    · refine rest'.inv.runs (live ▸ List.mem_cons_self) (fun i mem => ?_) (by simp)
      rw [queue, update_apply] at mem
      split at mem
      · exact two.ne (List.mem_singleton.mp mem)
      · cases mem
    · exact (congrArg History.opened hist).trans two.opened
    · have fall : ((k₀.waited s₁).sem s₁).val = -1 := by
        rw [waited_val, val]
        decide
      show (update (switch (k₀.waited s₁)).sem s₁ _ s₁).val = -1
      rw [update_self]
      show ((switch (k₀.waited s₁)).sem s₁).val = -1
      rw [switch_sem]
      exact fall
    · show (switch (k₀.waited s₁)).heap.HasRoom 1
      rw [switch_heap]
      exact two.room

/-- The thread `p` waits for the semaphore `s`, the thread `q` sleeps for `time` ticks with the
record `r`, and `kernel_main` runs. -/
structure OneSleeps (k : Kernel) (b : Threads) (p q s r time : Nat) : Prop where
  rest : k.Rest b [r]
  current : k.scheduler.threadCurrent = k.scheduler.kernelMain
  queue : b.queue = update (fun _ => []) (.sem s) [p]
  live : k.hist.live = [q, p]
  opened : k.hist.opened = [s]
  val : (k.sem s).val = -1
  thread : (k.sleeping r).thread = q
  alarm : (k.sleeping r).delta = time

theorem sleep_request {k : Kernel} {arg : Nat → Nat} (code : arg regA0 = syscallTimedSleep)
    (room : k.heap.HasRoom (sizeInBlocks 40)) : Request k arg := by
  refine ⟨?_, ?_, ?_, ?_, ?_, fun _ _ => room⟩
  all_goals rw [code]
  · decide
  all_goals exact fun h => absurd h (by decide)

/-- What the sleeping thread leaves behind when it gives up the hart. -/
theorem PutToSleep.switched {k k₁ : Kernel} {recs front back : List Nat} {c th time r : Nat}
    (put : (k.setContext c regA0 0).PutToSleep k₁ recs th time 0 r front back) :
    (switch k₁).hist = k.hist ∧ (switch k₁).sleeping = k₁.sleeping ∧ (switch k₁).sem = k.sem := by
  refine ⟨?_, ?_, ?_⟩
  · rw [switch_hist, put.frame]
    rfl
  · refine (congrArg View.sleeping (switch_view k₁)).trans ?_
    split <;> rfl
  · rw [switch_sem, put.frame]
    rfl

theorem OneWaits.sleeps {k : Kernel} {b : Threads} {p q s time : Nat} (one : OneWaits k b p q s)
    (pos : 1 ≤ time) (word : time < 2 ^ 64) : (nextCall k syscallTimedSleep time).Fits k ∧
    ∃ k' b' r, trap k (nextCall k syscallTimedSleep time) = .ok k' ∧
      OneSleeps k' b' p q s r time := by
  let tr := nextCall k syscallTimedSleep time
  let k₀ := bumpSepc (enter k tr) 4
  have call : tr.Calls syscallTimedSleep := ⟨rfl, rfl⟩
  have fits : tr.Fits k :=
    nextCall_fits one.mode (by decide) word (sleep_request rfl one.room)
  obtain ⟨k', taken⟩ := call_returns one.rest call (by decide) fits
  refine ⟨fits, k', ?_⟩
  obtain ⟨k₁, b', recs', rfl, handled, rest'⟩ := trap_rest one.rest fits taken
  have called := handled.call call
  have current : k₀.scheduler.threadCurrent = q := one.current
  have arg : k₀.context tr.frame regA1 = time := called_arg
  cases called with
  | unknown none => exact absurd (by decide) none
  | sleepZero zero => exact absurd (arg.symm.trans zero) (Nat.one_le_iff_ne_zero.mp pos)
  | @slept k₁ r front back b' put queue =>
    obtain ⟨rfl, rfl⟩ := List.append_eq_nil_iff.mp put.split.symm
    have queue : b'.queue = update (fun _ => []) (.sem s) [p] := by
      rw [queue, one.queue]
      funext i
      by_cases ready : i = .ready <;> simp [ready]
    obtain ⟨hist, sleeping, sem⟩ := PutToSleep.switched put
    have live : (switch k₁).hist.live = [q, p] := by
      rw [hist]
      exact one.live
    have thread : ((switch k₁).sleeping r).thread = q := by
      rw [sleeping, put.thread]
      exact current
    refine ⟨b', r, taken, ⟨rest', ?_, queue, live, ?_, ?_, thread, ?_⟩⟩
    · -- both user threads are elsewhere
      refine rest'.inv.current_thread.resolve_left fun user => ?_
      have running := rest'.inv.running.mpr rfl
      have user : (leave (switch k₁)).scheduler.threadCurrent ∈ [q, p] := live ▸ user
      simp only [List.mem_cons, List.not_mem_nil, or_false] at user
      rcases user with asleep | waits
      · rw [asleep, rest'.inv.places.asleep.mpr ⟨List.mem_singleton_self r, thread⟩] at running
        cases running
      · have here : p ∈ b'.queue (.sem s) := by simp [queue]
        rw [waits, b'.mem_queue.mp here] at running
        cases running
    · exact (congrArg History.opened hist).trans one.opened
    · show ((switch k₁).sem s).val = -1
      rw [sem]
      exact one.val
    · obtain ⟨early, late, none, times⟩ := put.times
      obtain ⟨rfl, rfl⟩ := List.append_eq_nil_iff.mp none.symm
      have new : (k₁.sleeping r).thread = k₀.scheduler.threadCurrent ∧
          (k₁.sleeping r).delta = k₀.context tr.frame regA1 := by
        simpa [DeltaList.times] using times
      show ((switch k₁).sleeping r).delta = time
      rw [sleeping, new.2, arg]

/-- A timer interrupt of whoever runs. -/
def timerTrap (k : Kernel) : Trap := { userCall k 0 0 0 with
  scause := irqTimer, sstatus := if k.hart.supervisor then 2 ^ 8 else 0 }

theorem trap_timer {k k' : Kernel} {tr : Trap} (timer : tr.scause = irqTimer)
    (ran : handleTimer (enter k tr) = .ok k') : trap k tr = .ok (leave k') := by
  unfold trap irqHandler
  rw [if_pos (show (enter k tr).hart.scause = irqTimer from timer), ran]
  rfl

theorem timerTrap_fits (k : Kernel) : (timerTrap k).Fits k := by
  have causes : irqTimer ≠ irqEcallUser ∧ irqTimer ≠ irqEcallKernel := by decide
  refine ⟨?_, fun h => absurd h causes.1, fun h => absurd h causes.2, fun i => ?_,
    fun h => absurd h causes.1⟩
  · show (if k.hart.supervisor = true then 2 ^ 8 else 0 : Nat).testBit 8 = _
    cases k.hart.supervisor <;> decide
  · show (if _ then _ else if _ then _ else if _ then _ else if _ then _ else _) < _
    repeat' split
    all_goals decide

theorem timerTrap_returns {k : Kernel} {b : Threads} {recs : List Nat} (rest : k.Rest b recs) :
    ∃ k', trap k (timerTrap k) = .ok k' :=
  rest.returns (timerTrap_fits k) (show irqTimer ∉ illegalCauses by decide)
    fun exit => absurd exit.1 (show irqTimer ≠ irqEcallUser by decide)

theorem two_users (Allowed : Kernel → Trap → Prop)
    (allowed : ∀ k tr, tr.Prepares → Allowed k tr) :
    ∃ k b p q s, TwoUsers k b p q s ∧ Run Allowed roomyKernel k := by
  obtain ⟨k, b, p, st, run, rest, idle, current, live, noSems, block, room⟩ :=
    roomy_stack Allowed allowed
  -- the thread
  let tr := createCall k (st + 4088)
  have call : tr.Calls syscallThreadCreate := ⟨rfl, rfl⟩
  have fits := createCall_fits rest (rest.userMode (current ▸ live ▸ List.mem_singleton_self p))
    block (room.mono (by decide))
  obtain ⟨q, h, alloc, taken⟩ := threadCreate_trap rest.inv call (room.mono (by decide))
  have room' : h.HasRoom 2 := memAlloc_room rest.inv.owns (by decide) (by decide) room alloc
  have run' := Run.trap run fits (allowed k tr fun _ => List.mem_of_elem_eq_true rfl) taken
  obtain ⟨b', rest', queue⟩ := threadCreate_rest rest fits call taken rfl
  generalize made : leave _ = k' at run' rest'
  have live' : k'.hist.live = q :: k.hist.live := by
    rw [← made]
    rfl
  have noSems' : k'.hist.opened = [] := by
    rw [← made]
    exact noSems
  have current' : k'.scheduler.threadCurrent = p := by
    rw [← made]
    exact current
  have two : k'.heap.HasRoom (sizeInBlocks 16 + 1) := by
    rw [← made]
    exact room'
  have one : k'.heap.HasRoom (sizeInBlocks 16) := two.mono (by decide)
  rw [live] at live'
  -- the semaphore
  have fits' : (openCall k' 0).Fits k' :=
    openCall_fits (rest'.userMode (current' ▸ live' ▸ by simp)) one (by decide)
  obtain ⟨k'', taken'⟩ := userCall_returns rest' (by decide) fits'
  have rest'' := semOpen_rest rest' fits' ⟨rfl, rfl⟩ taken'
  have run'' := Run.trap run' fits' (allowed k' _ fun _ => List.mem_of_elem_eq_true rfl) taken'
  obtain ⟨-, s, h', opened, rfl⟩ | ⟨full, -⟩ := semOpen_trap rest' fits' ⟨rfl, rfl⟩ taken'
  · refine ⟨_, b', p, q, s, ⟨rest'', current', ?_, live', congrArg (s :: ·) noSems', ?_,
      memAlloc_room rest'.inv.owns (by decide) (by decide) two opened⟩, run''⟩
    · rw [queue, idle]
      funext i
      rw [update_apply, update_apply, idle]
      rfl
    · rw [semOpened_val]
      exact (show toI32 (0 % 2 ^ 32 : Nat) = 0 by decide)
  · exact absurd one full

/-- One thread waits for a semaphore, and another one sleeps. -/
theorem one_sleeps : ∃ k b p q s r, OneSleeps k b p q s r 3 ∧ Run anyTrap roomyKernel k := by
  obtain ⟨k₀, b₀, p, q, s, two, run₀⟩ := two_users anyTrap fun _ _ _ => trivial
  obtain ⟨fits₁, k₁, b₁, taken₁, one⟩ := two.waits
  obtain ⟨fits₂, k, b, r, taken₂, sleeps⟩ := one.sleeps (show 1 ≤ 3 by decide) (by decide)
  exact ⟨k, b, p, q, s, r, sleeps, (run₀.trap fits₁ trivial taken₁).trap fits₂ trivial taken₂⟩

end RiscvKernel
