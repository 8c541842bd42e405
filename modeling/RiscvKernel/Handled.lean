import RiscvKernel.Requests

/-!
# What a trap does

* `Called`: what each system call did to the kernel, the board and the sleeping
  list, one constructor for each outcome;
* `Handled`: the same for `irq_handler`;
* `irqHandler_handled`: from a kernel that keeps the invariant, the handler
  does one of these and keeps the invariant, or it panics for a reason outside
  the kernel.
-/

namespace RiscvKernel
open Function Intrusive Placement

/-- The codes with an arm in the `switch` of `IRQ_ECALL_USER`. -/
def syscallCodes : List Nat :=
  [syscallMemAlloc, syscallGetc, syscallPutc, syscallThreadCreate, syscallThreadExit,
    syscallThreadDispatch, syscallSemOpen, syscallSemClose, syscallSemWait, syscallSemSignal,
    syscallSemTimedWait, syscallTimedSleep]

/-- A `putc` that was accepted. -/
def Kernel.putcAccepted (k : Kernel) (ch : UInt8) : Kernel :=
  { k with console := (k.console.putc ch).2 }.note fun h =>
    { h with accepted := h.accepted ++ [(k.scheduler.threadCurrent, ch)] }

/-- A `putc` that was refused, up to the dispatch. -/
def Kernel.putcRefused (k : Kernel) (ch : UInt8) : Kernel :=
  let c := k.scheduler.threadCurrent
  let k := bumpSepc { k with console := (k.console.putc ch).2 } (-4)
  let k := k.modifyThread c fun t => { t with sepc := u64 (k.hart.sepc - 4) }
  k.note fun h => { h with past := update h.past c (h.past c).refuse }

/-- What the system call `code` of the current thread, with its frame at
`context`, did to the kernel `k` with the board `b` and the sleeping records `recs`. -/
inductive Called (k : Kernel) (context : Nat) (b : Threads) (recs : List Nat) :
    Nat → Kernel → Threads → List Nat → Prop where
  | unknown {code} (none : code ∉ syscallCodes) : Called k context b recs code k b recs
  | memAlloc (p : Nat) (heap : Heap) :
      Called k context b recs syscallMemAlloc
        ((k.memAlloced p (k.context context regA1) heap).setContext context regA0 p) b recs
  | getcByte (some : k.console.receiveCnt ≠ 0) :
      Called k context b recs syscallGetc k.getcByte b recs
  | getcBlocked {b'} (none : k.console.receiveCnt = 0)
      (queue : b'.queue = update (update b.queue .ready (b.queue .ready).tail) .input
        (b.queue .input ++ [k.scheduler.threadCurrent])) :
      Called k context b recs syscallGetc
        (waitingPush (switch k) k.scheduler.threadCurrent) b' recs
  | putcAccepted (accepted : (k.console.putc (charOf (k.context context regA1))).1 = 0) :
      Called k context b recs syscallPutc
        (k.putcAccepted (charOf (k.context context regA1))) b recs
  | putcRefused {b'} (refused : (k.console.putc (charOf (k.context context regA1))).1 ≠ 0)
      (queue : b'.queue = update b.queue .ready
        (b.queue .ready ++ [k.scheduler.threadCurrent]).tail) :
      Called k context b recs syscallPutc
        (dispatch (k.putcRefused (charOf (k.context context regA1)))) b' recs
  | createRefused (heap : Heap) :
      Called k context b recs syscallThreadCreate
        ({ k with heap }.setContext context regA0 (u64 threadCreateNoMemory)) b recs
  | created {p b'} (heap : Heap) (notLive : p ∉ k.hist.live)
      (notMain : p ≠ k.scheduler.kernelMain) (notCurrent : p ≠ k.scheduler.threadCurrent)
      (queue : b'.queue = update b.queue .ready (b.queue .ready ++ [p])) :
      Called k context b recs syscallThreadCreate
        ((k.threadCreated (k.context context regA1) (k.context context regA2)
          (k.context context regA3) (k.context context regA4) p heap).setContext
            context regA0 0) b' recs
  | exited {b'} (heap : Heap)
      (queue : b'.queue = update b.queue .ready (b.queue .ready).tail) :
      Called k context b recs syscallThreadExit { k.threadExited with heap } b' recs
  | dispatched {b'} (queue : b'.queue = update b.queue .ready
        (b.queue .ready ++ [k.scheduler.threadCurrent]).tail) :
      Called k context b recs syscallThreadDispatch (dispatch k) b' recs
  | openRefused (heap : Heap) :
      Called k context b recs syscallSemOpen
        ({ k with heap }.setContext context regA0 (u64 semCreateNoMemory)) b recs
  | opened {s} (heap : Heap) (nonzero : s ≠ 0) (fresh : s ∉ k.hist.opened) :
      Called k context b recs syscallSemOpen
        ((k.semOpened (k.context context regA1) (k.context context regA2 % 2 ^ 32) s
          heap).setContext context regA0 0) b recs
  | closed {s b'} (arg : k.context context regA1 = s) (heap : Heap)
      (queue : b'.queue = update (update b.queue (.sem s) []) .ready
        (b.queue .ready ++ b.queue (.sem s))) :
      Called k context b recs syscallSemClose
        ((k.semClosed s (b.queue (.sem s)) heap).setContext context regA0 0) b' recs
  | waited {s} (arg : k.context context regA1 = s)
      (passes : ¬ toI32 ((k.sem s).val - 1) < 0) :
      Called k context b recs syscallSemWait ((k.waited s).setContext context regA0 0) b recs
  | blocked {s b'} (arg : k.context context regA1 = s) (blocks : toI32 ((k.sem s).val - 1) < 0)
      (queue : b'.queue = update (update b.queue .ready (b.queue .ready).tail) (.sem s)
        (b.queue (.sem s) ++ [k.scheduler.threadCurrent])) :
      Called k context b recs syscallSemWait
        (semPush (switch (k.waited s)) s k.scheduler.threadCurrent) b' recs
  | signalled {s} (arg : k.context context regA1 = s)
      (above : ¬ toI32 ((k.sem s).val + 1) ≤ 0) :
      Called k context b recs syscallSemSignal ((k.signalled s).setContext context regA0 0) b recs
  | unheard {s} (arg : k.context context regA1 = s) (below : toI32 ((k.sem s).val + 1) ≤ 0)
      (nobody : b.queue (.sem s) = []) :
      Called k context b recs syscallSemSignal
        ((k.signalled s).setContext context regA0 (u64 semSignalNoThreads)) b recs
  | woke {s w ws b'} (arg : k.context context regA1 = s)
      (below : toI32 ((k.sem s).val + 1) ≤ 0) (first : b.queue (.sem s) = w :: ws)
      (queue : b'.queue = update (update b.queue (.sem s) ws) .ready (b.queue .ready ++ [w])) :
      Called k context b recs syscallSemSignal
        (((k.signalled s).unblocked s w).setContext context regA0 0) b' recs
  | sleepZero (zero : k.context context regA1 = 0) :
      Called k context b recs syscallTimedSleep (k.setContext context regA0 0) b recs
  | slept {k₁ p front back b'} (put : (k.setContext context regA0 0).PutToSleep k₁ recs
        k.scheduler.threadCurrent (k.context context regA1) 0 p front back)
      (queue : b'.queue = update b.queue .ready (b.queue .ready).tail) :
      Called k context b recs syscallTimedSleep (switch k₁) b' (front ++ p :: back)

/-- What the callers of the API promise of a call with the registers `arg`: it
is no timed wait, it asks for one block at least, semaphores are open and
stacks come from `mem_alloc`. Requests for memory find room or are refused. -/
structure Request (k : Kernel) (arg : Nat → Nat) : Prop where
  untimed : arg regA0 ≠ syscallSemTimedWait
  memAlloc : arg regA0 = syscallMemAlloc → 0 < arg regA1 ∧ k.heap.Serves (arg regA1)
  create : arg regA0 = syscallThreadCreate →
    k.heap.Serves (sizeInBlocks 56) ∧ stackBlock (arg regA4) ∈ k.hist.userBlocks
  openSem : arg regA0 = syscallSemOpen → k.heap.Serves (sizeInBlocks 16)
  sem : arg regA0 ∈ [syscallSemClose, syscallSemWait, syscallSemSignal] →
    arg regA1 ∈ k.hist.opened
  sleep : arg regA0 = syscallTimedSleep → arg regA1 ≠ 0 → k.heap.HasRoom (sizeInBlocks 40)

section
variable {k : Kernel} {b : Threads} {recs : List Nat} {context : Nat}

theorem Kernel.Inv.setContext (inv : k.Inv b recs) (c i v : Nat) :
    (k.setContext c i v).Inv b recs := inv.congr rfl rfl

/-- A system call of a user thread that returns keeps the invariant. -/
structure CallOutcome (k : Kernel) (context : Nat) (b : Threads) (recs : List Nat) (code : Nat)
    (r : Except Halt Kernel) (k' : Kernel) (b' : Threads) (recs' : List Nat) : Prop where
  result : r = .ok k'
  called : Called k context b recs code k' b' recs'
  inv : k'.Inv b' recs'

theorem handlePutc_spec (inv : k.Inv b recs) (room : k.console.sendCnt ≤ consoleBufferSize) :
    ∃ k' b', CallOutcome k context b recs syscallPutc (.ok (handlePutc k context)) k' b' recs := by
  let ch := charOf (k.context context regA1)
  have run : handlePutc k context = if (k.console.putc ch).1 ≠ 0 then dispatch (k.putcRefused ch)
      else k.putcAccepted ch := rfl
  have addr : (k.console.putc ch).2.receiveBuffer.addr = k.console.receiveBuffer.addr ∧
      (k.console.putc ch).2.sendBuffer.addr = k.console.sendBuffer.addr := by
    rcases Console.putc_spec room ch with ⟨-, -, sent⟩ | ⟨-, accepted⟩
    · exact ⟨congrArg Buffer.addr sent.input.buffer, sent.addr⟩
    · exact ⟨congrArg Buffer.addr accepted.input.buffer, accepted.addr⟩
  by_cases h : (k.console.putc ch).1 = 0
  · rw [run, if_neg (not_not.mpr h)]
    exact ⟨_, b, rfl, .putcAccepted h, inv.congr (console_view k addr.1 addr.2) rfl⟩
  · rw [run, if_pos h]
    let k₁ := bumpSepc { k with console := (k.console.putc ch).2 } (-4)
    have view : (k.putcRefused ch).view = k.view :=
      (modifyThread_saved_view k₁ k.scheduler.threadCurrent
        (fun t => { t with sepc := u64 (k₁.hart.sepc - 4) }) rfl rfl).trans
        (console_view k addr.1 addr.2)
    obtain ⟨b', inv', queue⟩ := dispatch_inv (inv.congr view rfl)
    exact ⟨_, b', rfl, .putcRefused h queue, inv'⟩

theorem handleSemSignal_spec (inv : k.Inv b recs)
    (opened : k.context context regA1 ∈ k.hist.opened) :
    ∃ k' b', CallOutcome k context b recs syscallSemSignal (handleSemSignal k context)
      k' b' recs := by
  have spec := semSignal_spec inv opened
  unfold handleSemSignal
  split at spec
  · next below =>
    cases hq : b.queue (.sem (k.context context regA1)) with
    | nil =>
      rw [hq] at spec
      have spec : semSignal k _ = _ := spec
      rw [spec]
      exact ⟨_, b, rfl, .unheard rfl below hq, (signalled_inv inv _).setContext ..⟩
    | cons w ws =>
      rw [hq] at spec
      obtain ⟨eq, b', inv', queue⟩ := spec
      rw [eq]
      exact ⟨_, b', rfl, .woke rfl below hq queue, inv'.setContext ..⟩
  · next above =>
    rw [spec]
    exact ⟨_, b, rfl, .signalled rfl above, (signalled_inv inv _).setContext ..⟩

theorem handleTimedSleep_spec (inv : k.Inv b recs)
    (user : k.scheduler.threadCurrent ∈ k.hist.live) (word : k.context context regA1 < 2 ^ 64)
    (room : k.context context regA1 ≠ 0 → k.heap.HasRoom (sizeInBlocks 40)) :
    ∃ k' b' recs', CallOutcome k context b recs syscallTimedSleep (handleTimedSleep k context)
      k' b' recs' := by
  have run : handleTimedSleep k context = if k.context context regA1 = 0 then
      .ok (k.setContext context regA0 0) else
      schedulerTimeout (k.setContext context regA0 0) k.scheduler.threadCurrent
        (k.context context regA1) 0 >>= fun k => .ok (switch k) := rfl
  rw [run]
  split
  · next zero => exact ⟨_, b, recs, rfl, .sleepZero zero, inv.setContext ..⟩
  · next time =>
    obtain ⟨k₁, p, front, back, b', eq, put, inv', queue⟩ :=
      sleep_inv (inv.setContext context regA0 0)
      user (by omega) word (room time)
    have eq : schedulerTimeout (k.setContext context regA0 0) k.scheduler.threadCurrent
        (k.context context regA1) 0 = .ok k₁ := eq
    rw [eq]
    exact ⟨_, b', _, rfl, .slept put queue, inv'⟩

theorem handleSyscall_unknown {code : Nat} (none : code ∉ syscallCodes) :
    handleSyscall k context code = .ok k := by
  simp only [syscallCodes, List.mem_cons, List.not_mem_nil, or_false, not_or] at none
  simp only [handleSyscall, none, ↓reduceIte]

/-- **System calls.** A call that keeps the callers' promises does what `Called`
says, unless the thread exits after its stack has overflowed. -/
theorem handleSyscall_called (inv : k.Inv b recs)
    (user : k.scheduler.threadCurrent ∈ k.hist.live)
    (mode : k.hart.sstatus.testBit 8 = false) (word : k.context context regA1 < 2 ^ 64)
    (room : k.console.sendCnt ≤ consoleBufferSize) (request : Request k (k.context context)) :
    (∃ k' b' recs', CallOutcome k context b recs (k.context context regA0)
        (handleSyscall k context (k.context context regA0)) k' b' recs') ∨
      k.context context regA0 = syscallThreadExit ∧
        k.hart.sscratch < (k.thread k.scheduler.threadCurrent).bp ∧
        handleSyscall k context (k.context context regA0) = .error (.panic "Stack overflow\n") := by
  generalize hcode : k.context context regA0 = code
  by_cases known : code ∈ syscallCodes
  case neg =>
    exact Or.inl ⟨k, b, recs, handleSyscall_unknown known, .unknown known, inv⟩
  simp only [syscallCodes, List.mem_cons, List.not_mem_nil, or_false] at known
  rcases known with rfl | rfl | rfl | rfl | rfl | rfl | rfl | rfl | rfl | rfl | rfl | rfl
  · obtain ⟨pos, serves⟩ := request.memAlloc hcode
    obtain ⟨p, h', eq, inv'⟩ := handleMemAlloc_spec inv pos serves
    exact Or.inl ⟨_, b, recs, eq, .memAlloc p h', inv'.setContext ..⟩
  · have run : handleSyscall k context syscallGetc = .ok (getc k).2 := rfl
    have spec := getc_inv inv user
    rw [run]
    split at spec
    · next none =>
      obtain ⟨eq, b', inv', queue⟩ := spec
      rw [eq]
      exact Or.inl ⟨_, b', recs, rfl, .getcBlocked none queue, inv'⟩
    · next some =>
      rw [spec.1]
      exact Or.inl ⟨_, b, recs, rfl, .getcByte some, spec.2⟩
  · obtain ⟨k', b', outcome⟩ := @handlePutc_spec k b recs context inv room
    exact Or.inl ⟨k', b', recs, outcome⟩
  · obtain ⟨serves, stack⟩ := request.create hcode
    rcases handleThreadCreate_spec inv serves stack with
      ⟨h', eq, inv'⟩ | ⟨p, h', b', eq, notLive, notMain, notCurrent, inv', queue⟩
    · exact Or.inl ⟨_, b, recs, eq, .createRefused h', inv'.setContext ..⟩
    · exact Or.inl ⟨_, b', recs, eq, .created h' notLive notMain notCurrent queue,
        inv'.setContext ..⟩
  · have run : handleSyscall k context syscallThreadExit = threadExit k := rfl
    have spec := threadExit_spec inv user mode
    rw [run]
    split at spec
    · next low => exact Or.inr ⟨rfl, low, spec⟩
    · obtain ⟨h', b', eq, inv', queue⟩ := spec
      exact Or.inl ⟨_, b', recs, eq, .exited h' queue, inv'⟩
  · obtain ⟨b', inv', queue⟩ := dispatch_inv inv
    exact Or.inl ⟨_, b', recs, rfl, .dispatched queue, inv'⟩
  · have run : handleSyscall k context syscallSemOpen = handleSemOpen k context := rfl
    rw [run, handleSemOpen]
    rcases semOpen_spec inv (request.openSem hcode) (k.context context regA1)
      (k.context context regA2 % 2 ^ 32) with ⟨h', eq, inv'⟩ | ⟨s, h', eq, nonzero, fresh, inv'⟩
    · rw [eq]
      exact Or.inl ⟨_, b, recs, rfl, .openRefused h', inv'.setContext ..⟩
    · rw [eq]
      exact Or.inl ⟨_, b, recs, rfl, .opened h' nonzero fresh, inv'.setContext ..⟩
  · have run : handleSyscall k context syscallSemClose = handleSemClose k context := rfl
    obtain ⟨h', b', eq, inv', queue⟩ := semClose_spec inv (request.sem (by simp [hcode]))
    rw [run, handleSemClose, eq]
    exact Or.inl ⟨_, b', recs, rfl, .closed rfl h' queue, inv'.setContext ..⟩
  · have run : handleSyscall k context syscallSemWait = .ok (handleSemWait k context) := rfl
    have spec := semWait_spec inv (request.sem (by simp [hcode])) user
    rw [run, handleSemWait]
    split at spec
    · next blocks =>
      obtain ⟨eq, b', inv', queue⟩ := spec
      rw [eq]
      exact Or.inl ⟨_, b', recs, rfl, .blocked rfl blocks queue, inv'⟩
    · next passes =>
      rw [spec]
      exact Or.inl ⟨_, b, recs, rfl, .waited rfl passes, (waited_inv inv _).setContext ..⟩
  · obtain ⟨k', b', outcome⟩ := handleSemSignal_spec inv (request.sem (by simp [hcode]))
    exact Or.inl ⟨k', b', recs, outcome⟩
  · exact absurd hcode request.untimed
  · exact Or.inl (handleTimedSleep_spec inv user word (request.sleep hcode))

end

/-- What `irq_handler` did to the kernel `k` with the board `b` and the sleeping
records `recs`. -/
inductive Handled (k : Kernel) (b : Threads) (recs : List Nat) :
    Kernel → Threads → List Nat → Prop where
  | ignored (user : k.hart.scause ≠ irqEcallUser) (kernel : k.hart.scause ≠ irqEcallKernel)
      (timer : k.hart.scause ≠ irqTimer) :
      Handled k b recs k b recs
  | console {ws rest input bytes b'} (cause : k.hart.scause = irqHw)
      (waiting : b.queue .input = ws ++ rest)
      (empty : rest ≠ [] → (consoleReceive k).console.receiveCnt = 0)
      (delivered : k.Delivered (consoleReceive k) ws input bytes)
      (queue : b'.queue = update (update b.queue .input rest) .ready (b.queue .ready ++ ws)) :
      Handled k b recs (consoleSend (consoleReceive k)) b' recs
  | ticked {k₁ gone left b'} (cause : k.hart.scause = irqTimer)
      (ticked : k.Ticked k₁ recs gone left)
      (queue : b'.queue = update b.queue .ready
        (b.queue .ready ++ gone.map fun r => (k.sleeping r).thread)) :
      Handled k b recs k₁.spend b' left
  | preempted {k₁ gone left b'} (cause : k.hart.scause = irqTimer)
      (ticked : k.Ticked k₁ recs gone left)
      (queue : b'.queue = update b.queue .ready (b.queue .ready ++
        (gone.map fun r => (k.sleeping r).thread) ++ [k.scheduler.threadCurrent]).tail) :
      Handled k b recs (dispatch k₁) b' left
  | called {k' b' recs'} (cause : k.hart.scause = irqEcallUser)
      (called : Called (bumpSepc k 4) k.hart.sscratch b recs
        (k.context k.hart.sscratch regA0) k' b' recs') :
      Handled k b recs k' b' recs'
  | mainIgnored (cause : k.hart.scause = irqEcallKernel) :
      Handled k b recs (bumpSepc k 4) b recs
  | mainDispatched {b'} (cause : k.hart.scause = irqEcallKernel)
      (queue : b'.queue = update b.queue .ready (b.queue .ready).tail) :
      Handled k b recs (switch (bumpSepc k 4)) b' recs

/-- The causes that the handler answers with a panic. -/
def illegalCauses : List Nat := [irqIllegalOp, irqIllegalRead, irqIllegalWrite]

section
variable {k : Kernel} {b : Threads} {recs : List Nat}

/-- **Traps.** Unless user code does something illegal, or exits after its stack
has overflowed, the handler returns and keeps the invariant. -/
theorem irqHandler_handled (inv : k.Inv b recs) (plic : Int)
    (receiveRoom : k.console.receiveCnt ≤ consoleBufferSize)
    (sendRoom : k.console.sendCnt ≤ consoleBufferSize)
    (user : k.hart.scause = irqEcallUser → k.scheduler.threadCurrent ∈ k.hist.live ∧
      k.hart.sstatus.testBit 8 = false ∧ k.context k.hart.sscratch regA1 < 2 ^ 64 ∧
      Request k (k.context k.hart.sscratch))
    (main : k.hart.scause = irqEcallKernel → k.scheduler.threadCurrent = k.scheduler.kernelMain) :
    (∃ k' b' recs', irqHandler plic k = .ok k' ∧ Handled k b recs k' b' recs' ∧
        k'.Inv b' recs') ∨
      (k.hart.scause ∈ illegalCauses ∨
        k.hart.scause = irqEcallUser ∧ k.context k.hart.sscratch regA0 = syscallThreadExit ∧
          k.hart.sscratch < (k.thread k.scheduler.threadCurrent).bp) ∧
        ∃ msg, irqHandler plic k = .error (.panic msg) ∧ msg ∈ ["Stack overflow\n",
          "Illegal operation\n", "Illegal read\n", "Illegal write\n"] := by
  unfold irqHandler
  split
  · next cause =>
    obtain ⟨k₁, gone, left, b₁, ticked, inv₁, queue₁, ⟨eq, inv'⟩ | ⟨b', eq, inv', queue⟩⟩ :=
      handleTimer_spec inv
    · exact Or.inl ⟨_, b₁, left, eq, .ticked cause ticked queue₁, inv'⟩
    · refine Or.inl ⟨_, b', left, eq, .preempted cause ticked ?_, inv'⟩
      rw [queue, queue₁, ticked_current ticked]
      simp
  split
  · next cause =>
    unfold handleHw
    split
    · obtain ⟨b', ws, rest, input, bytes, inv', waiting, empty, delivered, queue⟩ :=
        consoleReceive_inv inv receiveRoom
      refine Or.inl ⟨_, b', recs, rfl, .console cause waiting empty delivered queue, ?_⟩
      obtain ⟨chars, sent⟩ := Console.send_spec (consoleReceive k).console
      exact inv'.congr (console_view _ (congrArg Buffer.addr sent.input.buffer) sent.addr) rfl
    · have ne : irqHw ≠ irqEcallUser ∧ irqHw ≠ irqEcallKernel := by decide
      exact Or.inl ⟨k, b, recs, rfl, .ignored (cause ▸ ne.1) (cause ▸ ne.2) ‹_›, inv⟩
  split
  · next h => exact Or.inr ⟨Or.inl (by simp [illegalCauses, h]), _, rfl, by simp⟩
  split
  · next h => exact Or.inr ⟨Or.inl (by simp [illegalCauses, h]), _, rfl, by simp⟩
  split
  · next h => exact Or.inr ⟨Or.inl (by simp [illegalCauses, h]), _, rfl, by simp⟩
  split
  · next cause =>
    obtain ⟨live, mode, word, request⟩ := user cause
    rcases handleSyscall_called (k := bumpSepc k 4) (inv.congr rfl rfl) live mode word sendRoom
      ⟨request.untimed, request.memAlloc, request.create, request.openSem, request.sem,
        request.sleep⟩ with ⟨k', b', recs', outcome⟩ | ⟨code, low, eq⟩
    · exact Or.inl ⟨k', b', recs', outcome.result, .called cause outcome.called, outcome.inv⟩
    · exact Or.inr ⟨Or.inr ⟨cause, code, low⟩, _, eq, by simp⟩
  split
  · next cause =>
    have inv₁ : (bumpSepc k 4).Inv b recs := inv.congr rfl rfl
    by_cases code : k.context k.hart.sscratch regA0 = syscallKernelDispatch
    · rw [handleEcallKernel_dispatch k code]
      obtain ⟨b', inv', queue⟩ := mainDispatch_inv inv₁ (main cause)
      exact Or.inl ⟨_, b', recs, rfl, .mainDispatched cause queue, inv'⟩
    · have skip : handleEcallKernel k = bumpSepc k 4 := if_neg code
      rw [skip]
      exact Or.inl ⟨_, b, recs, rfl, .mainIgnored cause, inv₁⟩
  · exact Or.inl ⟨k, b, recs, rfl, .ignored ‹_› ‹_› ‹_›, inv⟩

end

end RiscvKernel
