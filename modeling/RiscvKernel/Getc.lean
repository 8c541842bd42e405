import RiscvKernel.Input

/-!
# A buffered byte

`__getc` stores the byte through `sp` of the control block, which only `yield`
refreshes.

* `resume_frame`: the registers that `irq_wrap` restores are the words of the frame;
* `Kernel.GetcAnswers`: the caller gets the first byte and nothing else changes;
* `getc_answers_iff`: when it does.
-/

namespace RiscvKernel
open Function Intrusive Placement

/-! ## Restoring a frame -/

theorem frame_end {tr : Trap} (word : tr.regs regSp < 2 ^ 64) :
    u64 (tr.frame + contextSize : Nat) = tr.regs regSp := by
  unfold Trap.frame u64
  omega

/-- `irq_wrap` restores `a0` from the frame it saved. -/
theorem resume_a0 {k' : Kernel} {tr : Trap} (frame : k'.hart.sscratch = tr.frame)
    (sp : k'.context tr.frame regSp = tr.frame) :
    (resume k').regs regA0 = k'.context tr.frame regA0 := by
  show k'.context (k'.context k'.hart.sscratch regSp) regA0 = _
  rw [frame, sp]

/-- When the frame of a trap is restored with all of its words but `a0`, so are the
registers. -/
theorem resume_frame {k k' : Kernel} {tr : Trap} (words : ∀ i, tr.regs i < 2 ^ 64)
    (frame : k'.hart.sscratch = tr.frame)
    (mem : ∀ a, a ≠ slot tr.frame regA0 → k'.mem a = (enter k tr).mem a) :
    (resume k').regs regA0 = k'.context tr.frame regA0 ∧
      ∀ i < 32, i ≠ 0 → i ≠ regA0 → (resume k').regs i = tr.regs i := by
  have saved : ∀ i < 32, i ≠ regA0 → k'.context tr.frame i = tr.saved i := by
    intro i lt ne
    have other : slot tr.frame i ≠ slot tr.frame regA0 := by
      simp only [slot] at *
      omega
    exact (mem _ other).trans (enter_context k tr lt)
  have sp : k'.context tr.frame regSp = tr.frame := saved regSp (by decide) (by decide)
  refine ⟨resume_a0 frame sp, fun i lt nonzero ne => ?_⟩
  have word := saved i lt ne
  simp only [resume, frame, sp, if_neg nonzero]
  by_cases ra : i = regRa
  · subst ra
    rw [if_pos rfl, word]
    rfl
  · rw [if_neg ra]
    by_cases isSp : i = regSp
    · subst isSp
      rw [if_pos rfl]
      exact frame_end (words regSp)
    · rw [if_neg isSp, word, Trap.saved, if_neg nonzero, if_neg isSp]

/-! ## The answer -/

/-- The caller goes on behind the `ecall` with the first byte in `a0`; its other registers, the
rest of memory, the control blocks and the order of the other bytes are as they were. -/
structure Kernel.GetcAnswers (k : Kernel) (tr : Trap) (k' : Kernel) : Prop where
  byte : (resume k').regs regA0 = (k.console.receiveBuffer.data 0).toNat
  registers : ∀ i < 32, i ≠ 0 → i ≠ regA0 → (resume k').regs i = tr.regs i
  pc : (resume k').pc = u64 (tr.sepc + 4)
  sstatus : (resume k').sstatus = tr.sstatus
  memory : ∀ a, a ≠ slot tr.frame regA0 → k'.mem a = (enter k tr).mem a
  threads : k'.thread = k.thread
  order : k'.console.unread = k.console.unread.tail

/-- The control block of the caller points at the frame of this trap, or the byte is
the code of `getc`, which `a0` holds already, and so does the word that is overwritten. -/
def Kernel.GetcSafe (k : Kernel) (tr : Trap) : Prop :=
  (k.thread k.scheduler.threadCurrent).sp = tr.frame ∨
    (k.console.receiveBuffer.data 0).toNat = syscallGetc ∧
      (enter k tr).context (k.thread k.scheduler.threadCurrent).sp regA0 = syscallGetc

section
variable {k k' : Kernel} {tr : Trap}

/-- The byte goes to the frame at the `sp` of the control block. -/
theorem getc_trap (call : tr.Calls syscallGetc) (some : k.console.receiveCnt ≠ 0) :
    trap k tr = .ok (leave (bumpSepc (enter k tr) 4).getcByte) := by
  have arm : ∀ k c, handleSyscall k c syscallGetc = .ok (getc k).2 := fun _ _ => rfl
  have run : getc (bumpSepc (enter k tr) 4) = (0, (bumpSepc (enter k tr) 4).getcByte) :=
    if_neg some
  rw [trap_user call.1, call.2, arm, run]
  rfl

theorem getcByte_mem (k : Kernel) : k.getcByte.mem = update k.mem
    (slot (k.thread k.scheduler.threadCurrent).sp regA0)
    (k.console.receiveBuffer.data 0).toNat := rfl

/-- Where the byte goes, nothing else does. -/
theorem getcAnswers_of_mem (words : ∀ i, tr.regs i < 2 ^ 64) (some : k.console.receiveCnt ≠ 0)
    (done : k' = leave (bumpSepc (enter k tr) 4).getcByte)
    (byte : k'.context tr.frame regA0 = (k.console.receiveBuffer.data 0).toNat)
    (mem : ∀ a, a ≠ slot tr.frame regA0 → k'.mem a = (enter k tr).mem a) :
    k.GetcAnswers tr k' := by
  have frame : k'.hart.sscratch = tr.frame := by
    rw [done]
    rfl
  obtain ⟨a0, others⟩ := resume_frame words frame mem
  refine ⟨a0.trans byte, others, ?_, ?_, mem, ?_, ?_⟩
  · rw [done]
    rfl
  · rw [done]
    rfl
  · rw [done]
    rfl
  · have unread := getcByte_unread (k := bumpSepc (enter k tr) 4) some
    have same : (bumpSepc (enter k tr) 4).console.unread = k.console.unread := rfl
    rw [same] at unread
    rw [done, unread]
    rfl

theorem getc_mem (done : k' = leave (bumpSepc (enter k tr) 4).getcByte) :
    k'.mem = update (enter k tr).mem (slot (k.thread k.scheduler.threadCurrent).sp regA0)
      (k.console.receiveBuffer.data 0).toNat := by
  rw [done]
  exact getcByte_mem (bumpSepc (enter k tr) 4)

theorem Kernel.GetcSafe.answers (safe : k.GetcSafe tr) (words : ∀ i, tr.regs i < 2 ^ 64)
    (call : tr.Calls syscallGetc) (some : k.console.receiveCnt ≠ 0)
    (done : k' = leave (bumpSepc (enter k tr) 4).getcByte) : k.GetcAnswers tr k' := by
  have mem := getc_mem done
  rcases safe with fresh | ⟨byte, there⟩
  · rw [fresh] at mem
    refine getcAnswers_of_mem words some done ?_ fun a ne => ?_
    · unfold Kernel.context
      rw [mem, update_self]
    · rw [mem, update_of_ne ne]
  · have code : (enter k tr).context tr.frame regA0 = syscallGetc :=
      (enter_arg k tr (by decide) (by decide)).trans call.2
    have still : (enter k tr).mem (slot (k.thread k.scheduler.threadCurrent).sp regA0) =
        (k.console.receiveBuffer.data 0).toNat := there.trans byte.symm
    rw [← still, update_eq_self] at mem
    refine getcAnswers_of_mem words some done ?_ fun a _ => by rw [mem]
    unfold Kernel.context
    rw [mem]
    exact code.trans byte.symm

/-- A byte that goes elsewhere changes memory there, unless it is there already. -/
theorem Kernel.GetcAnswers.safe (answers : k.GetcAnswers tr k') (words : ∀ i, tr.regs i < 2 ^ 64)
    (call : tr.Calls syscallGetc) (done : k' = leave (bumpSepc (enter k tr) 4).getcByte) :
    k.GetcSafe tr := by
  have mem := getc_mem done
  unfold Kernel.GetcSafe
  generalize (k.thread k.scheduler.threadCurrent).sp = sp at mem ⊢
  by_cases fresh : sp = tr.frame
  · exact Or.inl fresh
  have ne : slot sp regA0 ≠ slot tr.frame regA0 := slot_inj.not.mpr fresh
  have code : (enter k tr).context tr.frame regA0 = syscallGetc :=
    (enter_arg k tr (by decide) (by decide)).trans call.2
  have a0 : k'.context tr.frame regA0 = syscallGetc := by
    unfold Kernel.context
    rw [mem, update_of_ne ne.symm]
    exact code
  have frame : k'.hart.sscratch = tr.frame := by
    rw [done]
    rfl
  have byte := (resume_frame words frame answers.memory).1
  rw [answers.byte, a0] at byte
  have same := answers.memory _ ne
  rw [mem, update_self] at same
  exact Or.inr ⟨byte, same.symm.trans byte⟩

/-- **A buffered byte** reaches its caller, and only its caller, exactly when the control block
points at the frame of this trap or the byte is there already. -/
theorem getc_answers_iff (words : ∀ i, tr.regs i < 2 ^ 64) (call : tr.Calls syscallGetc)
    (some : k.console.receiveCnt ≠ 0) (taken : trap k tr = .ok k') :
    k.GetcAnswers tr k' ↔ k.GetcSafe tr := by
  have done := Except.ok.inj (taken.symm.trans (getc_trap call some))
  exact ⟨fun answers => answers.safe words call done,
    fun safe => safe.answers words call some done⟩

end

/-- A call whose frame is where the control block says. -/
theorem getc_answers_iff_small : ∃ (k : Kernel) (k' : Kernel), k.console.receiveCnt = 1 ∧
    k.console.receiveBuffer.data 0 = 7 ∧ k.GetcAnswers (userCall k syscallGetc 0 0) k' := by
  let k : Kernel := { smallKernel with
    thread := fun _ => ⟨1792, 0, 0, 0, 0⟩
    console := { smallKernel.console with receiveBuffer := ⟨0, fun _ => 7, 0⟩, receiveCnt := 1 } }
  have call : (userCall k syscallGetc 0 0).Calls syscallGetc := ⟨rfl, rfl⟩
  have some : k.console.receiveCnt ≠ 0 := Nat.one_ne_zero
  have frame : (userCall k syscallGetc 0 0).frame = 1792 :=
    show u64 ((2048 : Nat) - contextSize) = 1792 by decide
  refine ⟨k, _, rfl, rfl, (getc_answers_iff (fun i => ?_) call some (getc_trap call some)).mpr
    (Or.inl frame.symm)⟩
  show (if _ then _ else if _ then _ else if _ then _ else if _ then _ else _) < _
  repeat' split
  all_goals decide

/-! ## A stale control block -/

/-- A console interrupt of the first user thread. -/
def consoleTrap (k : Kernel) : Trap where
  scause := irqHw
  sepc := 0x80000500
  sstatus := 0
  regs := fun i => if i = regSp then 2048 else 0
  mem := k.mem
  plic := 10

/-- With nobody waiting, the byte stays in the buffer. -/
theorem consoleReceive_one {k : Kernel} (nobody : k.threadsWaitingForInput = 0)
    (none : k.console.receiveCnt = 0) (ready : k.console.status &&& consoleStatusReceive ≠ 0)
    (empty : ¬ k.console.statusRead.receiveByte.status &&& consoleStatusReceive ≠ 0) :
    (consoleReceive k).console.receiveCnt = 1 ∧ (consoleReceive k).console.receiveBuffer.data 0 =
      k.console.device.rxData k.console.device.rxReads ∧
      (consoleReceive k).scheduler = k.scheduler ∧ (consoleReceive k).hart = k.hart := by
  have loop : k.console.receiveLoop (consoleBufferSize - k.console.receiveCnt) =
      k.console.statusRead.receiveByte.statusRead := by
    rw [none]
    exact receiveLoop_one ready empty 1022
  have cnt : k.console.statusRead.receiveByte.statusRead.receiveCnt = 1 := by
    show k.console.receiveCnt + 1 = 1
    rw [none]
  have byte : k.console.statusRead.receiveByte.statusRead.receiveBuffer.data 0 =
      k.console.device.rxData k.console.device.rxReads := by
    show update k.console.receiveBuffer.data k.console.receiveCnt _ 0 = _
    rw [none, update_self]
    rfl
  generalize k.console.statusRead.receiveByte.statusRead = c at loop cnt byte
  have stays : unblockLoop 1 0 { k with console := c } = (0, { k with console := c }) := by
    unfold unblockLoop
    exact if_neg (not_not.mpr nobody)
  have run : consoleReceive k = { k with console := c.dropReceived 0 } := by
    unfold consoleReceive
    simp only [loop, cnt, stays]
  rw [run]
  refine ⟨?_, ?_, rfl, rfl⟩
  · show c.receiveCnt - 0 = 1
    rw [cnt]
  · show (c.receiveBuffer.shift 0 (c.receiveCnt - 0)).data 0 = _
    rw [cnt, ← byte]
    show update c.receiveBuffer.data 0 (c.receiveBuffer.data 0) 0 = _
    rw [update_self]

theorem byte_received : ∃ k p, Run anyTrap byteKernel k ∧ k.scheduler.threadCurrent = p ∧
    k.hart.supervisor = false ∧ k.console.receiveCnt = 1 ∧
    k.console.receiveBuffer.data 0 = 7 := by
  obtain ⟨k, b, p, user, -, device, none, -, -, run⟩ := first_user byteKernel_platform anyTrap
    fun _ _ => trivial
  let tr := consoleTrap k
  have causes : irqHw ≠ irqEcallUser ∧ irqHw ≠ irqEcallKernel := by decide
  have fits : tr.Fits k := by
    refine ⟨?_, fun h => absurd h causes.1, fun h => absurd h causes.2, fun i => ?_,
      fun h => absurd h causes.1⟩
    · exact (show (0 : Nat).testBit 8 = false by decide).trans user.mode.symm
    · show (if _ then _ else _) < _
      split <;> decide
  have nobody : k.threadsWaitingForInput = 0 :=
    (user.rest.places.rings.ring .input trivial).head_null.mpr (user.idle .input)
  have taken : trap k tr = .ok (leave (consoleSend (consoleReceive (enter k tr)))) := rfl
  have status : ∀ n, k.console.device.status n = if n = 0 then consoleStatusReceive else 0 := by
    rw [device]
    exact fun _ => rfl
  have reads : k.console.device.statusReads = 0 := by
    rw [device]
    rfl
  obtain ⟨cnt, byte, sched, hart⟩ := @consoleReceive_one (enter k tr) nobody none
    (by
      show k.console.device.status k.console.device.statusReads &&& _ ≠ 0
      rw [status, reads]
      decide)
    (by
      show ¬ k.console.device.status (k.console.device.statusReads + 1) &&& _ ≠ 0
      rw [status, reads]
      decide)
  obtain ⟨chars, sent⟩ := Console.send_spec (consoleReceive (enter k tr)).console
  refine ⟨_, k.scheduler.threadCurrent, .trap run fits trivial taken, congrArg _ sched, ?_, ?_, ?_⟩
  · show (consoleReceive (enter k tr)).hart.sstatus.testBit 8 = false
    rw [hart]
    exact (show (0 : Nat).testBit 8 = false by decide)
  · exact sent.input.cnt.trans cnt
  · show (Console.send _).receiveBuffer.data 0 = 7
    rw [sent.input.buffer, byte]
    show k.console.device.rxData _ = 7
    rw [device]
    rfl

/-- A call of `getc` with the stack pointer `sp`. -/
def getcCall (k : Kernel) (sp : Nat) : Trap where
  scause := irqEcallUser
  sepc := 0x80000500
  sstatus := 0
  regs := fun i => if i = regA0 then syscallGetc else if i = regSp then sp else 0
  mem := k.mem
  plic := 0

/-- A byte has arrived, and the first user thread calls `getc` with its frame elsewhere than in
its control block: `a0` keeps the code of the call. -/
theorem getc_loses_byte : ∃ k tr k', Run anyTrap byteKernel k ∧ tr.Fits k ∧ tr.Calls syscallGetc ∧
    k.console.receiveCnt = 1 ∧ trap k tr = .ok k' ∧ ¬ k.GetcAnswers tr k' := by
  obtain ⟨k, p, run, current, mode, cnt, byte⟩ := byte_received
  -- a stack pointer that takes the frame elsewhere
  obtain ⟨sp, word, apart⟩ : ∃ sp < 2 ^ 64,
      (k.thread k.scheduler.threadCurrent).sp ≠ u64 ((sp : Nat) - contextSize) := by
    by_cases here : (k.thread k.scheduler.threadCurrent).sp = 1792
    · refine ⟨4096, by decide, ?_⟩
      rw [here]
      decide
    · refine ⟨2048, by decide, ?_⟩
      rw [show u64 ((2048 : Nat) - contextSize) = 1792 by decide]
      exact here
  have words : ∀ i, (getcCall k sp).regs i < 2 ^ 64 := by
    intro i
    show (if _ then _ else if _ then _ else _) < _
    repeat' split
    all_goals first | decide | assumption
  have call : (getcCall k sp).Calls syscallGetc := ⟨rfl, rfl⟩
  have some : k.console.receiveCnt ≠ 0 := by
    rw [cnt]
    decide
  have fits : (getcCall k sp).Fits k := by
    have cause : irqEcallUser ≠ irqEcallKernel := by decide
    have code : (getcCall k sp).regs regA0 = syscallGetc := rfl
    refine ⟨?_, fun _ => mode, fun h => absurd h cause, words, fun _ => ⟨?_, ?_, ?_, ?_, ?_, ?_⟩⟩
    · exact (show (0 : Nat).testBit 8 = false by decide).trans mode.symm
    all_goals
      rw [code]
    · decide
    all_goals exact fun h => absurd h (by decide)
  refine ⟨k, _, _, run, fits, call, cnt, getc_trap call some, fun answers => ?_⟩
  rcases answers.safe words call rfl with same | ⟨code, -⟩
  · exact apart same
  · rw [byte] at code
    exact absurd code (by decide)

end RiscvKernel
