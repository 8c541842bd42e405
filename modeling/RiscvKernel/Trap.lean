import RiscvKernel.Console
import RiscvKernel.Semaphore

/-!
# Traps (`trap.S`, `main.c`)

`trap` is one passage through `irq_wrap`: the interrupted code has left its
registers and the memory as the trap finds them, the handler runs, and the hart
goes on in the thread that is then current.
-/

namespace RiscvKernel
open Function

abbrev irqTimer : Nat := 2 ^ 63 + 0x1
abbrev irqHw : Nat := 2 ^ 63 + 0x9
abbrev irqIllegalOp : Nat := 0x2
abbrev irqIllegalRead : Nat := 0x5
abbrev irqIllegalWrite : Nat := 0x7
abbrev irqEcallUser : Nat := 0x8
abbrev irqEcallKernel : Nat := 0x9

abbrev syscallMemAlloc : Nat := 0x1
abbrev syscallThreadCreate : Nat := 0x11
abbrev syscallThreadExit : Nat := 0x12
abbrev syscallThreadDispatch : Nat := 0x13
abbrev syscallSemOpen : Nat := 0x21
abbrev syscallSemClose : Nat := 0x22
abbrev syscallSemWait : Nat := 0x23
abbrev syscallSemSignal : Nat := 0x24
abbrev syscallSemTimedWait : Nat := 0x25
abbrev syscallTimedSleep : Nat := 0x31
abbrev syscallGetc : Nat := 0x41
abbrev syscallPutc : Nat := 0x42
abbrev syscallKernelDispatch : Nat := 0x91

/-- The character in a register. -/
def charOf (r : Nat) : UInt8 := UInt8.ofNat r

/-- `sepc += d` -/
def bumpSepc (k : Kernel) (d : Int) : Kernel :=
  { k with hart := { k.hart with sepc := u64 (k.hart.sepc + d) } }

/-! ## The handler -/

/-- The current thread goes to the end of the ready queue and gives up the hart. -/
def dispatch (k : Kernel) : Kernel :=
  let threadCurrent := k.scheduler.threadCurrent
  let k := schedulerPush k threadCurrent
  yield (schedulerNext k).2 threadCurrent (schedulerNext k).1

def handleTimer (k : Kernel) : Except Halt Kernel := do
  let k ← schedulerTick k
  let threadCurrent := k.scheduler.threadCurrent
  let k := k.modifyThread threadCurrent fun t => { t with timeLeft := u64 (t.timeLeft - 1) }
  if (k.thread threadCurrent).timeLeft = 0 then
    return dispatch k
  return k

/-- `IRQ_HW`; `plic` is what `plic_claim` returns. -/
def handleHw (plic : Int) (k : Kernel) : Kernel :=
  if plic = 10 then consoleSend (consoleReceive k) else k

def handleMemAlloc (k : Kernel) (context : Nat) : Except Halt Kernel := do
  let nblocks := k.context context regA1
  let (result, k) ← k.alloc nblocks
  let k := if result = 0 then k else
    k.note fun h => { h with userBlocks := (result, nblocks) :: h.userBlocks }
  return k.setContext context regA0 result

/-- Either the byte is in the frame already or the thread is blocked. -/
def handleGetc (k : Kernel) : Kernel := (getc k).2

/-- A refused `putc` is executed again when the thread next runs. -/
def handlePutc (k : Kernel) (context : Nat) : Kernel :=
  let c := charOf (k.context context regA1)
  let threadCurrent := k.scheduler.threadCurrent
  let put := k.console.putc c
  let k := { k with console := put.2 }
  if put.1 ≠ 0 then
    let k := bumpSepc k (-4)
    let k := k.modifyThread threadCurrent fun t => { t with sepc := u64 (k.hart.sepc - 4) }
    let k := k.note fun h =>
      { h with past := update h.past threadCurrent (h.past threadCurrent).refuse }
    dispatch k
  else
    k.note fun h => { h with accepted := h.accepted ++ [(threadCurrent, c)] }

def handleThreadCreate (k : Kernel) (context : Nat) : Except Halt Kernel := do
  let (result, k) ← threadCreate k (k.context context regA1) (k.context context regA2)
    (k.context context regA3) (k.context context regA4) .user
  return k.setContext context regA0 (u64 result)

def handleSemOpen (k : Kernel) (context : Nat) : Except Halt Kernel := do
  let (res, k) ← semOpen k (k.context context regA1) (k.context context regA2 % 2 ^ 32)
  return k.setContext context regA0 (u64 res)

def handleSemClose (k : Kernel) (context : Nat) : Except Halt Kernel := do
  let (res, k) ← semClose k (k.context context regA1)
  return k.setContext context regA0 (u64 res)

def handleSemWait (k : Kernel) (context : Nat) : Kernel :=
  let waited := semWait k (k.context context regA1)
  if waited.1 ≠ 0 then waited.2 else waited.2.setContext context regA0 0

def handleSemSignal (k : Kernel) (context : Nat) : Except Halt Kernel := do
  let (res, k) ← semSignal k (k.context context regA1)
  return k.setContext context regA0 (u64 res)

def handleSemTimedWait (k : Kernel) (context : Nat) : Except Halt Kernel := do
  let (res, k) ← semTimedWait k (k.context context regA1) (k.context context regA2)
  if res ≠ 0 then
    return k
  return k.setContext context regA0 0

def handleTimedSleep (k : Kernel) (context : Nat) : Except Halt Kernel := do
  let time := k.context context regA1
  let k := k.setContext context regA0 0
  if time = 0 then
    return k
  let k ← schedulerTimeout k k.scheduler.threadCurrent time 0
  return switch k

/-- The inner `switch` of `IRQ_ECALL_USER`; other codes change nothing. -/
def handleSyscall (k : Kernel) (context code : Nat) : Except Halt Kernel :=
  if code = syscallMemAlloc then handleMemAlloc k context
  else if code = syscallGetc then .ok (handleGetc k)
  else if code = syscallPutc then .ok (handlePutc k context)
  else if code = syscallThreadCreate then handleThreadCreate k context
  else if code = syscallThreadExit then threadExit k
  else if code = syscallThreadDispatch then .ok (dispatch k)
  else if code = syscallSemOpen then handleSemOpen k context
  else if code = syscallSemClose then handleSemClose k context
  else if code = syscallSemWait then .ok (handleSemWait k context)
  else if code = syscallSemSignal then handleSemSignal k context
  else if code = syscallSemTimedWait then handleSemTimedWait k context
  else if code = syscallTimedSleep then handleTimedSleep k context
  else .ok k

def handleEcallUser (k : Kernel) : Except Halt Kernel :=
  let context := k.hart.sscratch
  handleSyscall (bumpSepc k 4) context (k.context context regA0)

/-- `kernel_main` gives up the hart and is not queued. -/
def handleEcallKernel (k : Kernel) : Kernel :=
  let context := k.hart.sscratch
  let k := bumpSepc k 4
  if k.context context regA0 = syscallKernelDispatch then
    let threadNext := (schedulerNext k).1
    let k := switch k
    { k with hart := { k.hart with sscratch := (k.thread threadNext).sp } }
  else k

/-- `irq_handler` -/
def irqHandler (plic : Int) (k : Kernel) : Except Halt Kernel :=
  if k.hart.scause = irqTimer then handleTimer k
  else if k.hart.scause = irqHw then .ok (handleHw plic k)
  else if k.hart.scause = irqIllegalOp then .error (.panic "Illegal operation\n")
  else if k.hart.scause = irqIllegalRead then .error (.panic "Illegal read\n")
  else if k.hart.scause = irqIllegalWrite then .error (.panic "Illegal write\n")
  else if k.hart.scause = irqEcallUser then handleEcallUser k
  else if k.hart.scause = irqEcallKernel then .ok (handleEcallKernel k)
  else .ok k

/-! ## `irq_wrap` -/

/-- What a trap finds: its cause, the interrupted code's registers and
memory, and the answer of the interrupt controller. -/
structure Trap where
  scause : Nat
  sepc : Nat
  sstatus : Nat
  regs : Nat → Nat
  mem : Nat → Nat
  plic : Int

/-- The frame of the interrupted code. -/
def Trap.frame (tr : Trap) : Nat := u64 (tr.regs regSp - contextSize)

/-- What `sd` stores for register `i`: `x0` is zero and `sp` already is the frame. -/
def Trap.saved (tr : Trap) (i : Nat) : Nat :=
  if i = 0 then 0 else if i = regSp then tr.frame else tr.regs i

/-- The stores of the first `n` registers. -/
def saveRegs (tr : Trap) : Nat → (Nat → Nat) → Nat → Nat
  | 0, m => m
  | n + 1, m => update (saveRegs tr n m) (slot tr.frame n) (tr.saved n)

/-- `irq_wrap` up to the call of the handler. -/
def enter (k : Kernel) (tr : Trap) : Kernel :=
  { k with
    mem := saveRegs tr 32 tr.mem
    hart := { k.hart with
      scause := tr.scause, sepc := tr.sepc, sstatus := tr.sstatus, sscratch := tr.frame
      gp := tr.regs regGp, tp := tr.regs regTp }
    hist := { k.hist with
      past := update k.hist.past k.scheduler.threadCurrent
        (.trapped tr.scause tr.sepc tr.sstatus tr.regs false) } }

/-- The registers the hart goes on with. -/
structure Resume where
  pc : Nat
  sstatus : Nat
  regs : Nat → Nat

/-- `irq_wrap` after the handler: `ld x2` comes third, and what follows is
loaded relative to the new `sp`. -/
def resume (k : Kernel) : Resume where
  pc := k.hart.sepc
  sstatus := k.hart.sstatus
  regs := fun i =>
    let sp := k.context k.hart.sscratch regSp
    if i = 0 then 0
    else if i = regRa then k.context k.hart.sscratch regRa
    else if i = regSp then u64 (sp + contextSize)
    else k.context sp i

/-- `sret` -/
def leave (k : Kernel) : Kernel :=
  { k with hart := { k.hart with supervisor := k.hart.sstatus.testBit 8 } }

def trap (k : Kernel) (tr : Trap) : Except Halt Kernel := do
  let k ← irqHandler tr.plic (enter k tr)
  return leave k

/-! ## `main` -/

def schedulerInit (k : Kernel) (kernelMain : Nat) : Except Halt Kernel := do
  let (schedulerPtr, k) ← k.alloc (sizeInBlocks 40)
  if schedulerPtr = 0 then
    throw (.panic "Failed to allocate scheduler\n")
  return { k with
    schedulerPtr
    scheduler := {
      userThreadCount := 0, readyThreads := 0, sleepingThreads := 0
      kernelMain, threadCurrent := kernelMain } }

/-- `main` up to its first `ecall`. -/
def boot (k : Kernel) : Except Halt Kernel := do
  let ((), heap) ← memInit k.heap
  let k ← consoleInit { k with heap }
  let (kernelMain, k) ← k.alloc (sizeInBlocks 56)
  if kernelMain = 0 then
    throw (.panic "Failed to allocate kernel main thread\n")
  let k := k.modifyThread kernelMain fun t => { t with bp := 0, timeLeft := 1 }
  let k ← schedulerInit k kernelMain
  let (systemStack, k) ← k.alloc (sizeInBlocks defaultStackSize)
  let (userStack, k) ← k.alloc (sizeInBlocks defaultStackSize)
  if systemStack = 0 then
    throw (.panic "Failed to allocate system stack\n")
  if userStack = 0 then
    throw (.panic "Failed to allocate user main stack")
  let k := { k with systemStack := u64 (systemStack + defaultStackSize - 8) }
  let (failed, k) ← threadCreate k k.image.userMainVar k.image.userMain 0
    (u64 (userStack + defaultStackSize - 8)) .user
  if failed ≠ 0 then
    throw (.panic "Failed to allocate user main thread\n")
  return k

end RiscvKernel
