import RiscvKernel.Scheduler

/-!
# Semaphores and threads (`semaphore.c`, `thread.c`)
-/

namespace RiscvKernel
open Function Intrusive

/-! ## `semaphore.c` -/

abbrev semCreateNoMemory : Int := -1
abbrev semClosedExternally : Int := -1
abbrev semSignalNoThreads : Int := -1

/-- `semaphores[sem_cnt] = new_sem; sem_cnt++;`, and the first one. -/
def SemTable.add (t : SemTable) (newSem : Nat) : SemTable where
  firstSemaphore := if t.firstSemaphore = 0 then newSem else t.firstSemaphore
  semaphores := update t.semaphores t.semCnt newSem
  semCnt := t.semCnt + 1

def semOpen (k : Kernel) (handle init : Nat) : Except Halt (Int × Kernel) := do
  let (newSem, k) ← k.alloc (sizeInBlocks 16)
  if newSem = 0 then
    return (semCreateNoMemory, k)
  let k := k.modifySem newSem fun _ =>
    { val := toI32 init, init := toI32 init, waitingThreads := 0 }
  let k := k.poke handle newSem
  let k := { k with semTable := k.semTable.add newSem }
  return (0, k.note fun h => { h with
    opened := newSem :: h.opened
    waits := update h.waits newSem 0
    signals := update h.signals newSem 0
    blocked := update h.blocked newSem [] })

/-- The loop of `__sem_close`, for at most `fuel` rounds. -/
def semCloseLoop (firstThread : Nat) : Nat → Kernel → Nat → Except Halt Kernel
  | 0, _, _ => throw .stuck
  | fuel + 1, k, currentThread =>
    let nextThread := k.links.next currentThread
    let context := (k.thread currentThread).sp
    let k := schedulerPush k currentThread
    let k := k.setContext context regA0 (u64 semClosedExternally)
    if nextThread = firstThread then
      return k
    else
      semCloseLoop firstThread fuel k nextThread

def semClose (k : Kernel) (handle : Nat) : Except Halt (Int × Kernel) := do
  let k := k.note fun h => { h with opened := h.opened.erase handle }
  let first := (k.sem handle).waitingThreads
  let k ← if first ≠ 0 then semCloseLoop first (k.heap.nMemBlocks + 1) k first else pure k
  let k ← freeOrPanic k handle "Failed to free semaphore, memory corruption\n"
  return (0, k)

def semPush (k : Kernel) (handle thread : Nat) : Kernel :=
  let pushed := k.links.push (k.sem handle).waitingThreads thread
  { k.modifySem handle fun s => { s with waitingThreads := pushed.2 } with
    links := pushed.1
    hist := { k.hist with
      blocked := update k.hist.blocked handle (k.hist.blocked handle ++ [thread]) } }

/-- `__sem_wait`; the result is 1 when the calling thread was blocked. -/
def semWait (k : Kernel) (handle : Nat) : Int × Kernel :=
  let k := k.modifySem handle fun s => { s with val := toI32 (s.val - 1) }
  let k := k.note fun h => { h with waits := update h.waits handle (h.waits handle + 1) }
  if (k.sem handle).val < 0 then
    let threadCurrent := k.scheduler.threadCurrent
    (1, semPush (switch k) handle threadCurrent)
  else
    (0, k)

def semNext (k : Kernel) (handle : Nat) : Nat × Kernel :=
  let nextThread := (k.sem handle).waitingThreads
  let popped := k.links.pop nextThread
  (nextThread,
    { k.modifySem handle fun s => { s with waitingThreads := popped.2 } with links := popped.1 })

def semUnblockThread (k : Kernel) (handle : Nat) : Except Halt Kernel := do
  let unblockedThread := (semNext k handle).1
  let k := (semNext k handle).2
  let k ← if (k.thread unblockedThread).timeLeft = 0 then
      schedulerRemoveTimeout k unblockedThread
    else pure k
  let k := k.setContext (k.thread unblockedThread).sp regA0 0
  return schedulerPush k unblockedThread

def semSignal (k : Kernel) (handle : Nat) : Except Halt (Int × Kernel) := do
  let k := k.modifySem handle fun s => { s with val := toI32 (s.val + 1) }
  let k := k.note fun h => { h with signals := update h.signals handle (h.signals handle + 1) }
  if (k.sem handle).val ≤ 0 then
    if (k.sem handle).waitingThreads = 0 then
      return (semSignalNoThreads, k)
    let k ← semUnblockThread k handle
    return (0, k)
  return (0, k)

def semTimedWait (k : Kernel) (handle time : Nat) : Except Halt (Int × Kernel) := do
  let threadCurrent := k.scheduler.threadCurrent
  let k := k.modifyThread threadCurrent fun t => { t with timeLeft := 0 }
  let k ← schedulerTimeout k threadCurrent time handle
  return semWait k handle

/-! ## `thread.c` -/

inductive ExecMode where
  | user
  | kernel
  deriving DecidableEq

abbrev threadCreateNoMemory : Int := -1

/-- The `sstatus` a new thread starts with: `SPP` says its mode. -/
def ExecMode.sstatus (mode : ExecMode) (sstatus : Nat) : Nat :=
  match mode with
  | .user => sstatus &&& (2 ^ 64 - 1 - 2 ^ 8)
  | .kernel => (sstatus ||| 2 ^ 8) &&& (2 ^ 64 - 1 - 2 ^ 1)

/-- `__thread_create` after its allocation: the first frame of the new thread. -/
def threadFrame (k : Kernel) (sp startF arg : Nat) : Kernel :=
  let k := k.setContext sp regSp sp
  let k := k.setContext sp regA0 startF
  let k := k.setContext sp regA1 arg
  let k := k.setContext sp regGp k.hart.gp
  k.setContext sp regTp k.hart.tp

/-- The block of the stack that ends at `stackSpace`. -/
def stackBlock (stackSpace : Nat) : Nat × Nat :=
  (u64 (stackSpace - defaultStackSize + 8), sizeInBlocks defaultStackSize)

def threadCreate (k : Kernel) (handle startF arg stackSpace : Nat) (mode : ExecMode) :
    Except Halt (Int × Kernel) := do
  let (newThread, k) ← k.alloc (sizeInBlocks 56)
  if newThread = 0 then
    return (threadCreateNoMemory, k)
  let sp := u64 (stackSpace - contextSize)
  let k := k.modifyThread newThread fun _ => {
    sp
    bp := u64 (stackSpace - defaultStackSize + 8)
    timeLeft := defaultTimeSlice
    sstatus := mode.sstatus k.hart.sstatus
    sepc := k.image.threadWrapper }
  let k := threadFrame k sp startF arg
  let k := if mode = .user then schedulerUserThreadIncrement k else k
  let k := k.poke handle newThread
  let k := schedulerPush k newThread
  return (0, k.note fun h => { h with
    live := if mode = .user then newThread :: h.live else h.live
    userBlocks := h.userBlocks.erase (stackBlock stackSpace)
    past := update h.past newThread (.created startF arg stackSpace) })

def threadDelete (k : Kernel) (thread : Nat) : Except Halt Kernel := do
  if (k.thread thread).sp < (k.thread thread).bp then
    throw (.panic "Stack overflow\n")
  let k ← freeOrPanic k (k.thread thread).bp "Failed to free thread stack, memory corruption\n"
  freeOrPanic k thread "Failed to free thread, memory corruption\n"

def threadExit (k : Kernel) : Except Halt Kernel := do
  let k := if k.hart.sstatus.testBit 8 then k else schedulerUserThreadDecrement k
  let threadCurrent := k.scheduler.threadCurrent
  let k := k.note fun h => { h with live := h.live.erase threadCurrent }
  threadDelete (switch k) threadCurrent

end RiscvKernel
