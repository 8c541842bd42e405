import RiscvKernel.Mem
import RiscvKernel.Ring

/-!
# The kernel state

One map for each C struct, from the address of a struct to its members, and
one map for the words of the rest of memory: stacks, saved frames and user data.
A thread is the address of its `struct __thread_t`, and so is its `list_node`:
`container_of` is the identity. The same holds for the records of the
sleeping list.
-/

namespace RiscvKernel
open Function Intrusive

/-- `struct __thread_t`, less its `list_node`. -/
structure Thread where
  sp : Nat
  bp : Nat
  sstatus : Nat
  sepc : Nat
  timeLeft : Nat

/-- `struct __sleeping_thread_t`, less its `list_node`. -/
structure SleepingThread where
  thread : Nat
  semaphore : Nat
  delta : Nat

/-- `struct __sem_t`. -/
structure Sem where
  val : Int
  init : Int
  waitingThreads : Nat

/-- `struct __scheduler_t`. -/
structure Scheduler where
  userThreadCount : Nat
  readyThreads : Nat
  sleepingThreads : Nat
  threadCurrent : Nat
  kernelMain : Nat

/-- The debug table of `semaphore.c`. -/
structure SemTable where
  firstSemaphore : Nat
  semaphores : Nat → Nat
  semCnt : Nat

/-! ## The console -/

abbrev consoleBufferSize : Nat := 1024
abbrev consoleStatusSend : UInt8 := 0x20
abbrev consoleStatusReceive : UInt8 := 0x1

/-- A character array at `addr`. `reach` is a history variable: every element
accessed so far has an index below it. -/
structure Buffer where
  addr : Nat
  data : Nat → UInt8
  reach : Nat

def Buffer.touch (b : Buffer) (i : Nat) : Buffer := { b with reach := max b.reach (i + 1) }

def Buffer.store (b : Buffer) (i : Nat) (c : UInt8) : Buffer :=
  { b.touch i with data := update b.data i c }

/-- `for(i = 0; i < n; i++) buffer[i] = buffer[offset + i];` -/
def Buffer.shift (offset : Nat) : Nat → Buffer → Buffer
  | 0, b => b
  | n + 1, b =>
    let b := Buffer.shift offset n b
    (b.touch (offset + n)).store n (b.data (offset + n))

/-- The device: `status n` is what the `n`-th read of `CONSOLE_STATUS` gives,
`rxData n` the `n`-th byte read from `CONSOLE_RX_DATA`, and `transmitted` what
was written to `CONSOLE_TX_DATA`. -/
structure Device where
  status : Nat → UInt8
  rxData : Nat → UInt8
  statusReads : Nat
  rxReads : Nat
  transmitted : List UInt8

/-- The globals of `console.c` and the device. -/
structure Console where
  receiveBuffer : Buffer
  sendBuffer : Buffer
  receiveCnt : Nat
  sendCnt : Nat
  device : Device

/-! ## The hart -/

/-- The registers the handler uses. `supervisor` is the mode the interrupted
code runs in. -/
structure Hart where
  scause : Nat
  sepc : Nat
  sstatus : Nat
  sscratch : Nat
  gp : Nat
  tp : Nat
  supervisor : Bool

/-- Addresses the linker fixes: `__thread_wrapper`, `userMain` and the
variable `user_main`. -/
structure Image where
  threadWrapper : Nat
  userMain : Nat
  userMainVar : Nat

/-! ## History -/

/-- What a thread last did: it was created, or it entered the kernel. -/
inductive Past where
  | created (startF arg stackSpace : Nat)
  | trapped (scause sepc sstatus : Nat) (regs : Nat → Nat) (refused : Bool)

/-- The past of a thread whose `putc` was refused. -/
def Past.refuse : Past → Past
  | .created startF arg stackSpace => .created startF arg stackSpace
  | .trapped scause sepc sstatus regs _ => .trapped scause sepc sstatus regs true

/-- History variables: no code reads them.

* `live`, `opened`: threads created and not exited, semaphores opened and not closed;
* `userBlocks`: what `mem_alloc` gave to user code, less the stacks of live threads;
* `pushed`: the calls of `__scheduler_push`;
* `waits`, `signals`, `blocked`: for each semaphore, since it was opened;
* `handed`, `inputBlocked`, `served`: bytes given to `getc` calls, threads that
  blocked in `getc`, and those of them that got their byte;
* `accepted`: the characters that `putc` put into the send buffer;
* `past`: what each thread did last. -/
structure History where
  live : List Nat
  opened : List Nat
  userBlocks : List (Nat × Nat)
  pushed : List Nat
  waits : Nat → Nat
  signals : Nat → Nat
  blocked : Nat → List Nat
  handed : List UInt8
  inputBlocked : List Nat
  served : List (Nat × UInt8)
  accepted : List (Nat × UInt8)
  past : Nat → Past

/-! ## The kernel -/

structure Kernel where
  image : Image
  heap : Heap
  thread : Nat → Thread
  links : Links
  sleeping : Nat → SleepingThread
  sleepLinks : Links
  sem : Nat → Sem
  schedulerPtr : Nat
  scheduler : Scheduler
  semTable : SemTable
  console : Console
  threadsWaitingForInput : Nat
  systemStack : Nat
  mem : Nat → Nat
  hart : Hart
  hist : History

namespace Kernel

def modifyThread (k : Kernel) (t : Nat) (f : Thread → Thread) : Kernel :=
  { k with thread := update k.thread t (f (k.thread t)) }

def modifySem (k : Kernel) (s : Nat) (f : Sem → Sem) : Kernel :=
  { k with sem := update k.sem s (f (k.sem s)) }

def modifySleeping (k : Kernel) (r : Nat) (f : SleepingThread → SleepingThread) : Kernel :=
  { k with sleeping := update k.sleeping r (f (k.sleeping r)) }

/-- Store a word. -/
def poke (k : Kernel) (a v : Nat) : Kernel := { k with mem := update k.mem a v }

/-- Record something in the history. -/
def note (k : Kernel) (f : History → History) : Kernel := { k with hist := f k.hist }

/-- `__mem_alloc`. -/
def alloc (k : Kernel) (nblocks : Nat) : Except Halt (Nat × Kernel) := do
  let (p, h) ← memAlloc nblocks k.heap
  return (p, { k with heap := h })

/-- `__mem_free`. -/
def free (k : Kernel) (ptr : Nat) : Except Halt (Int × Kernel) := do
  let (r, h) ← memFree ptr k.heap
  return (r, { k with heap := h })

end Kernel

/-! ## Saved registers

`struct __context_t` is the frame `irq_wrap` saves: word `i` holds register `x i`. -/

abbrev regRa : Nat := 1
abbrev regSp : Nat := 2
abbrev regGp : Nat := 3
abbrev regTp : Nat := 4
abbrev regA0 : Nat := 10
abbrev regA1 : Nat := 11
abbrev regA2 : Nat := 12
abbrev regA3 : Nat := 13
abbrev regA4 : Nat := 14

/-- The address of word `i` of the frame at `context`. -/
def slot (context i : Nat) : Nat := context + 8 * i

/-- The size of a frame. -/
abbrev contextSize : Nat := 0x100

/-- `context->reg` -/
def Kernel.context (k : Kernel) (context i : Nat) : Nat := k.mem (slot context i)

/-- `context->reg = v` -/
def Kernel.setContext (k : Kernel) (context i v : Nat) : Kernel := k.poke (slot context i) v

end RiscvKernel
