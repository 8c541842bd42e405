import RiscvKernel.State

/-!
# The scheduler (`list.c`, `scheduler.c`, `yield`)

`list_insert` is `Links.insert`. The three queues of threads are rings through
one `list_node` in each thread; appending to a ring and taking its first node
are `Links.push` and `Links.pop`.
-/

namespace RiscvKernel
open Function Intrusive

def schedulerPush (k : Kernel) (newThread : Nat) : Kernel :=
  let k := k.modifyThread newThread fun t => { t with timeLeft := defaultTimeSlice }
  let pushed := k.links.push k.scheduler.readyThreads newThread
  { k with
    links := pushed.1
    scheduler := { k.scheduler with readyThreads := pushed.2 }
    hist := { k.hist with pushed := k.hist.pushed ++ [newThread] } }

/-- `__scheduler_next`: the next thread, which becomes the current one. -/
def schedulerNext (k : Kernel) : Nat × Kernel :=
  if k.scheduler.readyThreads = 0 then
    (k.scheduler.kernelMain,
      { k with scheduler := { k.scheduler with threadCurrent := k.scheduler.kernelMain } })
  else
    let nextThread := k.scheduler.readyThreads
    let popped := k.links.pop nextThread
    (nextThread,
      { k with
        links := popped.1
        scheduler :=
          { k.scheduler with readyThreads := popped.2, threadCurrent := nextThread } })

def schedulerUserThreadIncrement (k : Kernel) : Kernel :=
  { k with scheduler :=
    { k.scheduler with userThreadCount := u64 (k.scheduler.userThreadCount + 1) } }

def schedulerUserThreadDecrement (k : Kernel) : Kernel :=
  { k with scheduler :=
    { k.scheduler with userThreadCount := u64 (k.scheduler.userThreadCount - 1) } }

/-- `yield`: the registers of `threadOld` go to its control block, and those of
`threadNew` come from its own. -/
def yield (k : Kernel) (threadOld threadNew : Nat) : Kernel :=
  if threadOld = threadNew then
    k.modifyThread threadOld fun t => { t with sp := k.hart.sscratch }
  else
    let new := k.thread threadNew
    let old := { k.thread threadOld with
      sstatus := k.hart.sstatus, sepc := k.hart.sepc, sp := k.hart.sscratch }
    { k with
      thread := update k.thread threadOld old
      hart := { k.hart with sstatus := new.sstatus, sepc := new.sepc, sscratch := new.sp } }

/-- The current thread gives up the hart:
`thread_next = __scheduler_next(); yield(thread_current, thread_next);` -/
def switch (k : Kernel) : Kernel :=
  yield (schedulerNext k).2 k.scheduler.threadCurrent (schedulerNext k).1

/-! ## The sleeping list -/

/-- `if(__mem_free(ptr)) __panic(msg);` -/
def freeOrPanic (k : Kernel) (ptr : Nat) (msg : String) : Except Halt Kernel := do
  let (r, k) ← k.free ptr
  if r ≠ 0 then
    throw (.panic msg)
  return k

abbrev sleepingFreeFailed : String :=
  "Failed to free sleeping thread struct, memory corruption\n"

/-- A new record of the sleeping list, not linked yet. -/
def newSleeping (k : Kernel) (thread semaphore delta : Nat) : Except Halt (Nat × Kernel) := do
  let (r, k) ← k.alloc (sizeInBlocks 40)
  if r = 0 then
    throw .nullPointer
  return (r, k.modifySleeping r fun _ => { thread, semaphore, delta })

/-- The loop of `__scheduler_timeout`: the record to insert before, and the sum
of the deltas up to it. -/
def timeoutSearch (k : Kernel) (time : Nat) : Nat → Nat → Nat → Except Halt (Nat × Nat)
  | 0, _, _ => throw .stuck
  | fuel + 1, node, delta =>
    let delta := u64 (delta + (k.sleeping node).delta)
    let node := k.sleepLinks.next node
    if node ≠ k.scheduler.sleepingThreads ∧ u64 (delta + (k.sleeping node).delta) < time then
      timeoutSearch k time fuel node delta
    else
      return (node, delta)

def schedulerTimeout (k : Kernel) (thread time semaphore : Nat) : Except Halt Kernel := do
  let head := k.scheduler.sleepingThreads
  if head = 0 then
    let (r, k) ← newSleeping k thread semaphore time
    return { k with
      sleepLinks := (k.sleepLinks.setNext r r).setPrev r r
      scheduler := { k.scheduler with sleepingThreads := r } }
  if time < (k.sleeping head).delta then
    let k := k.modifySleeping head fun s => { s with delta := u64 (s.delta - time) }
    let (r, k) ← newSleeping k thread semaphore time
    -- the writes of `list_insert`
    return { k with
      sleepLinks := k.sleepLinks.insert head r
      scheduler := { k.scheduler with sleepingThreads := r } }
  let (node, delta) ← timeoutSearch k time (k.heap.nMemBlocks + 1) head 0
  let (r, k) ← newSleeping k thread semaphore (u64 (time - delta))
  let k := { k with sleepLinks := k.sleepLinks.insert node r }
  if node ≠ k.scheduler.sleepingThreads then
    return k.modifySleeping node fun s => { s with delta := u64 (s.delta - (k.sleeping r).delta) }
  return k

/-- The loop of `__scheduler_remove_timeout`. -/
def removeTimeoutSearch (k : Kernel) (thread : Nat) : Nat → Nat → Except Halt Nat
  | 0, _ => throw .stuck
  | fuel + 1, node =>
    if (k.sleeping node).thread ≠ thread ∧
        k.sleepLinks.next node ≠ k.scheduler.sleepingThreads then
      removeTimeoutSearch k thread fuel (k.sleepLinks.next node)
    else
      return node

def schedulerRemoveTimeout (k : Kernel) (thread : Nat) : Except Halt Kernel := do
  let head := k.scheduler.sleepingThreads
  if head = 0 then
    throw (.panic "Thread lost 1\n")
  if k.sleepLinks.next head = head then
    if (k.sleeping head).thread ≠ thread then
      throw (.panic "Thread lost 2\n")
    let k ← freeOrPanic k head sleepingFreeFailed
    return { k with scheduler := { k.scheduler with sleepingThreads := 0 } }
  let node ← removeTimeoutSearch k thread (k.heap.nMemBlocks + 1) head
  if (k.sleeping node).thread ≠ thread then
    throw (.panic "Thread lost 3\n")
  if k.sleepLinks.next node = k.scheduler.sleepingThreads then
    freeOrPanic { k with sleepLinks := k.sleepLinks.unlink node } node sleepingFreeFailed
  else
    let delta := (k.sleeping node).delta
    let k := k.modifySleeping (k.sleepLinks.next node) fun s =>
      { s with delta := u64 (s.delta + delta) }
    freeOrPanic { k with sleepLinks := k.sleepLinks.unlink node } node sleepingFreeFailed

abbrev semWaitTimeout : Int := -2

/-- `__sem_remove_thread`. The loop that looks for the thread starts at the
node it looks for, so it is always the first waiting thread that is unlinked. -/
def semRemoveThread (k : Kernel) (handle thread : Nat) : Except Halt Kernel := do
  let head := (k.sem handle).waitingThreads
  if head = 0 then
    throw (.panic "Thread lost")
  let k := k.modifySem handle fun s => { s with val := toI32 (s.val + 1) }
  if head = k.links.next head then
    return k.modifySem handle fun s => { s with waitingThreads := 0 }
  let k := { k with links := k.links.unlink head }
  return k.setContext (k.thread thread).sp regA0 (u64 semWaitTimeout)

/-- A round of the loop of `__scheduler_tick`, up to the push. -/
def wakeSleeper (k : Kernel) (first : Nat) : Except Halt Kernel := do
  let k ← if (k.sleeping first).semaphore ≠ 0 then
      semRemoveThread k (k.sleeping first).semaphore (k.sleeping first).thread
    else pure k
  return schedulerPush k (k.sleeping first).thread

/-- The loop of `__scheduler_tick`, for at most `fuel` rounds. -/
def tickLoop : Nat → Kernel → Nat → Except Halt Kernel
  | 0, _, _ => throw .stuck
  | fuel + 1, k, first => do
    if (k.sleeping first).delta ≠ 0 then
      return k
    let head := k.scheduler.sleepingThreads
    if k.sleepLinks.next head = head then
      let k ← wakeSleeper k first
      let k := { k with scheduler := { k.scheduler with sleepingThreads := 0 } }
      freeOrPanic k first sleepingFreeFailed
    else
      let k ← wakeSleeper k first
      let links := k.sleepLinks.unlink head
      let head := links.next head
      let k := { k with
        sleepLinks := links, scheduler := { k.scheduler with sleepingThreads := head } }
      let k ← freeOrPanic k first sleepingFreeFailed
      tickLoop fuel k head

def schedulerTick (k : Kernel) : Except Halt Kernel := do
  let first := k.scheduler.sleepingThreads
  if first = 0 then
    return k
  let k := k.modifySleeping first fun s => { s with delta := u64 (s.delta - 1) }
  if (k.sleeping first).delta ≠ 0 then
    return k
  tickLoop (k.heap.nMemBlocks + 1) k first

end RiscvKernel
