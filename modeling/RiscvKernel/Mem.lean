import RiscvKernel.Machine
import Mathlib.Logic.Function.Basic

/-!
# The block allocator (`mem.c`)

`mem_index` is an array of `i32` cells, one for each block of the heap. The
model keeps every cell of memory from `mem_index[0]` on, also those past the
array: the code can reach them. `reach` is a history variable that no code
reads: every cell accessed so far has an index below it.
-/

namespace RiscvKernel

/-- Where the heap lies and how it is divided; fixed by `__mem_init`. -/
structure Geometry where
  heapStart : Nat
  heapEnd : Nat
  nMemBlocks : Nat
  memIndexLenInBlocks : Nat
  deriving DecidableEq, Repr

structure Heap extends Geometry where
  memIndex : Nat → Int
  reach : Nat

/-- A cell was accessed. -/
def Heap.touch (h : Heap) (i : Nat) : Heap := { h with reach := max h.reach (i + 1) }

/-- `mem_index[i] = v`. -/
def Heap.put (h : Heap) (i : Nat) (v : Int) : Heap :=
  { h.touch i with memIndex := Function.update h.memIndex i (toI32 v) }

abbrev IndexM := StateT Heap (Except Halt)

/-- Read `mem_index[i]`. -/
def load (i : Nat) : IndexM Int := fun h => .ok (h.memIndex i, h.touch i)

/-- Write `mem_index[i]`. -/
def store (i : Nat) (v : Int) : IndexM Unit := fun h => .ok ((), h.put i v)

/-! ## `__mem_init` -/

/-- `for(u64 i = 0; i < n; i++) mem_index[i] = 0;` -/
def memClear : Nat → IndexM Unit
  | 0 => pure ()
  | n + 1 => do
    memClear n
    store n 0

def memInit : IndexM Unit := do
  modify fun h => { h with nMemBlocks := (h.heapEnd - h.heapStart) / memBlockSize }
  modify fun h => { h with memIndexLenInBlocks :=
    (4 * h.nMemBlocks + memBlockSize - 1) / memBlockSize }
  let h ← get
  let n := h.nMemBlocks
  let len := h.memIndexLenInBlocks
  memClear n
  store 0 len
  store (u64 (len - 1)) len
  store len (-(n - len))
  store (u64 (n - 1)) (-(n - len))

/-! ## `__mem_alloc` -/

/-- The address of block `i`. -/
def Geometry.blockAddr (g : Geometry) (i : Nat) : Nat := u64 (g.heapStart + i * memBlockSize)

/-- The first branch of `__mem_alloc`: the front of a longer free run. -/
def splitRun (i : Nat) (freeBlocksCount : Int) (nblocks : Nat) : IndexM Unit := do
  store (u64 (i + freeBlocksCount - 1)) (-(freeBlocksCount - nblocks))
  store (u64 (i + nblocks)) (-(freeBlocksCount - nblocks))
  store (u64 (i + nblocks - 1)) nblocks
  store i nblocks

/-- The second branch of `__mem_alloc`: a free run of just this length. -/
def takeRun (i nblocks : Nat) : IndexM Unit := do
  store i nblocks
  store (u64 (i + nblocks - 1)) nblocks

/-- `if(mem_index[i] == 0) __panic("Memory index corrupted!\n");` -/
def checkTag (i : Nat) : IndexM Unit := do
  let v ← load i
  if v = 0 then
    throw (.panic "Memory index corrupted!\n")

/-- The second half of a round of `__mem_alloc`, at the cell the first half
left off; `next` is the following round. -/
def memAllocVisit (nblocks : Nat) (next : Nat → IndexM Nat) (i : Nat) : IndexM Nat := do
  let h ← get
  let v ← load i
  let freeBlocksCount := toI32 (-v)
  if v < 0 ∧ nblocks < u64 freeBlocksCount then
    splitRun i freeBlocksCount nblocks
    return h.blockAddr i
  if v < 0 ∧ u64 freeBlocksCount = nblocks then
    takeRun i nblocks
    return h.blockAddr i
  let i := if v < 0 then u64 (i + freeBlocksCount) else i
  checkTag i
  next i

/-- The loop of `__mem_alloc`, for at most `fuel` rounds. Each round skips an
allocated run and then looks at the cell after it. -/
def memAllocLoop (nblocks : Nat) : Nat → Nat → IndexM Nat
  | 0, _ => throw .stuck
  | fuel + 1, i => do
    let h ← get
    if h.nMemBlocks ≤ i then
      return 0
    let v ← load i
    let i := if 0 < v then u64 (i + v) else i
    memAllocVisit nblocks (memAllocLoop nblocks fuel) i

/-- `__mem_alloc`. A well-formed index has at most `n_mem_blocks` runs, and
every round passes at least one of them. -/
def memAlloc (nblocks : Nat) : IndexM Nat := do
  let h ← get
  memAllocLoop nblocks (h.nMemBlocks + 1) 0

/-! ## `__mem_free` -/

abbrev freeOutOfHeap : Int := -1
abbrev freeNotBlockAligned : Int := -2
abbrev freeNotAlloced : Int := -3
abbrev freeNotStartOfAlloc : Int := -4

/-- `cond ? (mem_index[i] < 0) : 0` -/
def isFree (cond : Bool) (i : Nat) : IndexM Bool := do
  if cond then
    let v ← load i
    return decide (v < 0)
  else
    return false

/-- Neither neighbour is free. -/
def freeAlone (entry : Nat) (size : Int) : IndexM Unit := do
  store entry (-size)
  store (u64 (entry + size - 1)) (-size)

/-- Join the run with the free run before it. -/
def joinPrev (entry : Nat) (size : Int) : IndexM (Nat × Int) := do
  let prev ← load (entry - 1)
  let prevIndex := u64 (entry + prev)
  let joinedSize := toI32 (size - prev)
  store entry 0
  store (entry - 1) 0
  store prevIndex (-joinedSize)
  store (u64 (prevIndex + joinedSize - 1)) (-joinedSize)
  return (prevIndex, joinedSize)

/-- Join the run with the free run after it. -/
def joinNext (entry : Nat) (size : Int) : IndexM Unit := do
  let next ← load (u64 (entry + size))
  let joinedSize := toI32 (size - next)
  store (u64 (entry + size - 1)) 0
  store (u64 (entry + size)) 0
  store entry (-joinedSize)
  store (u64 (entry + joinedSize - 1)) (-joinedSize)

/-- The part of `__mem_free` after its checks: mark the run free and join it
with its free neighbours. -/
def release (entry : Nat) (size : Int) (prevFree nextFree : Bool) : IndexM Unit := do
  if !prevFree && !nextFree then
    freeAlone entry size
  let (entry, size) ← if prevFree then joinPrev entry size else pure (entry, size)
  if nextFree then
    joinNext entry size

def memFree (ptr : Nat) : IndexM Int := do
  let h ← get
  let offset := u64 (ptr - h.heapStart)
  let entry := offset / memBlockSize
  if ptr < h.heapStart ∨ h.heapEnd ≤ ptr then
    return freeOutOfHeap
  if offset % memBlockSize ≠ 0 then
    return freeNotBlockAligned
  let size ← load entry
  if size ≤ 0 then
    return freeNotAlloced
  let foot ← load (u64 (entry + size - 1))
  if size ≠ foot then
    return freeNotStartOfAlloc
  let prevFree ← isFree (decide (0 < entry)) (entry - 1)
  let nextFree ← isFree (decide (u64 (entry + size) < h.nMemBlocks)) (u64 (entry + size))
  release entry size prevFree nextFree
  return 0

end RiscvKernel
