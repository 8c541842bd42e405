import RiscvKernel.Trap
import RiscvKernel.HeapRuns
import RiscvKernel.DeltaList

/-!
# Where the threads are

`View` is the part of the kernel state that says where each thread is:
the rings, the sleeping list and what the heap holds. `View.Places` says that it
shows a board on which every thread has at most one place. Each operation of
the scheduler is one of a few operations on views, and each of these moves one
thread on the board.
-/

namespace RiscvKernel
open Function Intrusive Placement DeltaList

/-- The queues of threads. -/
inductive QueueId where
  | ready
  | input
  | sem (s : Nat)
  deriving DecidableEq

/-- The places of a thread outside the queues. -/
inductive Spot where
  | running
  | asleep (record : Nat)
  deriving DecidableEq

abbrev Threads := Board QueueId Spot Nat

/-- The records `recs` with their threads and deltas. -/
def entries (f : Nat → SleepingThread) (recs : List Nat) : List (Nat × Nat) :=
  recs.map fun r => ((f r).thread, (f r).delta)

@[simp] theorem entries_nil (f : Nat → SleepingThread) : entries f [] = [] := rfl
@[simp] theorem entries_cons (f : Nat → SleepingThread) (r : Nat) (recs : List Nat) :
    entries f (r :: recs) = ((f r).thread, (f r).delta) :: entries f recs := rfl
@[simp] theorem entries_append (f : Nat → SleepingThread) (xs ys : List Nat) :
    entries f (xs ++ ys) = entries f xs ++ entries f ys := List.map_append

theorem entries_congr {f g : Nat → SleepingThread} {recs : List Nat}
    (h : ∀ r ∈ recs, f r = g r) : entries f recs = entries g recs :=
  List.map_congr_left fun r hr => by rw [h r hr]

/-- The blocks of the records `recs`. -/
def recordBlocks (recs : List Nat) : Multiset (Nat × Nat) :=
  (recs : Multiset Nat).map fun r => (r, sizeInBlocks 40)

theorem recordBlocks_cons (r : Nat) (recs : List Nat) :
    recordBlocks (r :: recs) = (r, sizeInBlocks 40) ::ₘ recordBlocks recs := rfl

structure View where
  heap : Heap
  links : Links
  head : QueueId → Nat
  sleepLinks : Links
  sleepHead : Nat
  sleeping : Nat → SleepingThread
  timeLeft : Nat → Nat
  bp : Nat → Nat
  kernelMain : Nat
  userThreadCount : Nat
  boot : List (Nat × Nat)
  userBlocks : List (Nat × Nat)
  live : List Nat
  opened : List Nat

namespace Kernel

/-- The head pointer of a queue. -/
def head (k : Kernel) : QueueId → Nat
  | .ready => k.scheduler.readyThreads
  | .input => k.threadsWaitingForInput
  | .sem s => (k.sem s).waitingThreads

/-- What `main` allocated and never frees. -/
def bootBlocks (k : Kernel) : List (Nat × Nat) :=
  [(k.console.receiveBuffer.addr, sizeInBlocks consoleBufferSize),
    (k.console.sendBuffer.addr, sizeInBlocks consoleBufferSize),
    (k.scheduler.kernelMain, sizeInBlocks 56),
    (k.schedulerPtr, sizeInBlocks 40),
    (u64 (k.systemStack - (defaultStackSize - 8)), sizeInBlocks defaultStackSize)]

def view (k : Kernel) : View where
  heap := k.heap
  links := k.links
  head := k.head
  sleepLinks := k.sleepLinks
  sleepHead := k.scheduler.sleepingThreads
  sleeping := k.sleeping
  timeLeft := fun t => (k.thread t).timeLeft
  bp := fun t => (k.thread t).bp
  kernelMain := k.scheduler.kernelMain
  userThreadCount := k.scheduler.userThreadCount
  boot := k.bootBlocks
  userBlocks := k.hist.userBlocks
  live := k.hist.live
  opened := k.hist.opened

end Kernel

namespace View

/-- The queues that exist. -/
def Active (v : View) : QueueId → Prop
  | .ready => True
  | .input => True
  | .sem s => s ∈ v.opened

/-- A thread that can run: a live user thread or `kernel_main`. -/
def Thread (v : View) (t : Nat) : Prop := t ∈ v.live ∨ t = v.kernelMain

/-- The stack of a thread. -/
def stack (v : View) (t : Nat) : Nat × Nat := (v.bp t, sizeInBlocks defaultStackSize)

/-- The allocations of the heap, but for the records of the sleeping list. -/
def kept (v : View) : Multiset (Nat × Nat) :=
  (v.boot : Multiset (Nat × Nat)) + (v.userBlocks : Multiset (Nat × Nat)) +
    (v.live : Multiset Nat).map (fun t => (t, sizeInBlocks 56)) +
    (v.live : Multiset Nat).map v.stack +
    (v.opened : Multiset Nat).map (fun s => (s, sizeInBlocks 16))

/-- The allocations of the heap, with the records `recs` of the sleeping list. -/
def owned (v : View) (recs : List Nat) : Multiset (Nat × Nat) := recordBlocks recs + v.kept

/-- The rings and the sleeping list show the board `b`; `recs` are the records of
the sleeping list. -/
structure Places (v : View) (b : Threads) (recs : List Nat) : Prop where
  rings : Family v.links v.head v.Active b
  sleepers : IsRing v.sleepLinks v.sleepHead recs
  asleep : ∀ {t r}, b.loc t = some (.spot (.asleep r)) ↔ r ∈ recs ∧ (v.sleeping r).thread = t
  untimed : ∀ r ∈ recs, (v.sleeping r).semaphore = 0
  range : ∀ x ∈ times 0 (entries v.sleeping recs), 1 ≤ x.2 ∧ x.2 < 2 ^ 64
  known : ∀ {t}, b.loc t ≠ none → v.Thread t
  main : ∀ {p}, b.loc v.kernelMain = some p → p = .queue .ready ∨ p = .spot .running
  slices : ∀ {t}, v.Thread t → v.timeLeft t = 1 ∨ v.timeLeft t = 2
  count : v.userThreadCount = v.live.length

/-! ## Operations -/

/-- Append `t` to the ring of the queue `i`. -/
def enqueue (v : View) (i : QueueId) (t : Nat) : View :=
  { v with
    links := (v.links.push (v.head i) t).1
    head := update v.head i (v.links.push (v.head i) t).2 }

/-- Take the first node of the ring of the queue `i`. -/
def dequeue (v : View) (i : QueueId) : View :=
  { v with
    links := (v.links.pop (v.head i)).1
    head := update v.head i (v.links.pop (v.head i)).2 }

def setSlice (v : View) (t n : Nat) : View := { v with timeLeft := update v.timeLeft t n }

variable {v : View} {b : Threads} {recs : List Nat} {i : QueueId} {t : Nat} {ts : List Nat}

theorem Places.enqueue (h : v.Places b recs) (hi : v.Active i) (ht : v.Thread t) (h0 : t ≠ 0)
    (hm : t = v.kernelMain → i = .ready) (free : b.loc t = none) :
    (v.enqueue i t).Places (b.enqueue i t free) recs where
  rings := h.rings.push hi h0 free
  sleepers := h.sleepers
  asleep := by
    intro s r
    rw [Board.enqueue_loc, update_apply]
    split
    · next e =>
      subst e
      simp only [Option.some.injEq, reduceCtorEq, false_iff]
      intro hr
      rw [h.asleep.mpr hr] at free
      cases free
    · exact h.asleep
  untimed := h.untimed
  range := h.range
  known := by
    intro s hs
    rw [Board.enqueue_loc, update_apply] at hs
    split at hs
    · next e => exact e ▸ ht
    · exact h.known hs
  main := by
    intro p hp
    rw [Board.enqueue_loc, update_apply] at hp
    split at hp
    · next e =>
      obtain rfl := Option.some.inj hp
      exact Or.inl (by rw [hm e.symm])
    · exact h.main hp
  slices := h.slices
  count := h.count

theorem Places.dequeue (h : v.Places b recs) (hi : v.Active i) (first : b.queue i = t :: ts) :
    v.head i = t ∧ (v.dequeue i).Places (b.dequeue i t ts first) recs := by
  obtain ⟨head, rings⟩ := h.rings.pop hi first
  have here := b.loc_head first
  refine ⟨head, rings, h.sleepers, ?_, h.untimed, h.range, ?_, ?_, h.slices, h.count⟩
  · intro s r
    rw [Board.dequeue_loc, update_apply]
    split
    · next e =>
      subst e
      simp only [reduceCtorEq, false_iff]
      intro hr
      rw [h.asleep.mpr hr] at here
      cases here
    · exact h.asleep
  · intro s hs
    rw [Board.dequeue_loc, update_apply] at hs
    split at hs
    · exact absurd rfl hs
    · exact h.known hs
  · intro p hp
    rw [Board.dequeue_loc, update_apply] at hp
    split at hp
    · cases hp
    · exact h.main hp

/-- A thread starts or stops running. -/
theorem Places.move (h : v.Places b recs) {x : Option Spot} (hx : ∀ r, x ≠ some (.asleep r))
    (ht : x ≠ none → v.Thread t) (loose : b.Loose t)
    (awake : ∀ r, b.loc t ≠ some (.spot (.asleep r))) : v.Places (b.move t x loose) recs where
  rings := h.rings.same_queues rfl
  sleepers := h.sleepers
  asleep := by
    intro s r
    rw [Board.move_loc, update_apply]
    split
    · next e =>
      subst e
      have out := h.asleep.not.mp (awake r)
      have := hx r
      cases x <;> simp_all
    · exact h.asleep
  untimed := h.untimed
  range := h.range
  known := by
    intro s hs
    rw [Board.move_loc, update_apply] at hs
    split at hs
    · next e => exact e ▸ ht (fun hn => hs (by rw [hn]; rfl))
    · exact h.known hs
  main := by
    intro p hp
    rw [Board.move_loc, update_apply] at hp
    split at hp
    · match x, hx with
      | some .running, _ => exact Or.inr (Option.some.inj hp).symm
      | some (.asleep r), hx => exact absurd rfl (hx r)
    · exact h.main hp
  slices := h.slices
  count := h.count

theorem Places.setSlice (h : v.Places b recs) {n : Nat} (hn : n = 1 ∨ n = 2) :
    (v.setSlice t n).Places b recs :=
  { h with
    slices := by
      intro s hs
      show update v.timeLeft t n s = 1 ∨ update v.timeLeft t n s = 2
      rw [update_apply]
      split
      · exact hn
      · exact h.slices hs }

end View

end RiscvKernel
