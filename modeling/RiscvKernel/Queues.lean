import RiscvKernel.Runs

/-!
# The three queues

The ready queue, the queue of threads that wait for input and the queue of each
semaphore are rings through one `list_node` in each thread. A run of their calls
starts with null heads, over whatever the links hold, and pushes a thread only when
it is in no ring.

* `QueueCall.onLists`: the same calls on lists;
* `queueCall_shows`: each call does on the rings what it does on the lists;
* `rings_are_queues`: in every run the rings are the lists.
-/

namespace RiscvKernel
open Function Intrusive Placement Board

/-- A call of one of the three implementations. -/
inductive QueueCall where
  | push (i : QueueId) (t : Nat)
  | pop (i : QueueId)

namespace QueueCall

def queue : QueueCall → QueueId
  | .push i _ => i
  | .pop i => i

/-- A push appends, and a pop takes the first item. -/
def onLists (q : QueueId → List Nat) : QueueCall → QueueId → List Nat
  | .push i t => update q i (q i ++ [t])
  | .pop i => update q i (q i).tail

/-- A thread that is pushed is in no ring, and a ring that is popped is not empty. -/
def Legal (active : QueueId → Prop) (q : QueueId → List Nat) : QueueCall → Prop
  | .push i t => active i ∧ t ≠ 0 ∧ ∀ j, t ∉ q j
  | .pop i => active i ∧ q i ≠ []

end QueueCall

namespace Kernel

/-- `__scheduler_push`, `__waiting_push` and `__sem_push`. -/
def pushTo (k : Kernel) : QueueId → Nat → Kernel
  | .ready, t => schedulerPush k t
  | .input, t => waitingPush k t
  | .sem s, t => semPush k s t

/-- `__scheduler_next`, `__waiting_pop` and `__sem_next`. -/
def popFrom (k : Kernel) : QueueId → Nat × Kernel
  | .ready => schedulerNext k
  | .input => waitingPop k
  | .sem s => semNext k s

def queueCall (k : Kernel) : QueueCall → Kernel
  | .push i t => k.pushTo i t
  | .pop i => (k.popFrom i).2

/-- The rings of the queues `active` are the lists `q`. -/
def Shows (k : Kernel) (active : QueueId → Prop) (q : QueueId → List Nat) : Prop :=
  ∃ b : Threads, Family k.links k.head active b ∧ b.queue = q ∧ ∀ t x, b.loc t ≠ some (.spot x)

end Kernel

/-- Calls of the queues `active`, one after the other, with what they do on lists. -/
inductive QueueRun (active : QueueId → Prop) (k₀ : Kernel) :
    Kernel → (QueueId → List Nat) → Prop
  | start : QueueRun active k₀ k₀ fun _ => []
  | call {k : Kernel} {q : QueueId → List Nat} (c : QueueCall) : QueueRun active k₀ k q →
      c.Legal active q → QueueRun active k₀ (k.queueCall c) (c.onLists q)

/-! ## The calls -/

theorem pushTo_links (k : Kernel) (i : QueueId) (t : Nat) :
    (k.pushTo i t).links = (k.links.push (k.head i) t).1 ∧
      (k.pushTo i t).head = update k.head i (k.links.push (k.head i) t).2 := by
  cases i with
  | ready =>
    have view := schedulerPush_view k t
    exact ⟨congrArg View.links view, congrArg View.head view⟩
  | input =>
    have view := waitingPush_view k t
    exact ⟨congrArg View.links view, congrArg View.head view⟩
  | sem s =>
    have view := semPush_view k s t
    exact ⟨congrArg View.links view, congrArg View.head view⟩

theorem popFrom_links (k : Kernel) {i : QueueId} (some : k.head i ≠ 0) :
    (k.popFrom i).1 = k.head i ∧ (k.popFrom i).2.links = (k.links.pop (k.head i)).1 ∧
      (k.popFrom i).2.head = update k.head i (k.links.pop (k.head i)).2 := by
  cases i with
  | ready =>
    have ready : k.scheduler.readyThreads ≠ 0 := some
    have next : k.popFrom .ready = (k.scheduler.readyThreads, { k with
        links := (k.links.pop k.scheduler.readyThreads).1
        scheduler := { k.scheduler with
          readyThreads := (k.links.pop k.scheduler.readyThreads).2
          threadCurrent := k.scheduler.readyThreads } }) := if_neg ready
    rw [next]
    refine ⟨rfl, rfl, ?_⟩
    funext j
    cases j with
    | ready => simp [Kernel.head]
    | input => simp [Kernel.head]
    | sem s => simp [Kernel.head]
  | input =>
    have view := waitingPop_view k
    exact ⟨rfl, congrArg View.links view, congrArg View.head view⟩
  | sem s =>
    have view := semNext_view k s
    exact ⟨rfl, congrArg View.links view, congrArg View.head view⟩

section
variable {active : QueueId → Prop} {k : Kernel} {q : QueueId → List Nat}

/-- A thread that is in no ring has no place. -/
theorem loc_of_notMem {b : Threads} {t : Nat} (spots : ∀ t x, b.loc t ≠ some (.spot x))
    (out : ∀ j, t ∉ b.queue j) : b.loc t = none := by
  cases place : b.loc t with
  | none => rfl
  | some p =>
    cases p with
    | queue j => exact absurd (b.mem_queue.mpr place) (out j)
    | spot x => exact absurd place (spots t x)

theorem shows_start (null : ∀ i, active i → k.head i = 0) : k.Shows active fun _ => [] :=
  ⟨.empty, ⟨null, fun _ _ => rfl⟩, rfl, fun _ _ => nofun⟩

/-- **One call.** -/
theorem queueCall_shows {c : QueueCall} (shows : k.Shows active q) (legal : c.Legal active q) :
    (k.queueCall c).Shows active (c.onLists q) := by
  obtain ⟨b, family, rfl, spots⟩ := shows
  cases c with
  | push i t =>
    obtain ⟨hi, nonzero, out⟩ := legal
    have free := loc_of_notMem spots out
    obtain ⟨links, head⟩ := pushTo_links k i t
    refine ⟨b.enqueue i t free, ?_, rfl, fun s x => ?_⟩
    · have pushed := family.push hi nonzero free
      rwa [← links, ← head] at pushed
    · rw [enqueue_loc, update_apply]
      split
      · nofun
      · exact spots s x
  | pop i =>
    obtain ⟨hi, nonempty⟩ := legal
    obtain ⟨t, ts, first⟩ := List.exists_cons_of_ne_nil nonempty
    have some : k.head i ≠ 0 := (family.ring i hi).head_null.not.mpr nonempty
    obtain ⟨-, links, head⟩ := popFrom_links k some
    refine ⟨b.dequeue i t ts first, ?_, ?_, fun s x => ?_⟩
    · obtain ⟨-, popped⟩ := family.pop hi first
      rwa [← links, ← head] at popped
    · show update b.queue i ts = update b.queue i (b.queue i).tail
      rw [first, List.tail_cons]
    · rw [dequeue_loc, update_apply]
      split
      · nofun
      · exact spots s x

/-- A call of one ring leaves the other rings alone: their heads, and the links of their nodes. -/
theorem queueCall_frame {c : QueueCall} (shows : k.Shows active q) (legal : c.Legal active q)
    {j : QueueId} (other : j ≠ c.queue) : (k.queueCall c).head j = k.head j ∧
      ∀ t ∈ q j, (k.queueCall c).links.next t = k.links.next t ∧
        (k.queueCall c).links.prev t = k.links.prev t := by
  obtain ⟨b, family, rfl, spots⟩ := shows
  cases c with
  | push i t =>
    obtain ⟨hi, nonzero, out⟩ := legal
    obtain ⟨links, head⟩ := pushTo_links k i t
    obtain ⟨-, frame⟩ := ring_push (family.ring i hi) (out i) nonzero
    refine ⟨(congrFun head j).trans (update_of_ne other _ _), fun s hs => ?_⟩
    show (k.pushTo i t).links.next s = _ ∧ (k.pushTo i t).links.prev s = _
    rw [links]
    exact frame s (fun hs' => other (b.apart hs hs')) fun e => out j (e ▸ hs)
  | pop i =>
    obtain ⟨hi, nonempty⟩ := legal
    obtain ⟨t, ts, first⟩ := List.exists_cons_of_ne_nil nonempty
    have ring := family.ring i hi
    obtain ⟨-, links, head⟩ := popFrom_links k (ring.head_null.not.mpr nonempty)
    rw [first] at ring
    obtain ⟨-, frame⟩ := ring_pop ring
    refine ⟨(congrFun head j).trans (update_of_ne other _ _), fun s hs => ?_⟩
    show (k.popFrom i).2.links.next s = _ ∧ (k.popFrom i).2.links.prev s = _
    rw [links]
    exact frame s fun hs' => other (b.apart hs (first ▸ hs'))

theorem popFrom_first {i : QueueId} (shows : k.Shows active q) (hi : active i)
    (nonempty : q i ≠ []) : (q i).head? = some (k.popFrom i).1 := by
  obtain ⟨b, family, rfl, -⟩ := shows
  have ring := family.ring i hi
  rw [(popFrom_links k (ring.head_null.not.mpr nonempty)).1]
  obtain ⟨t, ts, first⟩ := List.exists_cons_of_ne_nil nonempty
  rw [first] at ring ⊢
  rw [ring.head_eq]
  rfl

end

/-! ## Runs -/

theorem queueRun_shows {active : QueueId → Prop} {k₀ k : Kernel} {q : QueueId → List Nat}
    (null : ∀ i, active i → k₀.head i = 0) (run : QueueRun active k₀ k q) : k.Shows active q := by
  induction run with
  | start => exact shows_start null
  | call c _ legal ih => exact queueCall_shows ih legal

/-- **Queues.** From null heads, after any calls, each ring is the list of its queue and is
linked both ways, its head is null when it is empty, no thread is in two rings, a pop gives the
first thread, and a call of one ring leaves the others alone. -/
theorem rings_are_queues {active : QueueId → Prop} {k₀ k : Kernel} {q : QueueId → List Nat}
    (null : ∀ i, active i → k₀.head i = 0) (run : QueueRun active k₀ k q) :
    (∀ i, active i → IsRing k.links (k.head i) (q i) ∧ (k.head i = 0 ↔ q i = []) ∧
      ∀ t ∈ q i, k.links.prev (k.links.next t) = t ∧ k.links.next (k.links.prev t) = t) ∧
    (∀ i j t, t ∈ q i → t ∈ q j → i = j) ∧
    (∀ i, active i → q i ≠ [] → (q i).head? = some (k.popFrom i).1) ∧
    ∀ c : QueueCall, c.Legal active q → (k.queueCall c).Shows active (c.onLists q) ∧
      ∀ j, j ≠ c.queue → (k.queueCall c).head j = k.head j ∧
        ∀ t ∈ q j, (k.queueCall c).links.next t = k.links.next t ∧
          (k.queueCall c).links.prev t = k.links.prev t := by
  have shows := queueRun_shows null run
  refine ⟨fun i hi => ?_, fun i j t hi hj => ?_, fun i hi => popFrom_first shows hi,
    fun c legal => ⟨queueCall_shows shows legal, fun j => queueCall_frame shows legal⟩⟩
  · obtain ⟨b, family, rfl, -⟩ := shows
    have ring := family.ring i hi
    exact ⟨ring, ring.head_null, fun t ht => ⟨ring.prev_next ht, ring.next_prev ht⟩⟩
  · obtain ⟨b, -, rfl, -⟩ := shows
    exact b.apart hi hj

/-- Two threads in the ready queue of the small machine, and one that left it for a semaphore. -/
theorem rings_are_queues_small : ∃ k q, QueueRun (fun _ => True) smallKernel k q ∧
    q .ready = [192, 256] ∧ q (.sem 64) = [128] ∧ IsRing k.links (k.head .ready) [192, 256] := by
  let none : QueueId → List Nat := fun _ => []
  have run : QueueRun (fun _ => True) smallKernel smallKernel none := .start
  have run := run.call (.push .ready 128) ⟨trivial, by decide, fun _ => List.not_mem_nil⟩
  have run := run.call (.push .ready 192) ⟨trivial, by decide, fun j => by
    cases j <;> simp [QueueCall.onLists, none]⟩
  have run := run.call (.pop .ready) ⟨trivial, by simp [QueueCall.onLists]⟩
  have run := run.call (.push .ready 256) ⟨trivial, by decide, fun j => by
    cases j <;> simp [QueueCall.onLists, none]⟩
  have run := run.call (.push (.sem 64) 128) ⟨trivial, by decide, fun j => by
    cases j <;> simp [QueueCall.onLists, none]⟩
  have ready := (rings_are_queues (fun i _ => by cases i <;> rfl) run).1 .ready trivial
  exact ⟨_, _, run, rfl, rfl, ready.1⟩

end RiscvKernel
