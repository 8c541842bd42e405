import RiscvKernel.View
import Mathlib.Data.Multiset.UnionInter

/-!
# The moves of the scheduler

`Kernel.Inv k b recs`: the kernel shows the board `b`, on which the current
thread runs and every live thread has a place, and the heap holds what the
kernel and its threads own. Giving up the hart, blocking on a queue and waking
the first thread of a queue keep it.
-/

namespace RiscvKernel
open Function Intrusive Placement

structure Kernel.Inv (k : Kernel) (b : Threads) (recs : List Nat) : Prop where
  places : k.view.Places b recs
  owns : k.heap.Holds (k.view.owned recs)
  running : ∀ {t}, b.loc t = some (.spot .running) ↔ t = k.scheduler.threadCurrent
  placed : ∀ {t}, t ∈ k.hist.live → b.loc t ≠ none

/-! ## Allocating and freeing -/

theorem alloc_spec {k : Kernel} {live : Multiset (Nat × Nat)} {nb : Nat}
    (holds : k.heap.Holds live) (pos : 0 < nb) (room : k.heap.HasRoom nb) :
    ∃ p h', k.alloc nb = .ok (p, { k with heap := h' }) ∧ k.heap.Within h' ∧
      h'.Holds ((p, nb) ::ₘ live) ∧ p ≠ 0 ∧ p ∉ live.map Prod.fst := by
  obtain ⟨p, h', eq, within, holds'⟩ := memAlloc_spec holds pos room
  refine ⟨p, h', ?_, within, holds', ?_, ?_⟩
  · unfold Kernel.alloc
    rw [eq]
    rfl
  · exact (holds'.starts.2 (p, nb) (Multiset.mem_cons_self _ _)).ne'
  · have := holds'.starts.1
    rw [Multiset.map_cons, Multiset.nodup_cons] at this
    exact this.1

/-- A request for `nblocks` blocks finds room, or it is refused and leaves the
index as it is. The cell behind an index that fills its last block belongs to the console
buffer, so there nothing is said of a request without room. -/
def Heap.Serves (h : Heap) (nblocks : Nat) : Prop :=
  h.HasRoom nblocks ∨ 4 * h.nMemBlocks < h.memIndexLenInBlocks * memBlockSize ∧
    ∃ r, memAlloc nblocks h = .ok (0, { h with reach := r })

theorem alloc_served {k : Kernel} {live : Multiset (Nat × Nat)} {nb : Nat}
    (holds : k.heap.Holds live) (pos : 0 < nb) (serves : k.heap.Serves nb) :
    ∃ p h', k.alloc nb = .ok (p, { k with heap := h' }) ∧
      (p = 0 ∧ h'.Holds live ∨ p ≠ 0 ∧ h'.Holds ((p, nb) ::ₘ live) ∧ p ∉ live.map Prod.fst) := by
  rcases serves with room | ⟨-, r, eq⟩
  · obtain ⟨p, h', eq, -, holds', nonzero, fresh⟩ := alloc_spec holds pos room
    exact ⟨p, h', eq, Or.inr ⟨nonzero, holds', fresh⟩⟩
  · refine ⟨0, { k.heap with reach := r }, ?_, Or.inl ⟨rfl, holds.ok, holds.tiled⟩⟩
    unfold Kernel.alloc
    rw [eq]
    rfl

theorem freeOrPanic_spec {k : Kernel} {live : Multiset (Nat × Nat)} {p nb : Nat}
    (holds : k.heap.Holds ((p, nb) ::ₘ live)) (msg : String) :
    ∃ h', freeOrPanic k p msg = .ok { k with heap := h' } ∧ k.heap.Within h' ∧ h'.Holds live := by
  obtain ⟨h', eq, within, holds'⟩ := memFree_spec holds
  refine ⟨h', ?_, within, holds'⟩
  unfold freeOrPanic Kernel.free
  rw [eq]
  rfl

/-! ## What the heap tells about threads -/

theorem View.owned_starts (v : View) (recs : List Nat) : (v.owned recs).map Prod.fst =
    (recs : Multiset Nat) + ((v.boot : Multiset (Nat × Nat)).map Prod.fst +
      (v.userBlocks : Multiset (Nat × Nat)).map Prod.fst + (v.live : Multiset Nat) +
      (v.live : Multiset Nat).map v.bp + (v.opened : Multiset Nat)) := by
  simp [View.owned, recordBlocks, View.kept, View.stack, Function.comp_def]

section
variable {k : Kernel} {recs : List Nat} (owns : k.heap.Holds (k.view.owned recs))
include owns

theorem owned_nodup : k.hist.live.Nodup ∧ recs.Nodup ∧ k.hist.opened.Nodup := by
  have nodup := owns.starts.1
  rw [View.owned_starts] at nodup
  simp only [Multiset.nodup_add] at nodup
  obtain ⟨hrecs, ⟨⟨⟨-, hlive, -⟩, -, -⟩, hopened, -⟩, -⟩ := nodup
  exact ⟨Multiset.coe_nodup.mp hlive, Multiset.coe_nodup.mp hrecs, Multiset.coe_nodup.mp hopened⟩

theorem main_not_live : k.scheduler.kernelMain ∉ k.hist.live := by
  have nodup := owns.starts.1
  rw [View.owned_starts] at nodup
  simp only [Multiset.nodup_add, Multiset.disjoint_add_left] at nodup
  obtain ⟨-, ⟨⟨⟨-, -, apart, -⟩, -⟩, -⟩, -⟩ := nodup
  intro live
  refine Multiset.disjoint_left.mp apart ?_ (Multiset.mem_coe.mpr live)
  simp [Kernel.view, Kernel.bootBlocks]

theorem thread_pos {t : Nat} (ht : k.view.Thread t) : t ≠ 0 := by
  have pos := owns.starts.2
  rcases ht with live | rfl
  · exact (pos (t, sizeInBlocks 56) (by simp [View.owned, View.kept, live])).ne'
  · refine (pos (k.scheduler.kernelMain, sizeInBlocks 56) ?_).ne'
    simp [View.owned, View.kept, Kernel.view, Kernel.bootBlocks]

end

/-! ## Operations on views -/

section
variable (k : Kernel)

theorem modifyThread_view (t : Nat) (f : Thread → Thread) : (k.modifyThread t f).view =
    { k.view with
      timeLeft := update k.view.timeLeft t (f (k.thread t)).timeLeft
      bp := update k.view.bp t (f (k.thread t)).bp } := by
  have timeLeft := comp_update Thread.timeLeft k.thread t (f (k.thread t))
  have bp := comp_update Thread.bp k.thread t (f (k.thread t))
  simp only [Kernel.view, View.mk.injEq]
  exact ⟨rfl, rfl, rfl, rfl, rfl, rfl, timeLeft, bp, rfl, rfl, rfl, rfl, rfl, rfl⟩

/-- A change of the saved registers of a thread is not in the view. -/
theorem modifyThread_saved_view (t : Nat) (f : Thread → Thread)
    (timeLeft : (f (k.thread t)).timeLeft = (k.thread t).timeLeft)
    (bp : (f (k.thread t)).bp = (k.thread t).bp) : (k.modifyThread t f).view = k.view := by
  rw [modifyThread_view, timeLeft, bp]
  have e₁ : update k.view.timeLeft t (k.thread t).timeLeft = k.view.timeLeft :=
    update_eq_self t k.view.timeLeft
  have e₂ : update k.view.bp t (k.thread t).bp = k.view.bp := update_eq_self t k.view.bp
  rw [e₁, e₂]

theorem head_ready (x : Nat) : Kernel.head { k with scheduler :=
    { k.scheduler with readyThreads := x } } = update k.head .ready x := by
  funext q
  cases q with
  | ready => simp [Kernel.head]
  | input => simp [Kernel.head]
  | sem s => simp [Kernel.head]

theorem head_input (x : Nat) :
    Kernel.head { k with threadsWaitingForInput := x } = update k.head .input x := by
  funext q
  cases q with
  | ready => simp [Kernel.head]
  | input => simp [Kernel.head]
  | sem s => simp [Kernel.head]

theorem head_sem (s : Nat) (f : Sem → Sem) :
    (k.modifySem s f).head = update k.head (.sem s) (f (k.sem s)).waitingThreads := by
  funext q
  cases q with
  | ready => simp [Kernel.head, Kernel.modifySem]
  | input => simp [Kernel.head, Kernel.modifySem]
  | sem s' =>
    by_cases h : s' = s
    · subst h
      simp [Kernel.head, Kernel.modifySem]
    · simp [Kernel.head, Kernel.modifySem, h]

theorem schedulerPush_view (t : Nat) :
    (schedulerPush k t).view = (k.view.setSlice t defaultTimeSlice).enqueue .ready t := by
  have same : update k.view.bp t (k.thread t).bp = k.view.bp := update_eq_self t k.view.bp
  let pushed := k.links.push k.scheduler.readyThreads t
  calc (schedulerPush k t).view
      = { (k.modifyThread t fun x => { x with timeLeft := defaultTimeSlice }).view with
          links := pushed.1, head := update k.head .ready pushed.2 } := by
        rw [← head_ready]
        rfl
    _ = (k.view.setSlice t defaultTimeSlice).enqueue .ready t := by
        rw [modifyThread_view, same]
        rfl

theorem semPush_view (s t : Nat) : (semPush k s t).view = k.view.enqueue (.sem s) t := by
  let pushed := k.links.push (k.sem s).waitingThreads t
  calc (semPush k s t).view
      = { k.view with
          links := pushed.1
          head := (k.modifySem s fun x => { x with waitingThreads := pushed.2 }).head } := rfl
    _ = k.view.enqueue (.sem s) t := by
        rw [head_sem]
        rfl

theorem semNext_view (s : Nat) : (semNext k s).2.view = k.view.dequeue (.sem s) := by
  let popped := k.links.pop (k.sem s).waitingThreads
  calc (semNext k s).2.view
      = { k.view with
          links := popped.1
          head := (k.modifySem s fun x => { x with waitingThreads := popped.2 }).head } := rfl
    _ = k.view.dequeue (.sem s) := by
        rw [head_sem]
        rfl

theorem waitingPush_view (t : Nat) : (waitingPush k t).view = k.view.enqueue .input t := by
  calc (waitingPush k t).view
      = { k.view with
          links := (k.links.push k.threadsWaitingForInput t).1
          head := update k.head .input (k.links.push k.threadsWaitingForInput t).2 } := by
        rw [← head_input]
        rfl
    _ = k.view.enqueue .input t := rfl

theorem waitingPop_view : (waitingPop k).2.view = k.view.dequeue .input := by
  calc (waitingPop k).2.view
      = { k.view with
          links := (k.links.pop k.threadsWaitingForInput).1
          head := update k.head .input (k.links.pop k.threadsWaitingForInput).2 } := by
        rw [← head_input]
        rfl
    _ = k.view.dequeue .input := rfl

theorem yield_view (old new : Nat) : (yield k old new).view = k.view := by
  unfold yield
  split
  · exact modifyThread_saved_view k old _ rfl rfl
  · exact modifyThread_saved_view k old (fun x => { x with
      sstatus := k.hart.sstatus, sepc := k.hart.sepc, sp := k.hart.sscratch }) rfl rfl

theorem schedulerNext_empty (empty : k.view.head .ready = 0) : schedulerNext k =
    (k.scheduler.kernelMain,
      { k with scheduler := { k.scheduler with threadCurrent := k.scheduler.kernelMain } }) :=
  if_pos empty

theorem schedulerNext_first (first : k.view.head .ready ≠ 0) :
    (schedulerNext k).1 = k.view.head .ready ∧
      (schedulerNext k).2.scheduler.threadCurrent = k.view.head .ready ∧
      (schedulerNext k).2.view = k.view.dequeue .ready := by
  have h : k.scheduler.readyThreads ≠ 0 := first
  simp only [schedulerNext, h, ↓reduceIte]
  refine ⟨rfl, rfl, ?_⟩
  calc _ = { k.view with
          links := (k.links.pop k.scheduler.readyThreads).1
          head := update k.head .ready (k.links.pop k.scheduler.readyThreads).2 } := by
        rw [← head_ready]
        rfl
    _ = k.view.dequeue .ready := rfl

end

/-! ## Moves -/

/-- The thread `__scheduler_next` takes. -/
def nextThread (b : Threads) (kernelMain : Nat) : Nat := (b.queue .ready).headD kernelMain

theorem yield_scheduler (k : Kernel) (old new : Nat) :
    (yield k old new).scheduler = k.scheduler := by
  unfold yield
  split <;> rfl

/-- When nobody runs, `switch` gives the hart to the first ready thread, or to
`kernel_main` when there is none. -/
theorem switch_places {k : Kernel} {b : Threads} {recs : List Nat} (h : k.view.Places b recs)
    (idle : ∀ t, b.loc t ≠ some (.spot .running)) :
    ∃ b' : Threads, (switch k).view.Places b' recs ∧
      (switch k).scheduler.threadCurrent = nextThread b k.scheduler.kernelMain ∧
      b'.queue = update b.queue .ready (b.queue .ready).tail ∧
      b'.loc = update b.loc (nextThread b k.scheduler.kernelMain) (some (.spot .running)) := by
  have ring := h.rings.ring .ready trivial
  unfold switch nextThread
  rw [yield_view, yield_scheduler]
  cases hq : b.queue .ready with
  | nil =>
    have empty : k.view.head .ready = 0 := ring.head_null.mpr hq
    have free : b.loc k.scheduler.kernelMain = none := by
      cases hl : b.loc k.scheduler.kernelMain with
      | none => rfl
      | some p =>
        rcases h.main hl with rfl | rfl
        · have hm := b.mem_queue.mpr hl
          rw [hq] at hm
          exact absurd hm List.not_mem_nil
        · exact absurd hl (idle _)
    rw [schedulerNext_empty k empty]
    refine ⟨b.move k.scheduler.kernelMain (some .running) (Board.loose_of_none free), ?_, rfl, ?_,
      rfl⟩
    · refine h.move (fun r => ?_) (fun _ => Or.inr rfl) _ (fun r => ?_)
      · simp
      · exact fun e => by cases free.symm.trans e
    · rw [Board.move_queue, List.tail_nil, ← hq, update_eq_self]
  | cons r rs =>
    rw [hq] at ring
    have first : k.view.head .ready ≠ 0 := fun e => by simpa using ring.head_null.mp e
    obtain ⟨-, current, view⟩ := schedulerNext_first k first
    obtain ⟨head, places⟩ := h.dequeue (i := .ready) trivial hq
    have here := b.loc_head hq
    rw [view, current, head]
    have free : (b.dequeue .ready r rs hq).loc r = none := by simp
    refine ⟨(b.dequeue .ready r rs hq).move r (some .running) (Board.loose_of_none free), ?_, rfl,
      rfl, ?_⟩
    · refine places.move (fun r => ?_) (fun _ => ?_) _ (fun r => ?_)
      · simp
      · exact h.known (by rw [here]; simp)
      · rw [free]
        simp
    · simp

theorem switch_view (k : Kernel) : (switch k).view =
    if k.view.head .ready = 0 then k.view else k.view.dequeue .ready := by
  unfold switch
  rw [yield_view]
  split
  · next empty => rw [schedulerNext_empty k empty]; rfl
  · next first => exact (schedulerNext_first k first).2.2

section
variable (k : Kernel)

theorem switch_owned : (switch k).view.owned = k.view.owned := by
  rw [switch_view]
  split <;> rfl

theorem switch_frame : (switch k).heap = k.heap ∧ (switch k).hist = k.hist ∧
    (switch k).console = k.console ∧ (switch k).mem = k.mem ∧ (switch k).sem = k.sem ∧
    (switch k).image = k.image := by
  unfold switch yield schedulerNext
  split <;> split <;> exact ⟨rfl, rfl, rfl, rfl, rfl, rfl⟩

@[simp] theorem switch_heap : (switch k).heap = k.heap := (switch_frame k).1
@[simp] theorem switch_hist : (switch k).hist = k.hist := (switch_frame k).2.1
@[simp] theorem switch_console : (switch k).console = k.console := (switch_frame k).2.2.1
@[simp] theorem switch_mem : (switch k).mem = k.mem := (switch_frame k).2.2.2.1
@[simp] theorem switch_sem : (switch k).sem = k.sem := (switch_frame k).2.2.2.2.1
@[simp] theorem switch_image : (switch k).image = k.image := (switch_frame k).2.2.2.2.2

theorem switch_pushed : (switch k).hist.pushed = k.hist.pushed := by rw [switch_hist]

theorem dispatch_eq : dispatch k = switch (schedulerPush k k.scheduler.threadCurrent) := rfl

theorem dispatch_pushed :
    (dispatch k).hist.pushed = k.hist.pushed ++ [k.scheduler.threadCurrent] := by
  rw [dispatch_eq, switch_pushed]
  rfl

end

section
variable {k : Kernel} {b : Threads} {recs : List Nat}

theorem Kernel.Inv.current (inv : k.Inv b recs) :
    b.loc k.scheduler.threadCurrent = some (.spot .running) := inv.running.mpr rfl

theorem Kernel.Inv.current_thread (inv : k.Inv b recs) : k.view.Thread k.scheduler.threadCurrent :=
  inv.places.known (by rw [inv.current]; simp)

/-- The board after the current thread has left its place. -/
theorem Kernel.Inv.detach (inv : k.Inv b recs) :
    ∃ b₁ : Threads, k.view.Places b₁ recs ∧ b₁.queue = b.queue ∧
      b₁.loc = update b.loc k.scheduler.threadCurrent none ∧
      ∀ t, b₁.loc t ≠ some (.spot .running) := by
  have here := inv.current
  refine ⟨b.move k.scheduler.threadCurrent none (Board.loose_of_spot here), ?_, rfl, rfl, ?_⟩
  · refine inv.places.move (by simp) (by simp) _ fun r => ?_
    rw [here]
    simp
  · intro t ht
    rw [Board.move_loc, update_apply] at ht
    split at ht
    · cases ht
    · next h => exact h (inv.running.mp ht)

/-- After the hart is given to `n`, `n` runs and nobody else. -/
theorem running_after {b b' : Threads} {n : Nat} (idle : ∀ t, b.loc t ≠ some (.spot .running))
    (loc : b'.loc = update b.loc n (some (.spot .running))) {t : Nat} :
    b'.loc t = some (.spot .running) ↔ t = n := by
  rw [loc, update_apply]
  split
  · next h => simp [h]
  · next h => simp [h, idle t]

theorem placed_after {b b' : Threads} {n : Nat} {p : Place QueueId Spot}
    (loc : b'.loc = update b.loc n (some p)) {t : Nat} (placed : t ≠ n → b.loc t ≠ none) :
    b'.loc t ≠ none := by
  rw [loc, update_apply]
  split
  · simp
  · next h => exact placed h

/-- Giving up the hart when every live thread has a place. -/
theorem switch_inv (places : k.view.Places b recs) (owns : k.heap.Holds (k.view.owned recs))
    (idle : ∀ t, b.loc t ≠ some (.spot .running))
    (placed : ∀ t, t ∈ k.hist.live → b.loc t ≠ none) : ∃ b', (switch k).Inv b' recs ∧
      b'.queue = update b.queue .ready (b.queue .ready).tail ∧
      (switch k).scheduler.threadCurrent = nextThread b k.scheduler.kernelMain := by
  obtain ⟨b', places', current, queue, loc⟩ := switch_places places idle
  refine ⟨b', ⟨places', ?_, ?_, ?_⟩, queue, current⟩
  · rwa [switch_heap, switch_owned]
  · rw [current]
    exact running_after idle loc
  · intro t ht
    rw [switch_hist] at ht
    exact placed_after loc fun _ => placed t ht

/-- **Dispatch.** The current thread goes to the end of the ready queue, and the
first thread of that queue runs. -/
theorem dispatch_inv (inv : k.Inv b recs) : ∃ b', (dispatch k).Inv b' recs ∧
    b'.queue = update b.queue .ready (b.queue .ready ++ [k.scheduler.threadCurrent]).tail := by
  obtain ⟨b₁, places₁, queue₁, loc₁, idle₁⟩ := inv.detach
  have free : b₁.loc k.scheduler.threadCurrent = none := by simp [loc₁]
  have places₂ := (places₁.setSlice (t := k.scheduler.threadCurrent) (n := defaultTimeSlice)
    (Or.inr rfl)).enqueue (i := .ready) trivial inv.current_thread
    (thread_pos inv.owns inv.current_thread) (fun _ => rfl) free
  rw [← schedulerPush_view] at places₂
  have owns₂ : (schedulerPush k k.scheduler.threadCurrent).heap.Holds
      ((schedulerPush k k.scheduler.threadCurrent).view.owned recs) := by
    rw [schedulerPush_view]
    exact inv.owns
  have idle₂ : ∀ t, (b₁.enqueue .ready k.scheduler.threadCurrent free).loc t ≠
      some (.spot .running) := by
    intro t
    rw [Board.enqueue_loc, update_apply]
    split
    · simp
    · exact idle₁ t
  obtain ⟨b', inv', queue, -⟩ := switch_inv places₂ owns₂ idle₂ fun t ht => by
    refine placed_after rfl fun h => ?_
    rw [loc₁, update_of_ne h]
    exact inv.placed ht
  refine ⟨b', inv', ?_⟩
  rw [queue]
  simp [queue₁]

/-- **Blocking.** A user thread gives up the hart and goes to the end of a queue. -/
theorem block_inv (inv : k.Inv b recs) {i : QueueId} (hi : k.view.Active i) (queue : i ≠ .ready)
    (user : k.scheduler.threadCurrent ∈ k.hist.live) {k' : Kernel}
    (view : k'.view = (switch k).view.enqueue i k.scheduler.threadCurrent)
    (current : k'.scheduler.threadCurrent = (switch k).scheduler.threadCurrent) :
    ∃ b', k'.Inv b' recs ∧ b'.queue = update (update b.queue .ready (b.queue .ready).tail) i
      (b.queue i ++ [k.scheduler.threadCurrent]) := by
  obtain ⟨b₁, places₁, queue₁, loc₁, idle₁⟩ := inv.detach
  have here : b₁.loc k.scheduler.threadCurrent = none := by simp [loc₁]
  have notMain : k.scheduler.threadCurrent ≠ k.scheduler.kernelMain :=
    fun e => main_not_live inv.owns (e ▸ user)
  -- the thread that runs next is another one
  have other : k.scheduler.threadCurrent ≠ nextThread b₁ k.scheduler.kernelMain := by
    unfold nextThread
    cases hq : b₁.queue .ready with
    | nil => exact notMain
    | cons r rs =>
      intro e
      have hr := b₁.loc_head hq
      rw [List.headD_cons] at e
      rw [← e, here] at hr
      cases hr
  obtain ⟨b₂, places₂, current₂, queue₂, loc₂⟩ := switch_places places₁ idle₁
  have free : b₂.loc k.scheduler.threadCurrent = none := by
    rw [loc₂, update_of_ne other, here]
  have owned : k'.view.owned recs = k.view.owned recs := by
    rw [view]
    exact congrFun (switch_owned k) recs
  have heap : k'.heap = k.heap := (congrArg View.heap view).trans (switch_heap k)
  have live : k'.hist.live = k.hist.live :=
    (congrArg View.live view).trans (congrArg History.live (switch_hist k))
  have main : (switch k).view.kernelMain = k.scheduler.kernelMain := by
    rw [switch_view]
    split <;> rfl
  have active : (switch k).view.Active i := by
    rw [switch_view]
    split <;> exact hi
  have thread : (switch k).view.Thread k.scheduler.threadCurrent := by
    rw [switch_view]
    split <;> exact Or.inl user
  refine ⟨b₂.enqueue i k.scheduler.threadCurrent free, ⟨?_, ?_, ?_, ?_⟩, ?_⟩
  · rw [view]
    exact places₂.enqueue active thread (thread_pos inv.owns (Or.inl user))
      (fun e => absurd (e.trans main) notMain) free
  · rw [heap, owned]
    exact inv.owns
  · intro t
    rw [Board.enqueue_loc, update_apply, current, current₂]
    split
    · next h => simpa [h] using other
    · exact running_after idle₁ loc₂
  · intro t ht
    rw [live] at ht
    refine placed_after rfl fun h => placed_after loc₂ fun _ => ?_
    rw [loc₁, update_of_ne h]
    exact inv.placed ht
  · rw [Board.enqueue_queue, queue₂, queue₁, update_of_ne queue]

/-- **Waking.** The first thread of a queue goes to the end of the ready queue. -/
theorem wake_inv (inv : k.Inv b recs) {i : QueueId} (hi : k.view.Active i) (queue : i ≠ .ready)
    {w : Nat} {ws : List Nat} (first : b.queue i = w :: ws) {k' : Kernel}
    (view : k'.view = ((k.view.dequeue i).setSlice w defaultTimeSlice).enqueue .ready w)
    (current : k'.scheduler.threadCurrent = k.scheduler.threadCurrent) :
    k.view.head i = w ∧ ∃ b', k'.Inv b' recs ∧
      b'.queue = update (update b.queue i ws) .ready (b.queue .ready ++ [w]) := by
  obtain ⟨head, places₁⟩ := inv.places.dequeue hi first
  have here := b.loc_head first
  have thread : k.view.Thread w := inv.places.known (by rw [here]; simp)
  have free : (b.dequeue i w ws first).loc w = none := by simp
  have places₂ := (places₁.setSlice (t := w) (n := defaultTimeSlice) (Or.inr rfl)).enqueue
    (i := .ready) trivial thread (thread_pos inv.owns thread) (fun _ => rfl) free
  have heap : k'.heap = k.heap := congrArg View.heap view
  have live : k'.hist.live = k.hist.live := congrArg View.live view
  have owned : k'.view.owned recs = k.view.owned recs := by rw [view]; rfl
  refine ⟨head, (b.dequeue i w ws first).enqueue .ready w free, ⟨?_, ?_, ?_, ?_⟩, ?_⟩
  · rw [view]
    exact places₂
  · rw [heap, owned]
    exact inv.owns
  · intro t
    rw [current, ← inv.running, Board.enqueue_loc, Board.dequeue_loc, update_idem, update_apply]
    split
    · next h => simp [h, here]
    · rfl
  · intro t ht
    rw [live] at ht
    refine placed_after rfl fun h => ?_
    rw [Board.dequeue_loc, update_of_ne h]
    exact inv.placed ht
  · rw [Board.enqueue_queue, Board.dequeue_queue, update_of_ne queue.symm]

end

end RiscvKernel
