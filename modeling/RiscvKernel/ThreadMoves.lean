import RiscvKernel.SemMoves

/-!
# The creation and the end of a thread

* `threadCreated_inv`: a new thread starts at the end of the ready queue and
  owns its control block and its stack;
* `threadExit_spec`: an exiting thread has no place any more, and its control
  block and its stack go back to the heap.
-/

namespace RiscvKernel
open Function Intrusive Placement

theorem View.Places.sameThreads {v : View} {b : Threads} {recs : List Nat} (h : v.Places b recs)
    (heap : Heap) (boot userBlocks : List (Nat × Nat)) :
    { v with heap, boot, userBlocks }.Places b recs := { h with }

/-- `__thread_create` after its allocation, in user mode. -/
def Kernel.threadCreated (k : Kernel) (handle startF arg stackSpace p : Nat) (heap : Heap) :
    Kernel :=
  let k := { k with heap }
  let sp := u64 (stackSpace - contextSize)
  let k := k.modifyThread p fun _ => {
    sp
    bp := u64 (stackSpace - defaultStackSize + 8)
    timeLeft := defaultTimeSlice
    sstatus := ExecMode.user.sstatus k.hart.sstatus
    sepc := k.image.threadWrapper }
  let k := threadFrame k sp startF arg
  let k := schedulerUserThreadIncrement k
  let k := k.poke handle p
  let k := schedulerPush k p
  k.note fun h => { h with
    live := p :: h.live
    userBlocks := h.userBlocks.erase (stackBlock stackSpace)
    past := update h.past p (.created startF arg stackSpace) }

theorem threadCreated_view (k : Kernel) (handle startF arg stackSpace p : Nat) (heap : Heap) :
    (k.threadCreated handle startF arg stackSpace p heap).view =
      { k.view with
        heap
        timeLeft := update k.view.timeLeft p defaultTimeSlice
        bp := update k.view.bp p (stackBlock stackSpace).1
        userThreadCount := u64 (k.view.userThreadCount + 1)
        userBlocks := k.view.userBlocks.erase (stackBlock stackSpace)
        live := p :: k.view.live : View }.enqueue .ready p := by
  let k₁ := (({ k with heap }.modifyThread p fun _ => {
    sp := u64 (stackSpace - contextSize)
    bp := u64 (stackSpace - defaultStackSize + 8)
    timeLeft := defaultTimeSlice
    sstatus := ExecMode.user.sstatus k.hart.sstatus
    sepc := k.image.threadWrapper } : Kernel).note fun h =>
      { h with
        live := p :: h.live
        userBlocks := h.userBlocks.erase (stackBlock stackSpace) })
  calc (k.threadCreated handle startF arg stackSpace p heap).view
      = { (schedulerPush k₁ p).view with userThreadCount := u64 (k.view.userThreadCount + 1) } :=
        rfl
    _ = { (k₁.view.setSlice p defaultTimeSlice).enqueue .ready p with
          userThreadCount := u64 (k.view.userThreadCount + 1) } := by rw [schedulerPush_view]
    _ = _ := by
        have view : k₁.view = { k.view with
            heap
            timeLeft := update k.view.timeLeft p defaultTimeSlice
            bp := update k.view.bp p (stackBlock stackSpace).1
            userBlocks := k.view.userBlocks.erase (stackBlock stackSpace)
            live := p :: k.view.live } :=
          congrArg (fun v : View => { v with
            userBlocks := k.view.userBlocks.erase (stackBlock stackSpace)
            live := p :: k.view.live })
            (modifyThread_view { k with heap } p _)
        rw [view]
        simp [View.setSlice, View.enqueue]

section
variable {k : Kernel} {b : Threads} {recs : List Nat}

theorem live_length_lt (owns : k.heap.Holds (k.view.owned recs)) : k.hist.live.length < 2 ^ 31 := by
  have := owns.card_le
  have := owns.ok.bound
  have : k.view.live.length = k.hist.live.length := rfl
  simp only [View.owned, View.kept, Multiset.card_add, Multiset.card_map, Multiset.coe_card] at *
  omega

/-- **Creation.** `p` and the stack that ends at `stackSpace` are new in the heap. -/
theorem threadCreated_inv (places : k.view.Places b recs)
    (running : ∀ {t}, b.loc t = some (.spot .running) ↔ t = k.scheduler.threadCurrent)
    (placed : ∀ {t}, t ∈ k.hist.live → b.loc t ≠ none) {stackSpace p : Nat} {heap : Heap}
    (holds : heap.Holds ((p, sizeInBlocks 56) ::ₘ stackBlock stackSpace ::ₘ
      { k.view with userBlocks := k.view.userBlocks.erase (stackBlock stackSpace) }.owned recs))
    (handle startF arg : Nat) :
    ∃ b', (k.threadCreated handle startF arg stackSpace p heap).Inv b' recs ∧
      b'.queue = update b.queue .ready (b.queue .ready ++ [p]) := by
  have starts := holds.starts
  have nonzero : p ≠ 0 := (starts.2 (p, sizeInBlocks 56) (Multiset.mem_cons_self _ _)).ne'
  have fresh := starts.1
  rw [Multiset.map_cons, Multiset.map_cons, Multiset.nodup_cons, View.owned_starts] at fresh
  have notLive : p ∉ k.view.live := fun h => fresh.1 (by simp [h])
  have notMain : p ≠ k.view.kernelMain := fun h => fresh.1 (by
    simp [h, Kernel.view, Kernel.bootBlocks])
  have notThread : ¬ k.view.Thread p := not_or.mpr ⟨notLive, notMain⟩
  have free : b.loc p = none := by
    by_contra h
    exact notThread (places.known h)
  have short : k.view.live.length + 1 < 2 ^ 64 := by
    have card := holds.card_le
    have := holds.ok.bound
    simp only [View.owned, View.kept, Multiset.card_add, Multiset.card_map, Multiset.card_cons,
      Multiset.coe_card] at card
    omega
  let v : View := { k.view with
    heap
    timeLeft := update k.view.timeLeft p defaultTimeSlice
    bp := update k.view.bp p (stackBlock stackSpace).1
    userThreadCount := u64 (k.view.userThreadCount + 1)
    userBlocks := k.view.userBlocks.erase (stackBlock stackSpace)
    live := p :: k.view.live }
  have places₁ : v.Places b recs := by
    refine ⟨places.rings, places.sleepers, places.asleep, places.untimed, places.range, ?_,
      places.main, ?_, ?_⟩
    · intro t ht
      exact (places.known ht).imp (List.mem_cons_of_mem p) id
    · intro t ht
      show update k.view.timeLeft p defaultTimeSlice t = 1 ∨
        update k.view.timeLeft p defaultTimeSlice t = 2
      rw [update_apply]
      split
      · exact Or.inr rfl
      · next h => exact places.slices (ht.imp (fun x => (List.mem_cons.mp x).resolve_left h) id)
    · show u64 (k.view.userThreadCount + 1) = (p :: k.view.live).length
      rw [places.count, List.length_cons]
      exact_mod_cast u64_natCast short
  have new : v.Thread p := Or.inl List.mem_cons_self
  have places₂ := places₁.enqueue (i := .ready) trivial new nonzero (fun _ => rfl) free
  have view : (k.threadCreated handle startF arg stackSpace p heap).view = v.enqueue .ready p :=
    threadCreated_view ..
  have owned : (v.enqueue .ready p).owned recs =
      (p, sizeInBlocks 56) ::ₘ stackBlock stackSpace ::ₘ
        { k.view with userBlocks := k.view.userBlocks.erase (stackBlock stackSpace) }.owned
          recs := by
    have theirs : (k.view.live : Multiset Nat).map (v.enqueue .ready p).stack =
        (k.view.live : Multiset Nat).map k.view.stack := by
      refine Multiset.map_congr rfl fun t ht => ?_
      have ne : t ≠ p := fun e => notLive (e ▸ Multiset.mem_coe.mp ht)
      show (update k.view.bp p _ t, _) = _
      rw [update_of_ne ne]
      rfl
    have mine : (v.enqueue .ready p).stack p = stackBlock stackSpace := by
      show (update k.view.bp p _ p, _) = _
      rw [update_self]
      rfl
    let live : Multiset Nat := ((p :: k.view.live : List Nat) : Multiset Nat)
    show recordBlocks recs + (_ + _ + live.map _ + live.map (v.enqueue .ready p).stack + _) = _
    have split : live = p ::ₘ (k.view.live : Multiset Nat) := rfl
    rw [split, Multiset.map_cons, Multiset.map_cons, theirs, mine]
    simp only [Multiset.cons_add, Multiset.add_cons]
    exact Multiset.cons_swap ..
  refine ⟨b.enqueue .ready p free, ⟨?_, ?_, ?_, ?_⟩, rfl⟩
  · rw [view]
    exact places₂
  · rw [view, owned]
    exact holds
  · intro t
    show _ ↔ t = k.scheduler.threadCurrent
    rw [Board.enqueue_loc, update_apply]
    split
    · next h =>
      have : b.loc t ≠ some (.spot .running) := by
        rw [h, free]
        simp
      simpa using running.not.mp this
    · exact running
  · intro t ht
    refine placed_after rfl fun h => ?_
    exact placed ((List.mem_cons.mp ht).resolve_left h)

/-- `__thread_exit` of a user thread, up to the two frees. -/
def Kernel.threadExited (k : Kernel) : Kernel :=
  switch ((schedulerUserThreadDecrement k).note fun h =>
    { h with live := h.live.erase k.scheduler.threadCurrent })

theorem yield_old (k : Kernel) (old new : Nat) :
    ((yield k old new).thread old).sp = k.hart.sscratch ∧
      ((yield k old new).thread old).bp = (k.thread old).bp := by
  unfold yield
  split
  · simp [Kernel.modifyThread]
  · simp

/-- **Exit.** A thread whose last frame lies above its `bp` gives back its
control block and its stack. -/
theorem threadExit_spec (inv : k.Inv b recs) (user : k.scheduler.threadCurrent ∈ k.hist.live)
    (mode : k.hart.sstatus.testBit 8 = false) :
    if k.hart.sscratch < (k.thread k.scheduler.threadCurrent).bp then
      threadExit k = .error (.panic "Stack overflow\n")
    else
      ∃ h' b', threadExit k = .ok { k.threadExited with heap := h' } ∧
        Kernel.Inv { k.threadExited with heap := h' } b' recs ∧
        b'.queue = update b.queue .ready (b.queue .ready).tail := by
  let c := k.scheduler.threadCurrent
  let k₁ := (schedulerUserThreadDecrement k).note fun h => { h with live := h.live.erase c }
  have run : threadExit k = threadDelete k.threadExited c := by
    unfold threadExit
    rw [mode]
    rfl
  have old : (k.threadExited.thread c).sp = k.hart.sscratch ∧
      (k.threadExited.thread c).bp = (k.thread c).bp := by
    have same : ((schedulerNext k₁).2.hart = k.hart) ∧ (schedulerNext k₁).2.thread = k.thread := by
      unfold schedulerNext
      split <;> exact ⟨rfl, rfl⟩
    obtain ⟨sp, bp⟩ := yield_old (schedulerNext k₁).2 c (schedulerNext k₁).1
    rw [same.1] at sp
    rw [same.2] at bp
    exact ⟨sp, bp⟩
  rw [run]
  unfold threadDelete
  rw [old.1, old.2]
  split
  · rfl
  -- the board without the thread
  obtain ⟨b₁, places₁, queue₁, loc₁, idle₁⟩ := inv.detach
  have nodup := (owned_nodup inv.owns).1
  have count : k₁.view.userThreadCount = (k.hist.live.erase c).length := by
    have pos := List.length_pos_of_mem user
    have lt := live_length_lt inv.owns
    have now : k.scheduler.userThreadCount = k.hist.live.length := inv.places.count
    show u64 (k.scheduler.userThreadCount - 1) = _
    rw [List.length_erase_of_mem user, now, u64_eq] <;> omega
  have places₂ : k₁.view.Places b₁ recs := by
    refine ⟨places₁.rings, places₁.sleepers, places₁.asleep, places₁.untimed, places₁.range, ?_,
      places₁.main, ?_, count⟩
    · intro t ht
      have ne : t ≠ c := by
        rintro rfl
        refine ht ?_
        rw [loc₁]
        exact update_self ..
      refine (places₁.known ht).imp (fun h => ?_) id
      exact (List.mem_erase_of_ne ne).mpr h
    · intro t ht
      exact places₁.slices (ht.imp List.mem_of_mem_erase id)
  obtain ⟨b', places', current, queue, loc⟩ := switch_places places₂ idle₁
  have owned : k.view.owned recs = ((k.thread c).bp, sizeInBlocks defaultStackSize) ::ₘ
      (c, sizeInBlocks 56) ::ₘ k₁.view.owned recs := by
    have split : (k.hist.live : Multiset Nat) = c ::ₘ ↑(k.hist.live.erase c) :=
      Quotient.sound (List.perm_cons_erase user)
    show recordBlocks recs + (_ + _ + Multiset.map _ (k.hist.live : Multiset Nat) +
      Multiset.map _ (k.hist.live : Multiset Nat) + _) = _
    rw [split]
    simp only [Multiset.map_cons, Multiset.add_cons, Multiset.cons_add]
    rfl
  have holds : k.threadExited.heap.Holds (((k.thread c).bp, sizeInBlocks defaultStackSize) ::ₘ
      (c, sizeInBlocks 56) ::ₘ k₁.view.owned recs) := by
    rw [← owned]
    show (switch k₁).heap.Holds _
    rw [switch_heap]
    exact inv.owns
  obtain ⟨h₁, eq₁, -, holds₁⟩ :=
    freeOrPanic_spec holds "Failed to free thread stack, memory corruption\n"
  obtain ⟨h₂, eq₂, -, holds₂⟩ := freeOrPanic_spec (k := { k.threadExited with heap := h₁ }) holds₁
    "Failed to free thread, memory corruption\n"
  refine ⟨h₂, b', ?_, ⟨{ places' with }, ?_, ?_, ?_⟩, ?_⟩
  · show (freeOrPanic _ _ _ >>= fun k => freeOrPanic k c _) = _
    rw [eq₁]
    exact eq₂
  · have same : View.owned (Kernel.view { k.threadExited with heap := h₂ }) = k₁.view.owned :=
      switch_owned k₁
    rw [same]
    exact holds₂
  · show ∀ {t}, _ ↔ t = (switch k₁).scheduler.threadCurrent
    rw [current]
    exact running_after idle₁ loc
  · intro t ht
    have ht : t ∈ (switch k₁).hist.live := ht
    rw [switch_hist] at ht
    obtain ⟨ne, live⟩ := nodup.mem_erase_iff.mp ht
    refine placed_after loc fun _ => ?_
    rw [loc₁, update_of_ne ne]
    exact inv.placed live
  · rw [queue, queue₁]

end

end RiscvKernel
