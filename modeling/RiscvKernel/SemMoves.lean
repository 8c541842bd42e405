import RiscvKernel.Saved

/-!
# Semaphore operations as moves
-/

namespace RiscvKernel
open Function Intrusive Placement DeltaList

/-! ## Changes that the view does not see -/

section
variable (k : Kernel)

theorem modifySem_view (s : Nat) (f : Sem → Sem)
    (keeps : (f (k.sem s)).waitingThreads = (k.sem s).waitingThreads) :
    (k.modifySem s f).view = k.view := by
  have head : (k.modifySem s f).head = k.head := by
    rw [head_sem, keeps]
    exact update_eq_self (QueueId.sem s) k.head
  calc (k.modifySem s f).view = { k.view with head := (k.modifySem s f).head } := rfl
    _ = k.view := by rw [head]; rfl

end

/-- The invariant reads the view, the current thread and the history of live threads. -/
theorem Kernel.Inv.congr {k k' : Kernel} {b : Threads} {recs : List Nat} (inv : k.Inv b recs)
    (view : k'.view = k.view)
    (current : k'.scheduler.threadCurrent = k.scheduler.threadCurrent) : k'.Inv b recs where
  places := view ▸ inv.places
  owns := by
    have heap : k'.heap = k.heap := congrArg View.heap view
    rw [view, heap]
    exact inv.owns
  running := current ▸ inv.running
  placed := by
    have live : k'.hist.live = k.hist.live := congrArg View.live view
    intro t ht
    exact inv.placed (live ▸ ht)

section
variable {k : Kernel} {b : Threads} {recs : List Nat}

/-! ## Waiting -/

/-- The counting half of `__sem_wait`. -/
def Kernel.waited (k : Kernel) (s : Nat) : Kernel :=
  (k.modifySem s fun x => { x with val := toI32 (x.val - 1) }).note fun h =>
    { h with waits := update h.waits s (h.waits s + 1) }

theorem waited_val (k : Kernel) (s : Nat) :
    ((k.waited s).sem s).val = toI32 ((k.sem s).val - 1) := by
  simp [Kernel.waited, Kernel.note, Kernel.modifySem]

theorem semWait_run (k : Kernel) (s : Nat) :
    semWait k s = if toI32 ((k.sem s).val - 1) < 0 then
      (1, semPush (switch (k.waited s)) s k.scheduler.threadCurrent) else (0, k.waited s) := by
  rw [← waited_val]
  rfl

theorem waited_inv (inv : k.Inv b recs) (s : Nat) : (k.waited s).Inv b recs :=
  inv.congr (modifySem_view k s (fun x => { x with val := toI32 (x.val - 1) }) rfl) rfl

/-- **Waiting.** A wait that brings `val` below 0 blocks the current thread. -/
theorem semWait_spec (inv : k.Inv b recs) {s : Nat} (opened : s ∈ k.hist.opened)
    (user : k.scheduler.threadCurrent ∈ k.hist.live) :
    if toI32 ((k.sem s).val - 1) < 0 then
      semWait k s = (1, semPush (switch (k.waited s)) s k.scheduler.threadCurrent) ∧
      ∃ b', (semPush (switch (k.waited s)) s k.scheduler.threadCurrent).Inv b' recs ∧
        b'.queue = update (update b.queue .ready (b.queue .ready).tail) (.sem s)
          (b.queue (.sem s) ++ [k.scheduler.threadCurrent])
    else
      semWait k s = (0, k.waited s) := by
  rw [semWait_run]
  split
  · exact ⟨rfl, block_inv (waited_inv inv s) (i := .sem s) opened (by simp) user
      (semPush_view ..) rfl⟩
  · rfl

/-! ## Signalling -/

/-- `__sem_unblock_thread` on a semaphore whose first waiting thread is `w`. -/
def Kernel.unblocked (k : Kernel) (s w : Nat) : Kernel :=
  schedulerPush ((semNext k s).2.setContext (k.thread w).sp regA0 0) w

theorem semUnblockThread_spec (inv : k.Inv b recs) {s w : Nat} {ws : List Nat}
    (opened : s ∈ k.hist.opened) (first : b.queue (.sem s) = w :: ws) :
    semUnblockThread k s = .ok (k.unblocked s w) ∧ ∃ b', (k.unblocked s w).Inv b' recs ∧
      b'.queue = update (update b.queue (.sem s) ws) .ready (b.queue .ready ++ [w]) := by
  have view : (k.unblocked s w).view =
      ((k.view.dequeue (.sem s)).setSlice w defaultTimeSlice).enqueue .ready w := by
    unfold Kernel.unblocked
    rw [schedulerPush_view]
    have : ((semNext k s).2.setContext (k.thread w).sp regA0 0).view =
        k.view.dequeue (.sem s) := semNext_view k s
    rw [this]
  obtain ⟨head, b', inv', queue⟩ := wake_inv inv (i := .sem s) opened (by simp) first view rfl
  refine ⟨?_, b', inv', queue⟩
  have thread : k.view.Thread w := inv.places.known (by rw [b.loc_head first]; simp)
  have running : ((semNext k s).2.thread w).timeLeft ≠ 0 := by
    have slice : (k.thread w).timeLeft = 1 ∨ (k.thread w).timeLeft = 2 :=
      inv.places.slices thread
    have same : (semNext k s).2.thread w = k.thread w := rfl
    rw [same]
    omega
  have head : (semNext k s).1 = w := head
  unfold semUnblockThread
  simp only [head, running, ↓reduceIte]
  rfl

/-- The counting half of `__sem_signal`. -/
def Kernel.signalled (k : Kernel) (s : Nat) : Kernel :=
  (k.modifySem s fun x => { x with val := toI32 (x.val + 1) }).note fun h =>
    { h with signals := update h.signals s (h.signals s + 1) }

theorem signalled_sem (k : Kernel) (s : Nat) :
    (k.signalled s).sem s = { k.sem s with val := toI32 ((k.sem s).val + 1) } := by
  simp [Kernel.signalled, Kernel.note, Kernel.modifySem]

theorem semSignal_run (k : Kernel) (s : Nat) :
    semSignal k s = if toI32 ((k.sem s).val + 1) ≤ 0 then
        (if (k.sem s).waitingThreads = 0 then .ok (semSignalNoThreads, k.signalled s)
        else semUnblockThread (k.signalled s) s >>= fun k => .ok (0, k))
      else .ok (0, k.signalled s) := by
  have run : semSignal k s = if ((k.signalled s).sem s).val ≤ 0 then
        (if ((k.signalled s).sem s).waitingThreads = 0 then
          .ok (semSignalNoThreads, k.signalled s)
        else semUnblockThread (k.signalled s) s >>= fun k => .ok (0, k))
      else .ok (0, k.signalled s) := rfl
  rw [run, signalled_sem]

theorem signalled_inv (inv : k.Inv b recs) (s : Nat) : (k.signalled s).Inv b recs :=
  inv.congr (modifySem_view k s (fun x => { x with val := toI32 (x.val + 1) }) rfl) rfl

/-- **Signalling.** A signal that leaves `val` at 0 or below wakes the thread
that has waited longest. -/
theorem semSignal_spec (inv : k.Inv b recs) {s : Nat} (opened : s ∈ k.hist.opened) :
    if toI32 ((k.sem s).val + 1) ≤ 0 then
      match b.queue (.sem s) with
      | [] => semSignal k s = .ok (semSignalNoThreads, k.signalled s)
      | w :: ws => semSignal k s = .ok (0, (k.signalled s).unblocked s w) ∧
        ∃ b', ((k.signalled s).unblocked s w).Inv b' recs ∧
          b'.queue = update (update b.queue (.sem s) ws) .ready (b.queue .ready ++ [w])
    else
      semSignal k s = .ok (0, k.signalled s) := by
  have inv₁ := signalled_inv inv s
  have head : (k.sem s).waitingThreads = 0 ↔ b.queue (.sem s) = [] :=
    (inv.places.rings.ring (.sem s) opened).head_null
  rw [semSignal_run]
  split
  · next low =>
    cases hq : b.queue (.sem s) with
    | nil => exact if_pos (head.mpr hq)
    | cons w ws =>
      obtain ⟨eq, b', inv', queue⟩ := semUnblockThread_spec inv₁ opened hq
      refine ⟨?_, b', inv', queue⟩
      rw [if_neg (fun e => by simpa [hq] using head.mp e), eq]
      rfl
  · rfl

end

/-! ## Opening -/

namespace View
variable {v : View} {b : Threads} {recs : List Nat}

theorem Places.openSem (h : v.Places b recs) {s : Nat} (fresh : s ∉ v.opened) (heap : Heap) :
    { v with heap, head := update v.head (.sem s) 0, opened := s :: v.opened }.Places b recs where
  rings := by
    have empty : b.queue (.sem s) = [] := h.rings.idle (.sem s) fresh
    refine ⟨fun i hi => ?_, fun i hi => ?_⟩
    · by_cases e : i = .sem s
      · subst e
        show IsRing v.links (update v.head _ _ _) _
        rw [update_self, empty]
        rfl
      · show IsRing v.links (update v.head _ _ _) _
        rw [update_of_ne e]
        refine h.rings.ring i ?_
        match i, e, hi with
        | .ready, _, _ => trivial
        | .input, _, _ => trivial
        | .sem s', e, hi => exact (List.mem_cons.mp hi).resolve_left fun x => e (x ▸ rfl)
    · refine h.rings.idle i fun active => hi ?_
      match i, active with
      | .ready, _ => trivial
      | .input, _ => trivial
      | .sem s', active => exact List.mem_cons_of_mem s active
  sleepers := h.sleepers
  asleep := h.asleep
  untimed := h.untimed
  range := h.range
  known := h.known
  main := h.main
  slices := h.slices
  count := h.count

/-- The waiting threads of a closed semaphore have no place. -/
theorem Places.closeSem (h : v.Places b recs) {s : Nat} (nodup : v.opened.Nodup) :
    { v with opened := v.opened.erase s }.Places (b.forget (b.queue (.sem s))) recs where
  rings := by
    refine ⟨fun i hi => ?_, fun i hi => ?_⟩
    · have active : i ≠ .sem s ∧ v.Active i := by
        match i, hi with
        | .ready, _ => exact ⟨by simp, trivial⟩
        | .input, _ => exact ⟨by simp, trivial⟩
        | .sem s', hi =>
          have := nodup.mem_erase_iff.mp hi
          exact ⟨by simpa using this.1, this.2⟩
      rw [Board.forget_queue_other b active.1]
      exact h.rings.ring i active.2
    · by_cases e : i = .sem s
      · subst e
        exact Board.forget_queue_self b (.sem s)
      · rw [Board.forget_queue_other b e]
        refine h.rings.idle i fun active => hi ?_
        match i, e, active with
        | .ready, _, _ => trivial
        | .input, _, _ => trivial
        | .sem s', e, active => exact nodup.mem_erase_iff.mpr ⟨by simpa using e, active⟩
  sleepers := h.sleepers
  asleep := by
    intro t r
    rw [Board.forget_loc]
    split
    · next ht =>
      have waiting := b.mem_queue.mp ht
      simp only [reduceCtorEq, false_iff]
      intro hr
      rw [h.asleep.mpr hr] at waiting
      cases waiting
    · exact h.asleep
  untimed := h.untimed
  range := h.range
  known := by
    intro t ht
    refine h.known fun e => ht ?_
    rw [Board.forget_loc, e, ite_self]
  main := by
    intro p hp
    rw [Board.forget_loc] at hp
    split at hp
    · cases hp
    · exact h.main hp
  slices := h.slices
  count := h.count

end View

/-- `__sem_open` after its allocation. -/
def Kernel.semOpened (k : Kernel) (handle init s : Nat) (heap : Heap) : Kernel :=
  let k := { k with heap }
  let k := k.modifySem s fun _ => { val := toI32 init, init := toI32 init, waitingThreads := 0 }
  let k := k.poke handle s
  let k := { k with semTable := k.semTable.add s }
  k.note fun h => { h with
    opened := s :: h.opened
    waits := update h.waits s 0
    signals := update h.signals s 0
    blocked := update h.blocked s [] }

section
variable {k : Kernel} {b : Threads} {recs : List Nat}

/-- **Opening.** -/
theorem semOpen_spec (inv : k.Inv b recs) (serves : k.heap.Serves (sizeInBlocks 16))
    (handle init : Nat) :
    (∃ h', semOpen k handle init = .ok (semCreateNoMemory, { k with heap := h' }) ∧
      Kernel.Inv { k with heap := h' } b recs) ∨
    ∃ s h', semOpen k handle init = .ok (0, k.semOpened handle init s h') ∧ s ≠ 0 ∧
      s ∉ k.hist.opened ∧ (k.semOpened handle init s h').Inv b recs := by
  obtain ⟨s, h', eq, ⟨rfl, holds⟩ | ⟨nonzero, holds, fresh⟩⟩ :=
    alloc_served inv.owns (by decide) serves
  · refine Or.inl ⟨h', ?_, ⟨⟨inv.places.rings, inv.places.sleepers, inv.places.asleep,
      inv.places.untimed, inv.places.range, inv.places.known, inv.places.main, inv.places.slices,
      inv.places.count⟩, holds, inv.running, inv.placed⟩⟩
    unfold semOpen
    rw [eq]
    rfl
  · have new : s ∉ k.hist.opened := by
      intro hs
      rw [View.owned_starts] at fresh
      exact fresh (by simp [Kernel.view, hs])
    have view : (k.semOpened handle init s h').view = { k.view with
        heap := h', head := update k.head (.sem s) 0, opened := s :: k.hist.opened } := by
      rw [← head_sem k s fun _ => ⟨toI32 init, toI32 init, 0⟩]
      rfl
    refine Or.inr ⟨s, h', ?_, nonzero, new, ?_, ?_, inv.running, inv.placed⟩
    · unfold semOpen
      rw [eq]
      exact if_neg nonzero
    · rw [view]
      exact inv.places.openSem new h'
    · have owned : (k.semOpened handle init s h').view.owned recs =
          (s, sizeInBlocks 16) ::ₘ k.view.owned recs := by
        rw [view]
        simp only [View.owned, View.kept, ← Multiset.cons_coe, Multiset.map_cons,
          Multiset.add_cons]
        rfl
      rw [owned]
      exact holds

theorem semOpen_room (inv : k.Inv b recs) (room : k.heap.HasRoom (sizeInBlocks 16))
    (handle init : Nat) : ∃ s h', memAlloc (sizeInBlocks 16) k.heap = .ok (s, h') ∧
      semOpen k handle init = .ok (0, k.semOpened handle init s h') ∧
      (k.semOpened handle init s h').Inv b recs := by
  obtain ⟨s, h', alloc, -, holds⟩ := memAlloc_spec inv.owns (by decide) room
  have nonzero : s ≠ 0 := (holds.starts.2 (s, sizeInBlocks 16) (Multiset.mem_cons_self _ _)).ne'
  have run : semOpen k handle init = .ok (0, k.semOpened handle init s h') := by
    unfold semOpen Kernel.alloc
    rw [alloc]
    exact if_neg nonzero
  refine ⟨s, h', alloc, run, ?_⟩
  rcases semOpen_spec inv (Or.inl room) handle init with ⟨h', eq, -⟩ | ⟨s, h', eq, -, -, inv'⟩
  · have same : (0 : Int) = semCreateNoMemory :=
      congrArg Prod.fst (Except.ok.inj (run.symm.trans eq))
    exact absurd same (by decide)
  · have same : k.semOpened handle init _ _ = _ :=
      congrArg Prod.snd (Except.ok.inj (run.symm.trans eq))
    rwa [same]

end

/-! ## Closing -/

theorem pushAll_mem (k : Kernel) (m : Nat → Nat) (ts : List Nat) :
    pushAll { k with mem := m } ts = { pushAll k ts with mem := m } := by
  induction ts generalizing k with
  | nil => rfl
  | cons t ts ih => exact ih (schedulerPush k t)

theorem semCloseLoop_run {first : Nat} (ws : List Nat) : ∀ fuel k rs w,
    IsRing k.links k.scheduler.readyThreads rs → Chain k.links first (w :: ws) → first ∉ ws →
    (w :: ws).Nodup → (∀ x ∈ w :: ws, x ∉ rs ∧ x ≠ 0) → ws.length < fuel →
    semCloseLoop first fuel k w = .ok { pushAll k (w :: ws) with
      mem := answers k.sp ((w :: ws).map fun t => (t, u64 semClosedExternally)) k.mem } := by
  induction ws with
  | nil =>
    intro fuel k rs w _ chain _ _ _ hf
    obtain ⟨fuel, rfl⟩ : ∃ n, fuel = n + 1 := ⟨fuel - 1, by simp at hf; omega⟩
    exact if_pos chain.1
  | cons x ws ih =>
    intro fuel k rs w ring chain out nodup apart hf
    obtain ⟨fuel, rfl⟩ : ∃ n, fuel = n + 1 := ⟨fuel - 1, by simp at hf; omega⟩
    have next : k.links.next w = x := chain.1
    have notFirst : ¬ k.links.next w = first := by
      rw [next]
      exact fun e => out (e ▸ List.mem_cons_self)
    obtain ⟨notNext, nodup'⟩ := List.nodup_cons.mp nodup
    obtain ⟨here, nonzero⟩ := apart w List.mem_cons_self
    obtain ⟨pushed, frame⟩ := ring_push ring here nonzero
    let k₁ := (schedulerPush k w).setContext (k.thread w).sp regA0 (u64 semClosedExternally)
    have sp : k₁.sp = k.sp := schedulerPush_sp k w
    have run := ih fuel k₁ (rs ++ [w]) x pushed
      (chain.2.congr fun y hy => (frame y (apart y (List.mem_cons_of_mem w hy)).1
        fun e => notNext (e ▸ hy)).1)
      (fun h => out (List.mem_cons_of_mem x h)) nodup' (fun y hy => by
        have ne : y ≠ w := fun e => notNext (e ▸ hy)
        have := apart y (List.mem_cons_of_mem w hy)
        simpa [ne] using this) (by simpa using hf)
    rw [semCloseLoop]
    simp only [notFirst, ↓reduceIte]
    rw [next]
    refine run.trans ?_
    have push : pushAll k₁ (x :: ws) = { pushAll k (w :: x :: ws) with mem := k₁.mem } :=
      pushAll_mem (schedulerPush k w) _ (x :: ws)
    rw [push, sp]
    rfl

/-- `__sem_close` on a semaphore with the waiting threads `ws`. -/
def Kernel.semClosed (k : Kernel) (s : Nat) (ws : List Nat) (heap : Heap) : Kernel :=
  { pushAll (k.note fun h => { h with opened := h.opened.erase s }) ws with
    mem := answers k.sp (ws.map fun t => (t, u64 semClosedExternally)) k.mem
    heap }

section
variable {k : Kernel} {b : Threads} {recs : List Nat}

theorem Kernel.Inv.queue_length_le (inv : k.Inv b recs) {s : Nat} :
    (b.queue (.sem s)).length ≤ k.heap.nMemBlocks := by
  have live : b.queue (.sem s) ⊆ k.hist.live := by
    intro t ht
    have loc := b.mem_queue.mp ht
    rcases inv.places.known (t := t) (by rw [loc]; simp) with h | rfl
    · exact h
    · rcases inv.places.main loc with h | h <;> simp at h
  have short : (b.queue (.sem s)).length ≤ k.hist.live.length :=
    ((b.nodup _).subperm live).length_le
  have card := inv.owns.card_le
  simp only [View.owned, View.kept, Multiset.card_add, Multiset.card_map, Multiset.coe_card] at card
  have : k.view.live.length = k.hist.live.length := rfl
  omega

/-- What `__sem_close` does to the threads `ws` that wait, whatever the sleeping list holds. -/
theorem semClose_run {s : Nat} {rs ws : List Nat} {live : Multiset (Nat × Nat)}
    (ready : IsRing k.links k.scheduler.readyThreads rs)
    (waiting : IsRing k.links (k.sem s).waitingThreads ws) (apart : ∀ x ∈ ws, x ∉ rs)
    (fits : ws.length ≤ k.heap.nMemBlocks)
    (holds : k.heap.Holds ((s, sizeInBlocks 16) ::ₘ live)) :
    ∃ h', semClose k s = .ok (0, k.semClosed s ws h') ∧ h'.Holds live := by
  let k₀ := k.note fun h => { h with opened := h.opened.erase s }
  let k₁ : Kernel := { pushAll k₀ ws with
    mem := answers k.sp (ws.map fun t => (t, u64 semClosedExternally)) k.mem }
  -- the loop walks the ring
  have loop : (if (k₀.sem s).waitingThreads ≠ 0 then
      semCloseLoop (k₀.sem s).waitingThreads (k₀.heap.nMemBlocks + 1) k₀ (k₀.sem s).waitingThreads
      else pure k₀) = .ok k₁ := by
    cases ws with
    | nil =>
      have empty : (k.sem s).waitingThreads = 0 := waiting
      exact if_neg (not_not.mpr empty)
    | cons w rest =>
      have first : (k₀.sem s).waitingThreads = w := waiting.head_eq
      have nonzero : w ≠ 0 := fun e => waiting.not_null (by simp [e])
      rw [first, if_pos nonzero]
      exact semCloseLoop_run rest _ k₀ rs w ready (waiting.head_eq ▸ waiting.chain)
        (List.nodup_cons.mp waiting.nodup).1 waiting.nodup
        (fun x hx => ⟨apart x hx, fun e => waiting.not_null (e ▸ hx)⟩)
        (by simp at fits; show _ < k.heap.nMemBlocks + 1; omega)
  have holds₁ : k₁.heap.Holds ((s, sizeInBlocks 16) ::ₘ live) := by
    show (pushAll k₀ ws).heap.Holds _
    rw [pushAll_heap]
    exact holds
  obtain ⟨h', eq, -, holds'⟩ :=
    freeOrPanic_spec holds₁ "Failed to free semaphore, memory corruption\n"
  refine ⟨h', ?_, holds'⟩
  have run : semClose k s = (if (k₀.sem s).waitingThreads ≠ 0 then
      semCloseLoop (k₀.sem s).waitingThreads (k₀.heap.nMemBlocks + 1) k₀
        (k₀.sem s).waitingThreads
      else pure k₀) >>= fun k =>
        freeOrPanic k s "Failed to free semaphore, memory corruption\n" >>= fun k =>
          .ok (0, k) := by
    by_cases hw : (k₀.sem s).waitingThreads ≠ 0
    · rw [if_pos hw]
      exact if_pos hw
    · rw [if_neg hw]
      exact if_neg hw
  rw [run, loop]
  show (freeOrPanic k₁ s _ >>= fun k => .ok (0, k)) = _
  rw [eq]
  rfl

/-- **Closing.** Every waiting thread goes to the end of the ready queue, in order. -/
theorem semClose_spec (inv : k.Inv b recs) {s : Nat} (opened : s ∈ k.hist.opened) :
    ∃ h' b', semClose k s = .ok (0, k.semClosed s (b.queue (.sem s)) h') ∧
      (k.semClosed s (b.queue (.sem s)) h').Inv b' recs ∧
      b'.queue = update (update b.queue (.sem s) []) .ready
        (b.queue .ready ++ b.queue (.sem s)) := by
  let ws := b.queue (.sem s)
  let k₀ := k.note fun h => { h with opened := h.opened.erase s }
  have nodup : k.hist.opened.Nodup := (owned_nodup inv.owns).2.2
  have ring := inv.places.rings.ring (.sem s) opened
  have waiting : ∀ t ∈ ws, b.loc t = some (.queue (.sem s)) := fun t ht => b.mem_queue.mp ht
  have thread : ∀ t ∈ ws, k.view.Thread t := fun t ht =>
    inv.places.known (by rw [waiting t ht]; simp)
  have places₀ : k₀.view.Places (b.forget ws) recs := inv.places.closeSem nodup
  obtain ⟨b', places', queue, loc⟩ := pushAll_places ws k₀ _ places₀ (fun t ht =>
    ⟨by simp [ht], thread t ht, thread_pos inv.owns (thread t ht)⟩) (b.nodup _)
  have owned : k.view.owned recs = (s, sizeInBlocks 16) ::ₘ k₀.view.owned recs := by
    have split : (k.hist.opened : Multiset Nat) = s ::ₘ ↑(k.hist.opened.erase s) :=
      Quotient.sound (List.perm_cons_erase opened)
    show recordBlocks recs + (_ + _ + _ + _ + Multiset.map _ (k.hist.opened : Multiset Nat)) = _
    rw [split, Multiset.map_cons, Multiset.add_cons, Multiset.add_cons]
    rfl
  obtain ⟨h', eq, holds'⟩ := semClose_run (inv.places.rings.ring .ready trivial) ring
    (fun x hx ready => by
      have := b.apart ready hx
      cases this) inv.queue_length_le (owned ▸ inv.owns)
  refine ⟨h', b', eq, ⟨?_, ?_, ?_, ?_⟩, ?_⟩
  · exact { places' with }
  · have kept : (k.semClosed s ws h').view.kept = k₀.view.kept := pushAll_kept k₀ ws
    rw [View.owned, kept]
    exact holds'
  · intro t
    have current : (k.semClosed s ws h').scheduler.threadCurrent = k.scheduler.threadCurrent :=
      pushAll_current k₀ ws
    rw [current, loc t, Board.forget_loc]
    split
    · next ht =>
      simp only [Option.some.injEq, reduceCtorEq, false_iff]
      rintro rfl
      have := (waiting _ ht).symm.trans inv.current
      simp at this
    · exact inv.running
  · intro t ht
    rw [loc t, Board.forget_loc]
    split
    · simp
    · have live : (k.semClosed s ws h').hist.live = k.hist.live := by
        show (pushAll k₀ ws).hist.live = _
        rw [pushAll_hist]
        rfl
      exact inv.placed (live ▸ ht)
  · have others : (b.forget ws).queue = update b.queue (.sem s) [] := by
      funext i
      rw [update_apply]
      split
      · next e => rw [e]; exact b.forget_queue_self _
      · next e => exact b.forget_queue_other e
    rw [queue, others]
    rfl

end

end RiscvKernel
