import RiscvKernel.ThreadMoves
import RiscvKernel.ConsoleMoves

/-!
# The handlers as moves

One lemma for each handler of `irq_handler` that needs more than the operation
it calls: its result, and the invariant of the result.
-/

namespace RiscvKernel
open Function Intrusive Placement

section
variable {k : Kernel} {b : Threads} {recs : List Nat}

/-! ## Memory and threads -/

/-- The block `p` of `nblocks` blocks goes to user code. -/
def Kernel.memAlloced (k : Kernel) (p nblocks : Nat) (heap : Heap) : Kernel :=
  if p = 0 then { k with heap } else
    { k with heap }.note fun h => { h with userBlocks := (p, nblocks) :: h.userBlocks }

theorem handleMemAlloc_spec (inv : k.Inv b recs) {context : Nat}
    (pos : 0 < k.context context regA1) (serves : k.heap.Serves (k.context context regA1)) :
    ∃ p h', handleMemAlloc k context =
        .ok ((k.memAlloced p (k.context context regA1) h').setContext context regA0 p) ∧
      (k.memAlloced p (k.context context regA1) h').Inv b recs := by
  obtain ⟨p, h', eq, held⟩ := alloc_served inv.owns pos serves
  refine ⟨p, h', ?_, ?_⟩
  · unfold handleMemAlloc
    dsimp only
    rw [eq]
    rfl
  · rcases held with ⟨rfl, holds⟩ | ⟨nonzero, holds, -⟩
    · exact ⟨inv.places.sameThreads h' k.bootBlocks k.hist.userBlocks, holds, inv.running,
      inv.placed⟩
    · have run : k.memAlloced p (k.context context regA1) h' = { k with heap := h' }.note fun h =>
          { h with userBlocks := (p, k.context context regA1) :: h.userBlocks } := if_neg nonzero
      rw [run]
      refine ⟨inv.places.sameThreads h' k.bootBlocks ((p, _) :: k.hist.userBlocks), ?_, inv.running,
        inv.placed⟩
      have owned : ∀ nb, View.owned { k.view with
          heap := h', userBlocks := (p, nb) :: k.hist.userBlocks } recs =
          (p, nb) ::ₘ k.view.owned recs := by
        intro nb
        simp only [View.owned, View.kept, ← Multiset.cons_coe, Multiset.add_cons,
          Multiset.cons_add]
        rfl
      exact (owned _).symm ▸ holds

theorem handleThreadCreate_spec (inv : k.Inv b recs) {context : Nat}
    (serves : k.heap.Serves (sizeInBlocks 56))
    (stack : stackBlock (k.context context regA4) ∈ k.hist.userBlocks) :
    (∃ h', handleThreadCreate k context =
        .ok ({ k with heap := h' }.setContext context regA0 (u64 threadCreateNoMemory)) ∧
      Kernel.Inv { k with heap := h' } b recs) ∨
    ∃ p h' b', handleThreadCreate k context =
        .ok ((k.threadCreated (k.context context regA1) (k.context context regA2)
          (k.context context regA3) (k.context context regA4) p h').setContext context regA0 0) ∧
      p ∉ k.hist.live ∧ p ≠ k.scheduler.kernelMain ∧ p ≠ k.scheduler.threadCurrent ∧
      (k.threadCreated (k.context context regA1) (k.context context regA2)
        (k.context context regA3) (k.context context regA4) p h').Inv b' recs ∧
      b'.queue = update b.queue .ready (b.queue .ready ++ [p]) := by
  obtain ⟨p, h', eq, ⟨rfl, holds⟩ | ⟨nonzero, holds, fresh⟩⟩ :=
    alloc_served inv.owns (by decide) serves
  · refine Or.inl ⟨h', ?_, inv.places.sameThreads h' k.bootBlocks k.hist.userBlocks, holds,
    inv.running, inv.placed⟩
    unfold handleThreadCreate threadCreate
    dsimp only
    rw [eq]
    rfl
  · rw [View.owned_starts] at fresh
    have notLive : p ∉ k.hist.live := fun h => fresh (by simp [Kernel.view, h])
    have notMain : p ≠ k.scheduler.kernelMain := fun h => fresh (by
      simp [h, Kernel.view, Kernel.bootBlocks])
    have notCurrent : p ≠ k.scheduler.threadCurrent := by
      rintro rfl
      exact inv.current_thread.elim notLive notMain
    have owned : k.view.owned recs = stackBlock (k.context context regA4) ::ₘ
        { k.view with userBlocks :=
          k.view.userBlocks.erase (stackBlock (k.context context regA4)) }.owned recs := by
      have split : (k.hist.userBlocks : Multiset (Nat × Nat)) =
          stackBlock (k.context context regA4) ::ₘ
            ↑(k.hist.userBlocks.erase (stackBlock (k.context context regA4))) :=
        Quotient.sound (List.perm_cons_erase stack)
      show recordBlocks recs + (_ + (k.hist.userBlocks : Multiset (Nat × Nat)) + _ + _ + _) = _
      rw [split]
      simp only [Multiset.add_cons, Multiset.cons_add]
      rfl
    rw [owned] at holds
    obtain ⟨b', inv', queue⟩ := threadCreated_inv inv.places inv.running inv.placed holds
      (k.context context regA1) (k.context context regA2) (k.context context regA3)
    refine Or.inr ⟨p, h', b', ?_, notLive, notMain, notCurrent, inv', queue⟩
    have created : threadCreate k (k.context context regA1) (k.context context regA2)
        (k.context context regA3) (k.context context regA4) .user =
        .ok (0, k.threadCreated (k.context context regA1) (k.context context regA2)
          (k.context context regA3) (k.context context regA4) p h') := by
      unfold threadCreate
      rw [eq]
      exact if_neg nonzero
    unfold handleThreadCreate
    dsimp only
    rw [created]
    rfl

/-! ## The timer -/

/-- The current thread has used up a tick. -/
def Kernel.spend (k : Kernel) : Kernel :=
  k.modifyThread k.scheduler.threadCurrent fun t => { t with timeLeft := u64 (t.timeLeft - 1) }

/-- A thread that is queued gets a new time slice anyway. -/
theorem dispatch_spend (k : Kernel) : dispatch k.spend = dispatch k := by
  have push : schedulerPush k.spend k.scheduler.threadCurrent =
      schedulerPush k k.scheduler.threadCurrent := by
    simp [schedulerPush, Kernel.spend, Kernel.modifyThread]
  rw [dispatch_eq, dispatch_eq, ← push]
  rfl

theorem spend_slice (k : Kernel) : k.spend.slice = update k.slice k.scheduler.threadCurrent
    (u64 (k.slice k.scheduler.threadCurrent - 1)) := by
  funext t
  show (update k.thread _ _ t).timeLeft = _
  rw [update_apply, update_apply]
  split <;> rfl

/-- `handleTimer` after the tick. -/
theorem handleTimer_ticked {k₁ : Kernel} (tick : schedulerTick k = .ok k₁) :
    handleTimer k = if u64 (k₁.slice k₁.scheduler.threadCurrent - 1) = 0 then .ok (dispatch k₁)
      else .ok k₁.spend := by
  have time : (k₁.spend.thread k₁.scheduler.threadCurrent).timeLeft =
      u64 (k₁.slice k₁.scheduler.threadCurrent - 1) := by
    have spent := congrFun (spend_slice k₁) k₁.scheduler.threadCurrent
    rwa [update_self] at spent
  rw [← time, ← dispatch_spend]
  unfold handleTimer
  rw [tick]
  rfl

theorem handleTimer_spec (inv : k.Inv b recs) :
    ∃ k₁ gone left b₁, k.Ticked k₁ recs gone left ∧ k₁.Inv b₁ left ∧
      b₁.queue = update b.queue .ready
        (b.queue .ready ++ gone.map fun r => (k.sleeping r).thread) ∧
      ((handleTimer k = .ok k₁.spend ∧ k₁.spend.Inv b₁ left) ∨
        ∃ b', handleTimer k = .ok (dispatch k₁) ∧ (dispatch k₁).Inv b' left ∧
          b'.queue = update b₁.queue .ready
            (b₁.queue .ready ++ [k₁.scheduler.threadCurrent]).tail) := by
  obtain ⟨k₁, gone, left, b₁, eq, ticked, inv₁, queue⟩ := tick_inv inv
  refine ⟨k₁, gone, left, b₁, ticked, inv₁, queue, ?_⟩
  rw [handleTimer_ticked eq]
  rcases inv₁.places.slices inv₁.current_thread with slice | slice
  · have now : k₁.slice k₁.scheduler.threadCurrent = 1 := slice
    rw [now]
    obtain ⟨b', inv', queue'⟩ := dispatch_inv inv₁
    exact Or.inr ⟨b', rfl, inv', queue'⟩
  · have now : k₁.slice k₁.scheduler.threadCurrent = 2 := slice
    rw [now]
    have view : k₁.spend.view = k₁.view.setSlice k₁.scheduler.threadCurrent 1 := by
      have same : update k₁.view.bp k₁.scheduler.threadCurrent
          (k₁.thread k₁.scheduler.threadCurrent).bp = k₁.view.bp := update_eq_self _ k₁.view.bp
      refine (modifyThread_view k₁ _ _).trans ?_
      have left : (k₁.thread k₁.scheduler.threadCurrent).timeLeft = 2 := slice
      rw [same, left]
      rfl
    refine Or.inl ⟨rfl, ?_, ?_, inv₁.running, inv₁.placed⟩
    · rw [view]
      exact inv₁.places.setSlice (Or.inl rfl)
    · rw [view]
      exact inv₁.owns

/-! ## `kernel_main` -/

/-- The last lines of the kernel's dispatch store what `yield` already stored. -/
theorem handleEcallKernel_dispatch (k : Kernel)
    (code : k.context k.hart.sscratch regA0 = syscallKernelDispatch) :
    handleEcallKernel k = switch (bumpSepc k 4) := by
  have run : handleEcallKernel k = { switch (bumpSepc k 4) with hart :=
      { (switch (bumpSepc k 4)).hart with sscratch :=
        ((switch (bumpSepc k 4)).thread (schedulerNext (bumpSepc k 4)).1).sp } } := if_pos code
  have sp : ((switch (bumpSepc k 4)).thread (schedulerNext (bumpSepc k 4)).1).sp =
      (switch (bumpSepc k 4)).hart.sscratch := by
    unfold switch yield
    split
    · next same =>
      rw [same]
      simp [Kernel.modifyThread]
    · next differ => simp [Ne.symm differ]
  rw [run, sp]

theorem mainDispatch_inv (inv : k.Inv b recs)
    (main : k.scheduler.threadCurrent = k.scheduler.kernelMain) :
    ∃ b', (switch k).Inv b' recs ∧
      b'.queue = update b.queue .ready (b.queue .ready).tail := by
  obtain ⟨b₁, places₁, queue₁, loc₁, idle₁⟩ := inv.detach
  obtain ⟨b', inv', queue, -⟩ := switch_inv places₁ inv.owns idle₁ fun t ht => by
    have ne : t ≠ k.scheduler.threadCurrent := by
      rw [main]
      exact fun e => main_not_live inv.owns (e ▸ ht)
    rw [loc₁, update_of_ne ne]
    exact inv.placed ht
  exact ⟨b', inv', by rw [queue, queue₁]⟩

end

end RiscvKernel
