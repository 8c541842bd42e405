import RiscvKernel.Boot

/-!
# What a trap does to the threads

`ThreadsAfter`: a trap changes neither what a thread resumes from nor its past,
except for a refused `putc`, which steps back over the `ecall`, and for a thread
that is created.
-/

namespace RiscvKernel
open Function Intrusive Placement

/-! ## Entering the handler -/

theorem slot_inj {a b i : Nat} : slot a i = slot b i ↔ a = b := by
  simp only [slot]
  omega

theorem saveRegs_slot (tr : Trap) (m : Nat → Nat) {i n : Nat} (hi : i < n) :
    saveRegs tr n m (slot tr.frame i) = tr.saved i := by
  induction n with
  | zero => omega
  | succ n ih =>
    show update (saveRegs tr n m) (slot tr.frame n) (tr.saved n) _ = _
    by_cases h : i = n
    · rw [h, update_self]
    · have ne : slot tr.frame i ≠ slot tr.frame n := by
        simp only [slot]
        omega
      rw [update_of_ne ne, ih (by omega)]

theorem saveRegs_other (tr : Trap) (m : Nat → Nat) {a n : Nat}
    (h : ∀ i < n, a ≠ slot tr.frame i) : saveRegs tr n m a = m a := by
  induction n with
  | zero => rfl
  | succ n ih =>
    show update (saveRegs tr n m) (slot tr.frame n) (tr.saved n) a = _
    rw [update_of_ne (h n (by omega)), ih fun i hi => h i (by omega)]

theorem enter_context (k : Kernel) (tr : Trap) {i : Nat} (hi : i < 32) :
    (enter k tr).context tr.frame i = tr.saved i := saveRegs_slot tr tr.mem hi

/-- The arguments of a system call are in its frame. -/
theorem enter_arg (k : Kernel) (tr : Trap) {i : Nat} (lo : regA0 ≤ i) (hi : i ≤ regA4) :
    (enter k tr).context tr.frame i = tr.regs i := by
  rw [enter_context k tr (by simp only [regA4] at hi; omega), Trap.saved,
    if_neg (by simp only [regA0] at lo; omega),
    if_neg (by simp only [regA0, regSp] at lo ⊢; omega)]

/-! ## What a trap does to the saved registers -/

/-- The saved registers of every thread, the live threads and their pasts after
a step from `k` to `k'`. -/
inductive ThreadsAfter (k k' : Kernel) : Prop where
  | same (saved : k'.saved = k.saved) (live : ∀ t ∈ k'.hist.live, t ∈ k.hist.live)
      (past : k'.hist.past = k.hist.past)
  | refused (saved : k'.saved = update k.saved k.scheduler.threadCurrent
        { k.hart.saved with sepc := u64 (k.hart.sepc - 4) })
      (live : k'.hist.live = k.hist.live)
      (past : k'.hist.past = update k.hist.past k.scheduler.threadCurrent
        (k.hist.past k.scheduler.threadCurrent).refuse)
  | created (p startF arg stackSpace : Nat) (notLive : p ∉ k.hist.live)
      (notMain : p ≠ k.scheduler.kernelMain)
      (saved : k'.saved = update k.saved p
        ⟨u64 (stackSpace - contextSize), k.image.threadWrapper,
          ExecMode.user.sstatus k.hart.sstatus⟩)
      (live : k'.hist.live = p :: k.hist.live)
      (past : k'.hist.past = update k.hist.past p (.created startF arg stackSpace))

theorem setContext_saved (k : Kernel) (c i v : Nat) : (k.setContext c i v).saved = k.saved := rfl
theorem setContext_hist (k : Kernel) (c i v : Nat) : (k.setContext c i v).hist = k.hist := rfl

theorem setContext_console (k : Kernel) (c i v : Nat) :
    (k.setContext c i v).console = k.console := rfl

theorem threadCreated_console (k : Kernel) (handle startF arg stackSpace p : Nat) (heap : Heap) :
    (k.threadCreated handle startF arg stackSpace p heap).console = k.console := rfl

theorem threadCreated_hist (k : Kernel) (handle startF arg stackSpace p : Nat) (heap : Heap) :
    (k.threadCreated handle startF arg stackSpace p heap).hist = { k.hist with
      pushed := k.hist.pushed ++ [p]
      live := p :: k.hist.live
      userBlocks := k.hist.userBlocks.erase (stackBlock stackSpace)
      past := update k.hist.past p (.created startF arg stackSpace) } := rfl

theorem threadCreated_saved {k : Kernel} {p : Nat} (notCurrent : p ≠ k.scheduler.threadCurrent)
    (handle startF arg stackSpace : Nat) (heap : Heap) :
    (k.threadCreated handle startF arg stackSpace p heap).saved = update k.saved p
      ⟨u64 (stackSpace - contextSize), k.image.threadWrapper,
        ExecMode.user.sstatus k.hart.sstatus⟩ := by
  let new : Thread := {
    sp := u64 (stackSpace - contextSize)
    bp := u64 (stackSpace - defaultStackSize + 8)
    timeLeft := defaultTimeSlice
    sstatus := ExecMode.user.sstatus k.hart.sstatus
    sepc := k.image.threadWrapper }
  calc (k.threadCreated handle startF arg stackSpace p heap).saved
      = (schedulerPush (k.modifyThread p fun _ => new) p).saved := rfl
    _ = (k.modifyThread p fun _ => new).saved := schedulerPush_saved ..
    _ = update k.saved p new.saved := by
      funext t
      show (if t = k.scheduler.threadCurrent then k.hart.saved else (update k.thread p new t).saved)
        = _
      by_cases h : t = p
      · subst h
        rw [if_neg notCurrent, update_self, update_self]
      · rw [update_of_ne h, update_of_ne h]
        rfl

theorem setContext_slice (k : Kernel) (c i v : Nat) : (k.setContext c i v).slice = k.slice := rfl

theorem threadCreated_slice (k : Kernel) (handle startF arg stackSpace p : Nat) (heap : Heap) :
    (k.threadCreated handle startF arg stackSpace p heap).slice =
      update k.slice p defaultTimeSlice := by
  let k₁ : Kernel := k.modifyThread p fun _ => {
    sp := u64 (stackSpace - contextSize)
    bp := u64 (stackSpace - defaultStackSize + 8)
    timeLeft := defaultTimeSlice
    sstatus := ExecMode.user.sstatus k.hart.sstatus
    sepc := k.image.threadWrapper }
  have push : (k.threadCreated handle startF arg stackSpace p heap).slice =
      update k₁.slice p defaultTimeSlice := schedulerPush_slice k₁ p
  rw [push]
  funext t
  rw [update_apply, update_apply]
  split
  · rfl
  · next ne =>
    show (update k.thread p _ t).timeLeft = _
    rw [update_of_ne ne]
    rfl

section
variable {k k' : Kernel} {context code : Nat} {b b' : Threads} {recs recs' : List Nat}

theorem putcRefused_saved (k : Kernel) (ch : UInt8) :
    (k.putcRefused ch).saved = update k.saved k.scheduler.threadCurrent
      { k.hart.saved with sepc := u64 (k.hart.sepc - 4) } := by
  funext t
  by_cases h : t = k.scheduler.threadCurrent
  · subst h
    rw [update_self]
    exact if_pos rfl
  · rw [update_of_ne h, saved_other h]
    refine (if_neg h).trans ?_
    show (update k.thread k.scheduler.threadCurrent _ t).saved = _
    rw [update_of_ne h]

/-- A system call changes what a thread resumes from only when it refuses a character
or creates a thread. -/
theorem Called.sameThreads (called : Called k context b recs code k' b' recs') :
    (k'.saved = k.saved ∧ (∀ t ∈ k'.hist.live, t ∈ k.hist.live) ∧
      k'.hist.past = k.hist.past) ∨
    k' = dispatch (k.putcRefused (charOf (k.context context regA1))) ∨
    code = syscallThreadCreate ∧ ∃ p heap, p ∉ k.hist.live ∧ p ≠ k.scheduler.kernelMain ∧
      p ≠ k.scheduler.threadCurrent ∧ k' = (k.threadCreated (k.context context regA1)
        (k.context context regA2) (k.context context regA3) (k.context context regA4) p
        heap).setContext context regA0 0 := by
  cases called with
  | unknown => exact Or.inl ⟨rfl, fun _ h => h, rfl⟩
  | memAlloc p heap =>
    refine Or.inl ⟨?_, ?_, ?_⟩ <;> unfold Kernel.memAlloced <;> split
    all_goals first | exact rfl | exact fun _ h => h
  | getcByte => exact Or.inl ⟨rfl, fun _ h => h, rfl⟩
  | getcBlocked =>
    refine Or.inl ⟨switch_saved k, fun t ht => ?_, ?_⟩
    · have ht : t ∈ (switch k).hist.live := ht
      rwa [switch_hist] at ht
    · show (switch k).hist.past = _
      rw [switch_hist]
  | putcAccepted => exact Or.inl ⟨rfl, fun _ h => h, rfl⟩
  | putcRefused => exact Or.inr (Or.inl rfl)
  | createRefused => exact Or.inl ⟨rfl, fun _ h => h, rfl⟩
  | created heap notLive notMain notCurrent =>
    exact Or.inr (Or.inr ⟨rfl, _, heap, notLive, notMain, notCurrent, rfl⟩)
  | exited heap =>
    let k₁ := (schedulerUserThreadDecrement k).note fun h =>
      { h with live := h.live.erase k.scheduler.threadCurrent }
    refine Or.inl ⟨switch_saved k₁, fun t ht => ?_, ?_⟩
    · have ht : t ∈ (switch k₁).hist.live := ht
      rw [switch_hist] at ht
      exact List.mem_of_mem_erase ht
    · show (switch k₁).hist.past = _
      rw [switch_hist]
      rfl
  | dispatched =>
    refine Or.inl ⟨dispatch_saved k, fun t ht => ?_, ?_⟩
    · rwa [dispatch_eq, switch_hist] at ht
    · rw [dispatch_eq, switch_hist]
      rfl
  | openRefused => exact Or.inl ⟨rfl, fun _ h => h, rfl⟩
  | opened => exact Or.inl ⟨rfl, fun _ h => h, rfl⟩
  | @closed s b' arg heap =>
    let k₁ := k.note fun h => { h with opened := h.opened.erase s }
    refine Or.inl ⟨pushAll_saved k₁ _, fun t ht => ?_, ?_⟩
    · have ht : t ∈ (pushAll k₁ (b.queue (.sem s))).hist.live := ht
      rwa [pushAll_hist] at ht
    · show (pushAll k₁ (b.queue (.sem s))).hist.past = _
      rw [pushAll_hist]
      rfl
  | waited => exact Or.inl ⟨rfl, fun _ h => h, rfl⟩
  | @blocked s =>
    refine Or.inl ⟨switch_saved (k.waited s), fun t ht => ?_, ?_⟩
    · have ht : t ∈ (switch (k.waited s)).hist.live := ht
      rwa [switch_hist] at ht
    · show (switch (k.waited s)).hist.past = _
      rw [switch_hist]
      rfl
  | signalled => exact Or.inl ⟨rfl, fun _ h => h, rfl⟩
  | unheard => exact Or.inl ⟨rfl, fun _ h => h, rfl⟩
  | @woke s w =>
    exact Or.inl ⟨schedulerPush_saved ((semNext (k.signalled s) s).2.setContext
      ((k.signalled s).thread w).sp regA0 0) w, fun _ h => h, rfl⟩
  | sleepZero => exact Or.inl ⟨rfl, fun _ h => h, rfl⟩
  | @slept k₁ p front back b' put =>
    have frame := put.frame
    have hist : k₁.hist = k.hist := by
      rw [frame]
      rfl
    have saved : k₁.saved = k.saved := by
      rw [frame]
      rfl
    refine Or.inl ⟨(switch_saved k₁).trans saved, fun t ht => ?_, ?_⟩
    · rwa [switch_hist, hist] at ht
    · rw [switch_hist, hist]

/-- A refused `putc`. -/
theorem putcRefused_dispatched (k : Kernel) (ch : UInt8) :
    (dispatch (k.putcRefused ch)).saved = update k.saved k.scheduler.threadCurrent
        { k.hart.saved with sepc := u64 (k.hart.sepc - 4) } ∧
      (dispatch (k.putcRefused ch)).hist.live = k.hist.live ∧
      (dispatch (k.putcRefused ch)).hist.past = update k.hist.past k.scheduler.threadCurrent
        (k.hist.past k.scheduler.threadCurrent).refuse := by
  refine ⟨?_, ?_, ?_⟩
  · rw [dispatch_saved, putcRefused_saved]
  · rw [dispatch_eq, switch_hist]
    rfl
  · rw [dispatch_eq, switch_hist]
    rfl

theorem Called.threads (called : Called k context b recs code k' b' recs') : ThreadsAfter k k' := by
  rcases called.sameThreads with ⟨saved, live, past⟩ | rfl |
    ⟨-, p, heap, notLive, notMain, notCurrent, rfl⟩
  · exact .same saved live past
  · obtain ⟨saved, live, past⟩ := putcRefused_dispatched k (charOf (k.context context regA1))
    exact .refused saved live past
  · refine .created p (k.context context regA2) (k.context context regA3)
      (k.context context regA4) notLive notMain ?_ ?_ ?_
    · rw [setContext_saved, threadCreated_saved notCurrent]
    · rw [setContext_hist, threadCreated_hist]
    · rw [setContext_hist, threadCreated_hist]

theorem switch_main (k : Kernel) :
    (switch k).scheduler.kernelMain = k.scheduler.kernelMain := by
  unfold switch
  rw [yield_scheduler]
  unfold schedulerNext
  split <;> rfl

theorem Called.main (called : Called k context b recs code k' b' recs') :
    k'.scheduler.kernelMain = k.scheduler.kernelMain := by
  cases called with
  | memAlloc p heap =>
    unfold Kernel.memAlloced
    split <;> rfl
  | getcBlocked => exact switch_main k
  | putcRefused => rw [dispatch_eq, switch_main]; rfl
  | exited => exact switch_main _
  | dispatched => rw [dispatch_eq, switch_main]; rfl
  | closed => exact pushAll_main ..
  | blocked => exact switch_main _
  | slept put =>
    rw [switch_main, put.frame]
    rfl
  | _ => rfl

end

/-! ## Handling -/

section
variable {k k' : Kernel} {b b' : Threads} {recs recs' : List Nat}

/-- The kernel after the first half of a trap: the ticks of the timer, or the
step over the `ecall` instruction. -/
inductive Entered (k : Kernel) : Kernel → Prop where
  | same (user : k.hart.scause ≠ irqEcallUser) (kernel : k.hart.scause ≠ irqEcallKernel) :
      Entered k k
  | ecall (cause : k.hart.scause = irqEcallUser ∨ k.hart.scause = irqEcallKernel) :
      Entered k (bumpSepc k 4)

theorem Entered.main {k k₁ : Kernel} (h : Entered k k₁) :
    k₁.scheduler.kernelMain = k.scheduler.kernelMain := by
  cases h <;> rfl

theorem ticked_threads {k k₁ : Kernel} {gone left : List Nat}
    (ticked : k.Ticked k₁ recs gone left) :
    k₁.saved = k.saved ∧ k₁.hist.live = k.hist.live ∧ k₁.hist.past = k.hist.past ∧
      k₁.scheduler.kernelMain = k.scheduler.kernelMain := by
  let k₀ : Kernel := { k with sleeping := k₁.sleeping }
  have saved := pushAll_saved k₀ (gone.map fun r => (k.sleeping r).thread)
  have live : (pushAll k₀ (gone.map fun r => (k.sleeping r).thread)).hist.live = k.hist.live := by
    rw [pushAll_hist]
  have past : (pushAll k₀ (gone.map fun r => (k.sleeping r).thread)).hist.past = k.hist.past := by
    rw [pushAll_hist]
  have main := pushAll_main k₀ (gone.map fun r => (k.sleeping r).thread)
  rw [ticked.frame]
  exact ⟨saved, live, past, main⟩

theorem spend_saved (k : Kernel) : k.spend.saved = k.saved := by
  funext t
  by_cases h : t = k.scheduler.threadCurrent
  · exact (if_pos h).trans (if_pos h).symm
  · rw [saved_other h]
    refine (if_neg h).trans ?_
    show (update k.thread k.scheduler.threadCurrent _ t).saved = _
    rw [update_of_ne h]

/-- A trap from user mode is a system call. -/
theorem Handled.userCall (handled : Handled k b recs k' b' recs')
    (user : k.hart.scause = irqEcallUser) : Called (bumpSepc k 4) k.hart.sscratch b recs
      (k.context k.hart.sscratch regA0) k' b' recs' := by
  cases handled with
  | ignored notUser => exact absurd user notUser
  | console cause => exact absurd (cause.symm.trans user) (by decide)
  | ticked cause => exact absurd (cause.symm.trans user) (by decide)
  | preempted cause => exact absurd (cause.symm.trans user) (by decide)
  | called _ called => exact called
  | mainIgnored cause => exact absurd (cause.symm.trans user) (by decide)
  | mainDispatched cause => exact absurd (cause.symm.trans user) (by decide)

/-- A trap that is no system call changes nothing that a thread resumes from. -/
theorem Handled.quiet (handled : Handled k b recs k' b' recs')
    (notUser : k.hart.scause ≠ irqEcallUser) : ∃ k₁, Entered k k₁ ∧ k'.saved = k₁.saved ∧
      (∀ t ∈ k'.hist.live, t ∈ k₁.hist.live) ∧ k'.hist.past = k₁.hist.past := by
  cases handled with
  | ignored user kernel _ => exact ⟨k, .same user kernel, rfl, fun _ h => h, rfl⟩
  | @console ws rest input bytes b' cause waiting empty delivered =>
    have ne : irqHw ≠ irqEcallKernel := by decide
    have frame := delivered.frame
    refine ⟨k, .same notUser (cause ▸ ne), delivered.saved_eq, fun t ht => ?_, ?_⟩
    · have ht : t ∈ (consoleReceive k).hist.live := ht
      rwa [frame] at ht
    · show (consoleReceive k).hist.past = _
      rw [frame]
  | @ticked k₁ gone left b' cause ticked =>
    have ne : irqTimer ≠ irqEcallKernel := by decide
    obtain ⟨saved, live, past, -⟩ := ticked_threads ticked
    exact ⟨k, .same notUser (cause ▸ ne), (spend_saved k₁).trans saved, fun t ht => live ▸ ht, past⟩
  | @preempted k₁ gone left b' cause ticked =>
    have ne : irqTimer ≠ irqEcallKernel := by decide
    obtain ⟨saved, live, past, -⟩ := ticked_threads ticked
    refine ⟨k, .same notUser (cause ▸ ne), (dispatch_saved k₁).trans saved, fun t ht => ?_, ?_⟩
    · rw [dispatch_eq, switch_hist] at ht
      exact live ▸ ht
    · rw [dispatch_eq, switch_hist]
      exact past
  | called cause => exact absurd cause notUser
  | mainIgnored cause => exact ⟨_, .ecall (Or.inr cause), rfl, fun _ h => h, rfl⟩
  | mainDispatched cause =>
    refine ⟨_, .ecall (Or.inr cause), switch_saved _, fun t ht => ?_, ?_⟩
    · rwa [switch_hist] at ht
    · rw [switch_hist]

theorem Handled.threads (handled : Handled k b recs k' b' recs') :
    ∃ k₁, Entered k k₁ ∧ ThreadsAfter k₁ k' := by
  by_cases user : k.hart.scause = irqEcallUser
  · exact ⟨_, .ecall (Or.inl user), (handled.userCall user).threads⟩
  · obtain ⟨k₁, entered, saved, live, past⟩ := handled.quiet user
    exact ⟨k₁, entered, .same saved live past⟩

theorem Handled.main (handled : Handled k b recs k' b' recs') :
    k'.scheduler.kernelMain = k.scheduler.kernelMain := by
  cases handled with
  | ignored => rfl
  | console _ _ _ delivered =>
    show (consoleReceive k).scheduler.kernelMain = _
    rw [delivered.frame]
  | ticked _ ticked => exact (ticked_threads ticked).2.2.2
  | preempted _ ticked =>
    rw [dispatch_eq, switch_main]
    exact (ticked_threads ticked).2.2.2
  | called _ called => exact called.main
  | mainIgnored => rfl
  | mainDispatched => exact switch_main _

end

end RiscvKernel
