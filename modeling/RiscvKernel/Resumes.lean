import RiscvKernel.Stores

/-!
# What a thread resumes with

* `Past.Resumes`: the registers that a thread with a given past goes on with;
* `trap_frames`: a trap keeps the frames of all threads;
* `resumes_as_left`: in every run, whoever resumes does so as it left.
-/

namespace RiscvKernel
open Function Intrusive Placement

/-- The hart goes on as a thread with this past left off. -/
inductive Past.Resumes (image : Image) (r : Resume) : Past → Prop
  | created {startF arg stackSpace} (pc : r.pc = image.threadWrapper) (a0 : r.regs regA0 = startF)
      (a1 : r.regs regA1 = arg) (sp : r.regs regSp = stackSpace) :
      Resumes image r (.created startF arg stackSpace)
  | trapped {scause sepc sstatus regs refused}
      (pc : r.pc = Past.pc image (.trapped scause sepc sstatus regs refused))
      (status : r.sstatus = sstatus)
      (kept : ∀ i < 32, i ≠ 0 →
        (i = regA0 → ¬ Past.Answered (.trapped scause sepc sstatus regs refused)) →
        r.regs i = regs i) :
      Resumes image r (.trapped scause sepc sstatus regs refused)

/-- `irq_wrap` restores what the frame of the current thread holds. -/
theorem Past.Framed.resumes {k : Kernel} {past : Past}
    (framed : past.Framed k.image (k.saved k.scheduler.threadCurrent) k.mem) :
    past.Resumes k.image (resume k) := by
  rw [saved_current] at framed
  cases framed with
  | created pc sp own a0 a1 =>
    have own : k.context k.hart.sscratch regSp = k.hart.sscratch := own
    refine .created pc ?_ ?_ ?_
    · exact (congrArg (k.context · regA0) own).trans a0
    · exact (congrArg (k.context · regA1) own).trans a1
    · exact (congrArg (fun sp : Nat => u64 (sp + contextSize : Nat)) own).trans sp
  | @trapped scause sepc sstatus regs refused pc word status sp own words =>
    have own : k.context k.hart.sscratch regSp = k.hart.sscratch := own
    refine .trapped pc status fun i lt nonzero free => ?_
    by_cases isSp : i = regSp
    · subst isSp
      exact (congrArg (fun sp : Nat => u64 (sp + contextSize : Nat)) own).trans sp
    · have word : k.context k.hart.sscratch i = regs i := words i lt nonzero isSp free
      simp only [resume, own, if_neg nonzero, if_neg isSp]
      split
      · next ra => rw [← ra, word]
      · exact word

/-! ## A step that changes no frame -/

section
variable {k k₁ k' : Kernel} {tr : Trap} {b b' : Threads} {recs recs' : List Nat}
  {T T' : Nat → Prop} {t t' i : Nat}

/-- The answer of somebody who waits is not a word that another thread resumes with. -/
theorem Kernel.Frames.notWoken (frames : k.Frames b T) (here : T t) (there : T t')
    {q : QueueId} (queue : q ≠ .ready) (waits : t' ∈ b.queue q) (lt : i < 32)
    (free : i = regA0 → ¬ (k.hist.past t).Answered) :
    slot (k.saved t).sp i ≠ slot (k.saved t').sp regA0 := by
  by_cases same : t = t'
  · subst same
    intro eq
    exact free (slot_word.mp eq) (frames.waiting q queue t waits)
  · exact (frames.apart t t' here there same).slot_ne lt (by decide)

theorem Kernel.Frames.step (frames : k.Frames b T) (sub : ∀ t, T' t → T t)
    (saved : k'.saved = k.saved) (past : k'.hist.past = k.hist.past) (image : k'.image = k.image)
    (mem : ∀ t, T' t → ∀ i < 32, (i = regA0 → ¬ (k.hist.past t).Answered) →
      k'.mem (slot (k.saved t).sp i) = k.mem (slot (k.saved t).sp i))
    (waits : ∀ i ≠ QueueId.ready, ∀ t ∈ b'.queue i, (k.hist.past t).Answered) :
    k'.Frames b' T' := by
  refine ⟨fun t ht => ?_, fun t t' ht ht' ne => ?_, fun i hi t ht => ?_⟩
  · rw [saved, past, image]
    exact (frames.framed t (sub t ht)).congr (mem t ht)
  · rw [saved]
    exact frames.apart t t' (sub t ht) (sub t' ht') ne
  · rw [past]
    exact waits i hi t ht

theorem Past.refuse_answered (past : Past) : past.refuse.Answered ↔ past.Answered := by
  cases past <;> rfl

/-- A refused call steps back over its `ecall`. -/
theorem Past.Framed.refuse {image : Image} {s : Saved} {mem : Nat → Nat} {sepc sstatus : Nat}
    {regs : Nat → Nat}
    (framed : (Past.trapped irqEcallUser sepc sstatus regs false).Framed image s mem) :
    (Past.trapped irqEcallUser sepc sstatus regs true).Framed image
      { s with sepc := u64 (s.sepc - 4) } mem := by
  cases framed with
  | trapped pc word status sp own words =>
    rw [Past.pc, if_pos ⟨Or.inl rfl, rfl⟩] at pc
    refine .trapped ?_ word status sp own words
    rw [Past.pc, if_neg (by simp)]
    show u64 (s.sepc - 4) = sepc
    rw [pc]
    unfold u64
    omega

end

/-! ## System calls -/

/-- The trap is a `getc` that finds a byte. -/
def Trap.FindsByte (tr : Trap) (k : Kernel) : Prop :=
  tr.Calls syscallGetc ∧ k.console.receiveCnt ≠ 0

/-- The threads that a trap leaves a frame of. -/
def Kernel.Left (k : Kernel) (tr : Trap) (k' : Kernel) (t : Nat) : Prop :=
  k'.view.Thread t ∧ (t = k.scheduler.threadCurrent → ¬ tr.FindsByte k)

theorem threadFrame_words (k : Kernel) (sp startF arg : Nat) :
    (threadFrame k sp startF arg).mem (slot sp regSp) = sp ∧
      (threadFrame k sp startF arg).mem (slot sp regA0) = startF ∧
      (threadFrame k sp startF arg).mem (slot sp regA1) = arg := by
  simp [threadFrame, Kernel.setContext, Kernel.poke, slot_word]

section
variable {k k' : Kernel} {tr : Trap} {code : Nat} {b b' : Threads} {recs recs' : List Nat}
  {t i : Nat}

theorem requested_sp_current (k : Kernel) (tr : Trap) :
    ((bumpSepc (enter k tr) 4).saved k.scheduler.threadCurrent).sp = tr.frame := by
  have same := saved_current (bumpSepc (enter k tr) 4)
  exact congrArg Saved.sp same

theorem requested_sp_other (tr : Trap) (ne : t ≠ k.scheduler.threadCurrent) :
    ((bumpSepc (enter k tr) 4).saved t).sp = k.sp t :=
  congrArg Saved.sp (saved_other (k := bumpSepc (enter k tr) 4) ne)

theorem requested_past (k : Kernel) (tr : Trap) :
    (bumpSepc (enter k tr) 4).hist.past k.scheduler.threadCurrent =
      .trapped tr.scause tr.sepc tr.sstatus tr.regs false := update_self ..

/-- A system call stores nothing that a thread resumes with. -/
theorem not_stores (frames : (bumpSepc (enter k tr) 4).Frames b k.view.Thread)
    (inv : k.Inv b recs) (spares : k.Spares tr) (call : tr.Calls code) (thread : k.view.Thread t)
    (lt : i < 32)
    (free : i = regA0 → ¬ ((bumpSepc (enter k tr) 4).hist.past t).Answered)
    (noByte : t = k.scheduler.threadCurrent → ¬ tr.FindsByte k) :
    ¬ (bumpSepc (enter k tr) 4).Stores k' tr.frame code b
      (slot ((bumpSepc (enter k tr) 4).saved t).sp i) := by
  have current := requested_sp_current k tr
  have other : t ≠ k.scheduler.threadCurrent → k.Parked t := fun ne => ⟨thread, ne⟩
  generalize addr : slot ((bumpSepc (enter k tr) 4).saved t).sp i = a
  intro stores
  cases stores with
  | result mem =>
    rw [← current] at addr
    by_cases running : t = k.scheduler.threadCurrent
    · subst running
      refine free (slot_word.mp addr) ?_
      rw [requested_past]
      exact ⟨call.1, by rw [call.2]; exact mem⟩
    · exact (frames.apart t _ thread inv.current_thread running).slot_ne lt (by decide) addr
  | @woken t' _ waits =>
    have there : k.view.Thread t' := inv.places.known (by rw [b.mem_queue.mp waits]; simp)
    have sp := requested_sp_other tr (inv.notRunning waits)
    refine frames.notWoken thread there (by simp) waits lt free ?_
    rw [sp]
    exact addr
  | handle calls =>
    have arg : (bumpSepc (enter k tr) 4).context tr.frame regA1 = tr.regs regA1 := called_arg
    have handle := spares.handle (calls.imp (fun h => ⟨call.1, call.2.trans h⟩)
      fun h => ⟨call.1, call.2.trans h⟩)
    rw [arg] at addr
    by_cases running : t = k.scheduler.threadCurrent
    · subst running
      rw [current] at addr
      exact handle.1.slot_ne lt addr
    · rw [requested_sp_other tr running] at addr
      exact (handle.2 t (other running)).slot_ne lt addr
  | @frame j creates lt' =>
    have arg : (bumpSepc (enter k tr) 4).context tr.frame regA4 = tr.regs regA4 :=
      enter_arg k tr (by decide) (by decide)
    have create := spares.create ⟨call.1, call.2.trans creates⟩
    rw [arg] at addr
    by_cases running : t = k.scheduler.threadCurrent
    · subst running
      rw [current] at addr
      exact create.1.symm.slot_ne lt lt' addr
    · rw [requested_sp_other tr running] at addr
      exact (create.2.2 t (other running)).symm.slot_ne lt lt' addr
  | byte getc some =>
    by_cases running : t = k.scheduler.threadCurrent
    · exact noByte running ⟨⟨call.1, call.2.trans getc⟩, some⟩
    · rw [requested_sp_other tr running] at addr
      have own := spares.own ⟨call.1, call.2.trans getc⟩ t (other running)
      exact own.symm.slot_ne lt (by decide) addr

/-- Whoever waits after a system call is in one that defines `a0`. -/
theorem call_waiting (frames : (bumpSepc (enter k tr) 4).Frames b k.view.Thread)
    (call : tr.Calls code)
    (called : Called (bumpSepc (enter k tr) 4) tr.frame b recs code k' b' recs') {q : QueueId}
    (queue : q ≠ .ready) (waits : t ∈ b'.queue q) :
    ((bumpSepc (enter k tr) 4).hist.past t).Answered := by
  rcases called.waits queue waits with before | ⟨rfl, answers⟩
  · exact frames.waiting q queue t before
  · have past := requested_past k tr
    have running : (bumpSepc (enter k tr) 4).scheduler.threadCurrent =
      k.scheduler.threadCurrent := rfl
    rw [running, past]
    exact ⟨call.1, by rw [call.2]; exact answers⟩

/-- The frame of a thread that is created. -/
theorem created_framed (spares : k.Spares tr) (fits : tr.Fits k)
    (call : tr.Calls syscallThreadCreate)
    (p : Nat) (heap : Heap) : (Past.created (tr.regs regA2) (tr.regs regA3) (tr.regs regA4)).Framed
      k.image ⟨u64 (tr.regs regA4 - contextSize), k.image.threadWrapper,
        ExecMode.user.sstatus tr.sstatus⟩
      (((bumpSepc (enter k tr) 4).threadCreated (tr.regs regA1) (tr.regs regA2) (tr.regs regA3)
        (tr.regs regA4) p heap).setContext tr.frame regA0 0).mem := by
  obtain ⟨stack, outside, -⟩ := spares.create call
  have word := fits.words regA4
  generalize frame : u64 (tr.regs regA4 - contextSize) = sp at *
  have kept : ∀ i < 32, (((bumpSepc (enter k tr) 4).threadCreated (tr.regs regA1) (tr.regs regA2)
      (tr.regs regA3) (tr.regs regA4) p heap).setContext tr.frame regA0 0).mem (slot sp i) =
      (threadFrame (bumpSepc (enter k tr) 4) sp (tr.regs regA2) (tr.regs regA3)).mem
        (slot sp i) := by
    intro i lt
    show update _ (slot tr.frame regA0) 0 (slot sp i) = _
    rw [update_of_ne (stack.slot_ne lt (by decide)), threadCreated_mem, frame,
      update_of_ne (outside.slot_ne lt)]
  obtain ⟨own, a0, a1⟩ := threadFrame_words (bumpSepc (enter k tr) 4) sp (tr.regs regA2)
    (tr.regs regA3)
  refine .created rfl ?_ ?_ ?_ ?_
  · show u64 (sp + contextSize : Nat) = _
    rw [← frame]
    unfold u64
    omega
  · exact (kept regSp (by decide)).trans own
  · exact (kept regA0 (by decide)).trans a0
  · exact (kept regA1 (by decide)).trans a1

/-- The frames after a `putc` that was refused. -/
theorem refused_frames (frames : (bumpSepc (enter k tr) 4).Frames b k.view.Thread)
    (cause : tr.scause = irqEcallUser) {T : Nat → Prop} (sub : ∀ t, T t → k.view.Thread t)
    (saved : k'.saved = update (bumpSepc (enter k tr) 4).saved k.scheduler.threadCurrent
      { (bumpSepc (enter k tr) 4).hart.saved with
        sepc := u64 ((bumpSepc (enter k tr) 4).hart.sepc - 4) })
    (past : k'.hist.past = update (bumpSepc (enter k tr) 4).hist.past k.scheduler.threadCurrent
      ((bumpSepc (enter k tr) 4).hist.past k.scheduler.threadCurrent).refuse)
    (image : k'.image = k.image)
    (mem : ∀ t, T t → ∀ i < 32,
      (i = regA0 → ¬ ((bumpSepc (enter k tr) 4).hist.past t).Answered) →
      k'.mem (slot ((bumpSepc (enter k tr) 4).saved t).sp i) =
        (bumpSepc (enter k tr) 4).mem (slot ((bumpSepc (enter k tr) 4).saved t).sp i))
    (waits : ∀ q ≠ QueueId.ready, ∀ t ∈ b'.queue q,
      ((bumpSepc (enter k tr) 4).hist.past t).Answered) : k'.Frames b' T := by
  generalize made : bumpSepc (enter k tr) 4 = k₁ at *
  have current : k₁.saved k.scheduler.threadCurrent = k₁.hart.saved := by
    rw [← made]
    exact saved_current _
  have trapped : k₁.hist.past k.scheduler.threadCurrent =
      .trapped irqEcallUser tr.sepc tr.sstatus tr.regs false := by
    rw [← made, requested_past, cause]
  have image₁ : k₁.image = k.image := by
    rw [← made]
    rfl
  have sp : ∀ t, (k'.saved t).sp = (k₁.saved t).sp := by
    intro t
    rw [saved, update_apply]
    split
    · next running => rw [running, current]
    · rfl
  have answered : ∀ t, (k'.hist.past t).Answered ↔ (k₁.hist.past t).Answered := by
    intro t
    rw [past, update_apply]
    split
    · next running => rw [running, Past.refuse_answered]
    · rfl
  refine ⟨fun t ht => ?_, fun t t' ht ht' ne => ?_, fun q queue t ht => ?_⟩
  · have framed := frames.framed t (sub t ht)
    have framed : (k'.hist.past t).Framed k'.image (k'.saved t) k₁.mem := by
      rw [past, saved, image, ← image₁]
      by_cases running : t = k.scheduler.threadCurrent
      · subst running
        rw [trapped, current] at framed
        rw [update_self, update_self, trapped]
        exact framed.refuse
      · rw [update_of_ne running, update_of_ne running]
        exact framed
    refine framed.congr fun i lt free => ?_
    rw [sp]
    exact mem t ht i lt fun a0 => (answered t).not.mp (free a0)
  · rw [sp, sp]
    exact frames.apart t t' (sub t ht) (sub t' ht') ne
  · exact (answered t).mpr (waits q queue t ht)

/-- The frames after a thread was created. -/
theorem created_frames (frames : (bumpSepc (enter k tr) 4).Frames b k.view.Thread)
    (inv : k.Inv b recs) (spares : k.Spares tr) (fits : tr.Fits k)
    (call : tr.Calls syscallThreadCreate) {p : Nat} {heap : Heap} {T : Nat → Prop}
    (new : ¬ k.view.Thread p) (sub : ∀ t, T t → t = p ∨ k.view.Thread t)
    (made : k' = ((bumpSepc (enter k tr) 4).threadCreated (tr.regs regA1) (tr.regs regA2)
      (tr.regs regA3) (tr.regs regA4) p heap).setContext tr.frame regA0 0)
    (image : k'.image = k.image)
    (mem : ∀ t, T t → k.view.Thread t → ∀ i < 32,
      (i = regA0 → ¬ ((bumpSepc (enter k tr) 4).hist.past t).Answered) →
      k'.mem (slot ((bumpSepc (enter k tr) 4).saved t).sp i) =
        (bumpSepc (enter k tr) 4).mem (slot ((bumpSepc (enter k tr) 4).saved t).sp i))
    (waits : ∀ q ≠ QueueId.ready, ∀ t ∈ b'.queue q, t ≠ p ∧
      ((bumpSepc (enter k tr) 4).hist.past t).Answered) : k'.Frames b' T := by
  have notCurrent : p ≠ (bumpSepc (enter k tr) 4).scheduler.threadCurrent := fun h =>
    new (h ▸ inv.current_thread)
  have saved : k'.saved = update (bumpSepc (enter k tr) 4).saved p
      ⟨u64 (tr.regs regA4 - contextSize), k.image.threadWrapper,
        ExecMode.user.sstatus tr.sstatus⟩ := by
    rw [made, setContext_saved, threadCreated_saved notCurrent]
    rfl
  have past : k'.hist.past = update (bumpSepc (enter k tr) 4).hist.past p
      (.created (tr.regs regA2) (tr.regs regA3) (tr.regs regA4)) := by
    rw [made, setContext_hist, threadCreated_hist]
  have fresh : ∀ t, T t → t ≠ p → k.view.Thread t := fun t ht ne => (sub t ht).resolve_left ne
  -- the new frame and those of the other threads
  have apart : ∀ t, T t → t ≠ p → Apart (u64 (tr.regs regA4 - contextSize))
      ((bumpSepc (enter k tr) 4).saved t).sp := by
    intro t ht ne
    have create := spares.create call
    by_cases running : t = k.scheduler.threadCurrent
    · subst running
      rw [requested_sp_current]
      exact create.1
    · rw [requested_sp_other tr running]
      exact create.2.2 t ⟨fresh t ht ne, running⟩
  refine ⟨fun t ht => ?_, fun t t' ht ht' ne => ?_, fun q queue t ht => ?_⟩
  · rw [past, saved, image]
    by_cases isNew : t = p
    · subst isNew
      rw [update_self, update_self, made]
      exact created_framed spares fits call t heap
    · rw [update_of_ne isNew, update_of_ne isNew]
      exact (frames.framed t (fresh t ht isNew)).congr (mem t ht (fresh t ht isNew))
  · rw [saved]
    by_cases isNew : t = p
    · subst isNew
      rw [update_self, update_of_ne ne.symm]
      exact apart t' ht' ne.symm
    · rw [update_of_ne isNew]
      by_cases isNew' : t' = p
      · subst isNew'
        rw [update_self]
        exact (apart t ht isNew).symm
      · rw [update_of_ne isNew']
        exact frames.apart t t' (fresh t ht isNew) (fresh t' ht' isNew') ne
  · obtain ⟨ne, answered⟩ := waits q queue t ht
    rw [past, update_of_ne ne]
    exact answered

/-- **System calls keep the frames.** -/
theorem call_frames (frames : (bumpSepc (enter k tr) 4).Frames b k.view.Thread)
    (inv : k.Inv b recs) (spares : k.Spares tr) (fits : tr.Fits k) (call : tr.Calls code)
    (called : Called (bumpSepc (enter k tr) 4) tr.frame b recs code k' b' recs') :
    k'.Frames b' (k.Left tr k') := by
  have mem : ∀ t, k.view.Thread t → (t = k.scheduler.threadCurrent → ¬ tr.FindsByte k) →
      ∀ i < 32, (i = regA0 → ¬ ((bumpSepc (enter k tr) 4).hist.past t).Answered) →
      k'.mem (slot ((bumpSepc (enter k tr) 4).saved t).sp i) =
        (bumpSepc (enter k tr) 4).mem (slot ((bumpSepc (enter k tr) 4).saved t).sp i) :=
    fun t thread noByte i lt free =>
      called.stores (not_stores frames inv spares call thread lt free noByte)
  have waits : ∀ q ≠ QueueId.ready, ∀ t ∈ b'.queue q, _ := fun q queue t ht =>
    call_waiting frames call called queue ht
  have image := called.image
  have main : k'.scheduler.kernelMain = k.scheduler.kernelMain := called.main
  rcases called.sameThreads with ⟨saved, live, past⟩ | refused |
    ⟨rfl, p, heap, notLive, notMain, notCurrent, made⟩
  · have thread : ∀ t, k'.view.Thread t → k.view.Thread t := fun t ht =>
      ht.imp (live t) fun h => h.trans main
    exact frames.step (fun t ht => thread t ht.1) saved past image
      (fun t ht => mem t (thread t ht.1) ht.2) waits
  · obtain ⟨saved, live, past⟩ := putcRefused_dispatched (bumpSepc (enter k tr) 4)
      (charOf ((bumpSepc (enter k tr) 4).context tr.frame regA1))
    rw [← refused] at saved live past
    have thread : ∀ t, k'.view.Thread t → k.view.Thread t := fun t ht =>
      ht.imp (fun h => Eq.mp (congrArg (t ∈ ·) live) h) fun h => h.trans main
    exact refused_frames frames call.1 (fun t ht => thread t ht.1) saved past image
      (fun t ht => mem t (thread t ht.1) ht.2) waits
  · have new : ¬ k.view.Thread p := fun h => h.elim notLive notMain
    have arg : ∀ i, regA0 ≤ i → i ≤ regA4 → (bumpSepc (enter k tr) 4).context tr.frame i =
        tr.regs i := fun i lo hi => enter_arg k tr lo hi
    rw [arg regA1 (by decide) (by decide), arg regA2 (by decide) (by decide),
      arg regA3 (by decide) (by decide), arg regA4 (by decide) (by decide)] at made
    refine created_frames frames inv spares fits call new (fun t ht => ?_) made image
      (fun t ht thread => mem t thread ht.2) fun q queue t ht => ⟨?_, waits q queue t ht⟩
    · have live : k'.hist.live = p :: k.hist.live := by
        rw [made]
        rfl
      rcases ht.1 with h | h
      · have h : t ∈ k'.hist.live := h
        rw [live] at h
        exact (List.mem_cons.mp h).imp_right Or.inl
      · exact Or.inr (Or.inr (h.trans main))
    · rintro rfl
      rcases called.waits queue ht with before | ⟨same, -⟩
      · exact new (inv.places.known (by rw [b.mem_queue.mp before]; simp))
      · exact notCurrent same

/-! ## Traps -/

/-- Traps that are no system calls keep the frames. -/
theorem quiet_frames (frames : k.Frames b k.Parked) (inv : k.Inv b recs) (spares : k.Spares tr)
    (fits : tr.Fits k) (notUser : tr.scause ≠ irqEcallUser)
    (handled : Handled (enter k tr) b recs k' b' recs') : k'.Frames b' (k.Left tr k') := by
  obtain ⟨k₁, entered, saved, live, past⟩ := handled.quiet notUser
  have frames₁ := enter_frames frames inv spares fits entered
  obtain ⟨mem, hist, thread, scheduler, image, -⟩ := entered.saves
  have image' : k'.image = k₁.image := handled.image.trans image.symm
  have main : k'.scheduler.kernelMain = k.scheduler.kernelMain := handled.main
  have threads : ∀ t, k'.view.Thread t → k.view.Thread t := by
    refine fun t ht => ht.imp (fun h => ?_) fun h => h.trans main
    have h : t ∈ k₁.hist.live := live t h
    rw [hist] at h
    exact h
  refine frames₁.step (fun t ht => threads t ht.1) saved past image' (fun t ht i lt free => ?_)
    fun q queue t ht => frames₁.waiting q queue t (handled.quietWaits notUser queue ht)
  rw [mem]
  refine handled.quietStores notUser fun _ t' waits _ => ?_
  have there : k.view.Thread t' := inv.places.known (by rw [b.mem_queue.mp waits]; simp)
  have ne : t' ≠ k₁.scheduler.threadCurrent := by
    rw [scheduler]
    exact inv.notRunning waits
  have sp : (k₁.saved t').sp = k.sp t' := by
    rw [saved_other ne, thread]
    rfl
  have apart := frames₁.notWoken (threads t ht.1) there (by simp) waits lt free
  rw [sp] at apart
  exact apart

/-- **Traps keep the frames.** -/
theorem trap_frames (frames : k.Frames b k.Parked) (inv : k.Inv b recs) (spares : k.Spares tr)
    (fits : tr.Fits k) (handled : Handled (enter k tr) b recs k' b' recs') :
    k'.Frames b' (k.Left tr k') := by
  by_cases user : tr.scause = irqEcallUser
  · exact call_frames (enter_frames frames inv spares fits (.ecall (Or.inl user))) inv spares fits
      ⟨user, rfl⟩ (handled.call ⟨user, rfl⟩)
  · exact quiet_frames frames inv spares fits user handled

/-- A `getc` that finds a byte gives up nothing. -/
theorem findsByte_current (finds : tr.FindsByte k)
    (handled : Handled (enter k tr) b recs k' b' recs') :
    k'.scheduler.threadCurrent = k.scheduler.threadCurrent := by
  cases handled.call finds.1 with
  | unknown none => exact absurd (by decide) none
  | getcByte => rfl
  | getcBlocked none => exact absurd none finds.2

/-- Between two traps, the threads that do not run have their frames. -/
theorem trap_parked (frames : k.Frames b k.Parked) (inv : k.Inv b recs) (spares : k.Spares tr)
    (fits : tr.Fits k) (handled : Handled (enter k tr) b recs k' b' recs') :
    (leave k').Frames b' (leave k').Parked := by
  have frames' := trap_frames frames inv spares fits handled
  have sub : ∀ t, (leave k').Parked t → k.Left tr k' t := fun t parked =>
    ⟨parked.1, fun running finds =>
      parked.2 (running.trans (findsByte_current finds handled).symm)⟩
  exact ⟨fun t ht => frames'.framed t (sub t ht), fun t t' ht ht' =>
    frames'.apart t t' (sub t ht) (sub t' ht'), frames'.waiting⟩

end

/-! ## Runs -/

/-- The variable `user_main` is outside of the heap. -/
def Kernel.Static (k : Kernel) : Prop :=
  k.heap.heapEnd ≤ k.image.userMainVar ∨ k.image.userMainVar + 8 ≤ k.heap.heapStart

/-- The frame of the first thread. -/
theorem boot_frames {k₀ k : Kernel} (platform : k₀.Platform) (static : k₀.Static)
    (booted : boot k₀ = .ok k) : ∃ b, k.Rest b [] ∧ k.Frames b k.Parked ∧
      ∀ t, k.Parked t → k₀.heap.heapStart ≤ k.sp t := by
  obtain ⟨b, p, stackSpace, first⟩ := boot_booted platform booted
  obtain ⟨h, h', receive, send, main, sched, system, stack, p', b', eq, -, -, ⟨low, high, word⟩,
    -⟩ := boot_spec platform
  obtain ⟨start, stop⟩ := boot_bounds platform booted
  have made := Except.ok.inj (booted.symm.trans eq)
  have heap : k.heap = h' := by
    rw [made]
    rfl
  rw [heap] at start stop
  -- the thread that is created is the first
  have hist := first.hist
  have live : k.hist.live = [p] := by rw [hist]
  have past : k.hist.past p = .created k₀.image.userMain 0 (stack + 4088) := by
    have live' : k.hist.live = p' :: k₀.hist.live := by
      rw [made]
      rfl
    obtain rfl : p' = p := (List.cons.inj (live'.symm.trans live)).1
    rw [made, threadCreated_hist]
    exact update_self ..
  have space : stackSpace = stack + 4088 := by
    rw [hist] at past
    have past : update k₀.hist.past p (.created k.image.userMain 0 stackSpace) p = _ := past
    rw [update_self] at past
    exact (Past.created.inj past).2.2
  have frame : u64 (stackSpace - contextSize) = stack + 3832 := by
    rw [space, contextSize, u64_eq] <;> omega
  have outside : Outside k₀.image.userMainVar (stack + 3832) := by
    unfold Kernel.Static at static
    simp only [Outside, contextSize]
    omega
  have kept : ∃ k₁ : Kernel, ∀ i < 32, k.mem (slot (stack + 3832) i) =
      (threadFrame k₁ (stack + 3832) k₀.image.userMain 0).mem (slot (stack + 3832) i) := by
    refine ⟨k₀.prepared h receive send main sched system, fun i lt => ?_⟩
    rw [space] at frame
    rw [made, threadCreated_mem, frame, update_of_ne (outside.slot_ne lt)]
  obtain ⟨k₁, kept⟩ := kept
  obtain ⟨own, a0, a1⟩ := threadFrame_words k₁ (stack + 3832) k₀.image.userMain 0
  have only : ∀ t, k.Parked t → t = p := by
    rintro t ⟨thread, ne⟩
    have thread : t ∈ k.hist.live := thread.resolve_right fun main =>
      ne (main.trans first.main.symm)
    rw [live] at thread
    exact List.mem_singleton.mp thread
  refine ⟨b, first.rest, ⟨fun t ht => ?_, fun t t' ht ht' ne => ?_, fun q queue t ht => ?_⟩,
    fun t ht => ?_⟩
  · obtain rfl := only t ht
    rw [past, ht.saved, first.saved, frame]
    refine .created rfl ?_ ?_ ?_ ?_
    · show u64 (stack + 3832 + contextSize : Nat) = _
      rw [contextSize, u64_eq] <;> omega
    · exact (kept regSp (by decide)).trans own
    · exact (kept regA0 (by decide)).trans a0
    · exact (kept regA1 (by decide)).trans a1
  · exact absurd ((only t ht).trans (only t' ht').symm) ne
  · rw [first.queue, update_of_ne queue] at ht
    exact absurd ht List.not_mem_nil
  · obtain rfl := only t ht
    have sp := congrArg Saved.sp first.saved
    rw [frame] at sp
    have sp : k.sp t = stack + 3832 := sp
    omega

theorem run_frames {k₀ k : Kernel} (static : k₀.Static) (run : Run Kernel.Spares k₀ k) :
    ∃ b recs, k.Rest b recs ∧ k.Frames b k.Parked := by
  induction run with
  | boot platform booted =>
    obtain ⟨b, rest, frames, -⟩ := boot_frames platform static booted
    exact ⟨b, [], rest, frames⟩
  | trap _ fits spares taken ih =>
    obtain ⟨b, recs, rest, frames⟩ := ih
    obtain ⟨k₁, b', recs', rfl, handled, rest'⟩ := trap_rest rest fits taken
    exact ⟨b', recs', rest', trap_parked frames rest.inv spares fits handled⟩

/-- After a trap that is no `getc` with a byte, the hart goes on as its thread left off. -/
theorem trap_resumes {k k' : Kernel} {tr : Trap} {b : Threads} {recs : List Nat}
    (frames : k.Frames b k.Parked) (rest : k.Rest b recs) (spares : k.Spares tr) (fits : tr.Fits k)
    (noByte : ¬ tr.FindsByte k) (taken : trap k tr = .ok k') :
    (k'.hist.past k'.scheduler.threadCurrent).Resumes k'.image (resume k') := by
  obtain ⟨k₁, b', recs', rfl, handled, rest'⟩ := trap_rest rest fits taken
  have frames' := trap_frames frames rest.inv spares fits handled
  exact (frames'.framed k₁.scheduler.threadCurrent ⟨rest'.inv.current_thread, fun _ =>
    noByte⟩).resumes

/-- **Context switches keep thread states apart.** Whoever resumes in a run goes on with the
registers of its own last trap, or as it was created. -/
theorem resumes_as_left {k₀ k k' : Kernel} {tr : Trap} (static : k₀.Static)
    (run : Run Kernel.Spares k₀ k) (fits : tr.Fits k) (spares : k.Spares tr)
    (noByte : ¬ tr.FindsByte k) (taken : trap k tr = .ok k') :
    (k'.hist.past k'.scheduler.threadCurrent).Resumes k'.image (resume k') := by
  obtain ⟨b, recs, rest, frames⟩ := run_frames static run
  exact trap_resumes frames rest spares fits noByte taken

theorem smallKernel_static : smallKernel.Static := Or.inl (by decide)

/-- `kernel_main` of the small machine spares the frame of the first thread. -/
theorem firstCall_spares {k : Kernel} (platform : smallKernel.Platform)
    (booted : boot smallKernel = .ok k) : k.Spares (firstCall k) := by
  obtain ⟨b, -, -, above⟩ := boot_frames platform smallKernel_static booted
  have noCall : ∀ code, ¬ (firstCall k).Calls code := fun code call =>
    absurd call.1 (show irqEcallKernel ≠ irqEcallUser by decide)
  have frame : (firstCall k).frame = 1792 := show u64 ((2048 : Nat) - contextSize) = 1792 by decide
  refine ⟨show 0x80000400 < 2 ^ 64 by decide, fun _ _ _ _ => rfl, fun t parked => Or.inl ?_,
    fun call => absurd call (noCall _),
    fun call => call.elim (fun h => absurd h (noCall _)) fun h => absurd h (noCall _),
    fun call => absurd call (noCall _)⟩
  have above : 4096 ≤ k.sp t := above t parked
  rw [frame, contextSize]
  omega

/-- The first user thread runs on its own stack, above the frame of `kernel_main`. -/
theorem first_frames : ∃ k b p, FirstUser smallKernel k b p ∧ Run Kernel.Spares smallKernel k ∧
    k.heap.HasRoom (sizeInBlocks 40) ∧ 4096 ≤ k.hart.sscratch ∧ k.hart.sscratch < 2 ^ 64 ∧
    (k.saved k.scheduler.kernelMain).sp = 1792 ∧
    k.hist.past k.scheduler.kernelMain =
      .trapped irqEcallKernel 0x80000400 (2 ^ 8) (firstCall k).regs false := by
  obtain ⟨k, b, p, user, noSems, -, -, -, ⟨k₁, booted, -, first⟩, run⟩ :=
    first_user smallKernel_platform Kernel.Spares fun k booted =>
      firstCall_spares smallKernel_platform booted
  have room : k.heap.HasRoom (sizeInBlocks 40) := small_room user.rest.inv user.start user.stop
    user.live user.userBlocks (by rw [noSems]; decide)
  obtain ⟨-, -, -, above⟩ := boot_frames smallKernel_platform smallKernel_static booted
  let e := bumpSepc (enter k₁ (firstCall k₁)) 4
  have saved : k.saved = e.saved := by
    rw [first]
    exact switch_saved e
  have main : k.scheduler.kernelMain = k₁.scheduler.kernelMain := by
    rw [first]
    exact switch_main e
  obtain ⟨_, p', stackSpace, started⟩ := boot_booted smallKernel_platform booted
  have running : e.scheduler.threadCurrent = k₁.scheduler.kernelMain := started.main
  have hist : k.hist = e.hist := by
    rw [first]
    exact switch_hist e
  have live : k₁.hist.live = [p] := by
    rw [← user.live, hist]
    rfl
  obtain rfl : p' = p := by
    rw [started.hist] at live
    exact (List.cons.inj live).1
  have parked : k₁.Parked p' :=
    ⟨Or.inl (show p' ∈ k₁.hist.live by simp [live]), started.main.symm ▸ started.notMain⟩
  have frame : k.hart.sscratch = k₁.sp p' := by
    have here : k.saved p' = k.hart.saved := user.current ▸ saved_current k
    rw [saved, saved_other (running.symm ▸ started.notMain)] at here
    exact (congrArg Saved.sp here).symm
  have sp : k₁.sp p' = u64 (stackSpace - contextSize) := congrArg Saved.sp started.saved
  refine ⟨k, b, p', user, run, room, frame.symm ▸ above p' parked, ?_, ?_, ?_⟩
  · rw [frame, sp]
    exact u64_lt _
  · rw [saved, main, ← running, saved_current]
    exact show u64 ((2048 : Nat) - contextSize) = 1792 by decide
  · rw [hist, main, ← running]
    exact update_self ..

/-- The first user thread goes to sleep, and `kernel_main` goes on behind the call with which it
gave up the hart, on its own stack. -/
theorem resumes_as_left_small : ∃ k k', Run Kernel.Spares smallKernel k ∧
    k.scheduler.threadCurrent ≠ k.scheduler.kernelMain ∧
    trap k (nextCall k syscallTimedSleep 5) = .ok k' ∧
    k'.scheduler.threadCurrent = k'.scheduler.kernelMain ∧ (resume k').pc = 0x80000404 ∧
    (resume k').sstatus = 2 ^ 8 ∧ (resume k').regs regSp = 2048 := by
  obtain ⟨k, b, p, user, run, room, above, word, mainFrame, past⟩ := first_frames
  let tr := nextCall k syscallTimedSleep 5
  have call : tr.Calls syscallTimedSleep := ⟨rfl, rfl⟩
  have fits : tr.Fits k :=
    nextCall_fits user.mode (by decide) (by decide) (sleep_request rfl room)
  have other {code} (ne : code ≠ syscallTimedSleep) : ¬ tr.Calls code := fun is =>
    ne (is.2.symm.trans call.2)
  have only {t} (parked : k.Parked t) : k.sp t = 1792 := by
    have main : t = k.scheduler.kernelMain := by
      refine parked.1.resolve_left fun live => parked.2 ?_
      have live : t ∈ k.hist.live := live
      rw [user.live] at live
      rw [List.mem_singleton.mp live, user.current]
    rw [← parked.sp, main, mainFrame]
  have own : tr.frame = k.hart.sscratch := by
    show u64 ((u64 (k.hart.sscratch + contextSize : Nat) : Int) - contextSize) = _
    simp only [u64, contextSize]
    omega
  have spares : k.Spares tr := by
    refine ⟨show 0x80000500 < 2 ^ 64 by decide, fun _ _ _ _ => rfl, fun t parked => ?_,
      fun call => absurd call (other (by decide)), fun call => ?_,
      fun call => absurd call (other (by decide))⟩
    · rw [own, only parked]
      apply Or.inr
      rw [contextSize]
      omega
    · exact call.elim (fun h => absurd h (other (by decide))) fun h => absurd h (other (by decide))
  obtain ⟨k', taken⟩ := call_returns user.rest call (by decide) fits
  have resumes := resumes_as_left smallKernel_static run fits spares
    (fun finds => other (by decide) finds.1) taken
  have notMain : k.scheduler.threadCurrent ≠ k.scheduler.kernelMain := by
    refine fun main => main_not_live user.rest.inv.owns ?_
    rw [← main, user.current, user.live]
    exact List.mem_singleton_self p
  -- the thread sleeps and `kernel_main` has its past
  have gone : k'.scheduler.threadCurrent = k'.scheduler.kernelMain ∧
      k'.hist.past k'.scheduler.kernelMain = k.hist.past k.scheduler.kernelMain := by
    obtain ⟨k₁, b', recs', rfl, handled, rest'⟩ := trap_rest user.rest fits taken
    have main : k₁.scheduler.kernelMain = k.scheduler.kernelMain := handled.main
    have arg : (bumpSepc (enter k tr) 4).context tr.frame regA1 = 5 := called_arg
    cases handled.call call with
    | unknown none => exact absurd (by decide) none
    | sleepZero zero => exact absurd (arg.symm.trans zero) (by decide)
    | @slept k₁ r front back b' put =>
      obtain ⟨hist, sleeping, -⟩ := PutToSleep.switched put
      have thread : ((switch k₁).sleeping r).thread = p := by
        rw [sleeping, put.thread]
        exact user.current
      have asleep := rest'.inv.places.asleep.mpr ⟨show r ∈ front ++ r :: back by simp, thread⟩
      refine ⟨rest'.inv.current_thread.resolve_left fun live => ?_, ?_⟩
      · have live : (leave (switch k₁)).scheduler.threadCurrent ∈ [p] := by
          rw [← user.live]
          exact (congrArg History.live hist) ▸ live
        rw [← List.mem_singleton.mp live, rest'.inv.running.mpr rfl] at asleep
        cases asleep
      · show (switch k₁).hist.past (switch k₁).scheduler.kernelMain = _
        rw [hist, main]
        exact update_of_ne notMain.symm _ _
  rw [gone.1, gone.2, past] at resumes
  cases resumes with
  | trapped pc status kept =>
    exact ⟨k, k', run, notMain, taken, gone.1, pc, status, kept regSp (by decide) (by decide)
      fun sp => absurd sp (by decide)⟩

end RiscvKernel
