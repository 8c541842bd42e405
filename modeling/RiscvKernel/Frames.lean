import RiscvKernel.Conservation
import RiscvKernel.Getc

/-!
# Saved frames

A thread that does not run is its frame, with the words of its control block; what
they must say follows from its past.

* `Past.Framed`: what a frame says about the past of its thread;
* `Kernel.Frames`: every thread of a kind has its frame, apart from the others;
* `Kernel.Spares`: what user code and its stacks promise of a trap;
* `enter_frames`: the frame that a trap saves is a frame of its thread.
-/

namespace RiscvKernel
open Function Intrusive Placement

/-! ## Frames and pasts -/

/-- The frames at `a` and `b` do not overlap. -/
def Apart (a b : Nat) : Prop := a + contextSize ≤ b ∨ b + contextSize ≤ a

/-- The word at `a` is outside of the frame at `sp`. -/
def Outside (a sp : Nat) : Prop := a + 8 ≤ sp ∨ sp + contextSize ≤ a

theorem Apart.symm {a b : Nat} (apart : Apart a b) : Apart b a := Or.symm apart

theorem Apart.slot_ne {a b i j : Nat} (apart : Apart a b) (hi : i < 32) (hj : j < 32) :
    slot a i ≠ slot b j := by
  simp only [Apart, slot, contextSize] at *
  omega

theorem Outside.slot_ne {a sp i : Nat} (outside : Outside a sp) (hi : i < 32) : slot sp i ≠ a := by
  simp only [Outside, slot, contextSize] at *
  omega

theorem slot_word {sp i j : Nat} : slot sp i = slot sp j ↔ i = j := by
  simp only [slot]
  omega

/-- The system calls that define `a0`. -/
def resultCodes : List Nat :=
  [syscallMemAlloc, syscallGetc, syscallThreadCreate, syscallSemOpen, syscallSemClose,
    syscallSemWait, syscallSemSignal, syscallTimedSleep]

/-- The thread is in a system call that defines `a0`. -/
def Past.Answered : Past → Prop
  | .created .. => False
  | .trapped scause _ _ regs _ => scause = irqEcallUser ∧ regs regA0 ∈ resultCodes

/-- Where a thread with this past goes on. -/
def Past.pc (image : Image) : Past → Nat
  | .created .. => image.threadWrapper
  | .trapped scause sepc _ _ refused =>
    if (scause = irqEcallUser ∨ scause = irqEcallKernel) ∧ refused = false then u64 (sepc + 4)
    else sepc

/-- The saved registers `s` and the memory `mem` are what a thread with this past left. -/
inductive Past.Framed (image : Image) (s : Saved) (mem : Nat → Nat) : Past → Prop
  | created {startF arg stackSpace} (pc : s.sepc = image.threadWrapper)
      (sp : u64 (s.sp + contextSize : Nat) = stackSpace) (own : mem (slot s.sp regSp) = s.sp)
      (a0 : mem (slot s.sp regA0) = startF) (a1 : mem (slot s.sp regA1) = arg) :
      Framed image s mem (.created startF arg stackSpace)
  | trapped {scause sepc sstatus regs refused}
      (pc : s.sepc = Past.pc image (.trapped scause sepc sstatus regs refused))
      (word : sepc < 2 ^ 64) (status : s.sstatus = sstatus)
      (sp : u64 (s.sp + contextSize : Nat) = regs regSp) (own : mem (slot s.sp regSp) = s.sp)
      (words : ∀ i < 32, i ≠ 0 → i ≠ regSp →
        (i = regA0 → ¬ Past.Answered (.trapped scause sepc sstatus regs refused)) →
        mem (slot s.sp i) = regs i) :
      Framed image s mem (.trapped scause sepc sstatus regs refused)

/-- The words of a frame that its thread resumes with. -/
theorem Past.Framed.congr {image : Image} {s : Saved} {mem mem' : Nat → Nat} {past : Past}
    (framed : past.Framed image s mem)
    (same : ∀ i < 32, (i = regA0 → ¬ past.Answered) → mem' (slot s.sp i) = mem (slot s.sp i)) :
    past.Framed image s mem' := by
  cases framed with
  | created pc sp own a0 a1 =>
    refine .created pc sp ?_ ?_ ?_
    · rw [same regSp (by decide) fun _ => id, own]
    · rw [same regA0 (by decide) fun _ => id, a0]
    · rw [same regA1 (by decide) fun _ => id, a1]
  | trapped pc word status sp own words =>
    refine .trapped pc word status sp ?_ fun i lt nonzero ne free => ?_
    · rw [same regSp (by decide) fun h => absurd h (by decide), own]
    · rw [same i lt free, words i lt nonzero ne free]

/-! ## The frames of a kernel -/

/-- The threads `T` have their frames, apart from each other, and whoever waits in a queue is
in a system call that defines `a0`. -/
structure Kernel.Frames (k : Kernel) (b : Threads) (T : Nat → Prop) : Prop where
  framed : ∀ t, T t → (k.hist.past t).Framed k.image (k.saved t) k.mem
  apart : ∀ t t', T t → T t' → t ≠ t' → Apart (k.saved t).sp (k.saved t').sp
  waiting : ∀ i ≠ QueueId.ready, ∀ t ∈ b.queue i, (k.hist.past t).Answered

/-- The thread does not run. -/
def Kernel.Parked (k : Kernel) (t : Nat) : Prop :=
  k.view.Thread t ∧ t ≠ k.scheduler.threadCurrent

/-- User code leaves the frames of other threads alone, its stack and new stacks are apart
from them, and handles are outside of all frames. -/
structure Kernel.Spares (k : Kernel) (tr : Trap) : Prop where
  pc : tr.sepc < 2 ^ 64
  memory : ∀ t, k.Parked t → ∀ i < 32, tr.mem (slot (k.sp t) i) = k.mem (slot (k.sp t) i)
  stack : ∀ t, k.Parked t → Apart tr.frame (k.sp t)
  own : tr.Calls syscallGetc → ∀ t, k.Parked t → Apart (k.sp k.scheduler.threadCurrent) (k.sp t)
  handle : tr.Calls syscallThreadCreate ∨ tr.Calls syscallSemOpen →
    Outside (tr.regs regA1) tr.frame ∧ ∀ t, k.Parked t → Outside (tr.regs regA1) (k.sp t)
  create : tr.Calls syscallThreadCreate →
    Apart (u64 (tr.regs regA4 - contextSize)) tr.frame ∧
    Outside (tr.regs regA1) (u64 (tr.regs regA4 - contextSize)) ∧
    ∀ t, k.Parked t → Apart (u64 (tr.regs regA4 - contextSize)) (k.sp t)

section
variable {k k₁ : Kernel} {tr : Trap} {b : Threads} {recs : List Nat} {t : Nat}

theorem Kernel.Parked.saved (parked : k.Parked t) : k.saved t = (k.thread t).saved :=
  saved_other parked.2

theorem Kernel.Parked.sp (parked : k.Parked t) : (k.saved t).sp = k.sp t := by
  rw [parked.saved]
  rfl

/-- The kernel with the frame of a trap, behind the `ecall` if it was one. -/
theorem Entered.saves (entered : Entered (enter k tr) k₁) : k₁.mem = (enter k tr).mem ∧
    k₁.hist = (enter k tr).hist ∧ k₁.thread = k.thread ∧ k₁.scheduler = k.scheduler ∧
    k₁.image = k.image ∧ k₁.hart.sscratch = tr.frame ∧ k₁.hart.sstatus = tr.sstatus ∧
    k₁.hart.sepc = Past.pc k.image (.trapped tr.scause tr.sepc tr.sstatus tr.regs false) := by
  cases entered with
  | same user kernel =>
    refine ⟨rfl, rfl, rfl, rfl, rfl, rfl, rfl, ?_⟩
    exact (if_neg fun h => h.1.elim user kernel).symm
  | ecall cause => exact ⟨rfl, rfl, rfl, rfl, rfl, rfl, rfl, (if_pos ⟨cause, rfl⟩).symm⟩

/-- **Saving.** The frame that a trap saves is that of its thread, and the others stay. -/
theorem enter_frames (frames : k.Frames b k.Parked) (inv : k.Inv b recs) (spares : k.Spares tr)
    (fits : tr.Fits k) (entered : Entered (enter k tr) k₁) :
    k₁.Frames b k.view.Thread := by
  obtain ⟨mem, hist, thread, scheduler, image, frame, sstatus, pc⟩ := entered.saves
  have past : ∀ t, k₁.hist.past t = if t = k.scheduler.threadCurrent then
      .trapped tr.scause tr.sepc tr.sstatus tr.regs false else k.hist.past t := fun t => by
    rw [hist]
    exact update_apply ..
  have saved : ∀ t, k₁.saved t = if t = k.scheduler.threadCurrent then k₁.hart.saved else
      (k.thread t).saved := fun t => by
    unfold Kernel.saved
    rw [scheduler, thread]
  have current : (k₁.saved k.scheduler.threadCurrent).sp = tr.frame := by
    rw [saved, if_pos rfl]
    exact frame
  have other : ∀ t, t ≠ k.scheduler.threadCurrent → (k₁.saved t).sp = k.sp t := fun t ne => by
    rw [saved, if_neg ne]
    rfl
  refine ⟨fun t thread => ?_, fun t t' ht ht' ne => ?_, fun i hi t ht => ?_⟩
  · by_cases running : t = k.scheduler.threadCurrent
    · rw [past, if_pos running, saved, if_pos running, image, mem]
      refine .trapped pc spares.pc sstatus ?_ ?_ fun i lt nonzero ne _ => ?_
      · show u64 (k₁.hart.sscratch + contextSize : Nat) = _
        rw [frame]
        exact frame_end (fits.words regSp)
      · show (enter k tr).mem (slot k₁.hart.sscratch regSp) = k₁.hart.sscratch
        rw [frame]
        exact enter_context k tr (by decide)
      · show (enter k tr).mem (slot k₁.hart.sscratch i) = _
        rw [frame]
        refine (enter_context k tr lt).trans ?_
        rw [Trap.saved, if_neg nonzero, if_neg ne]
    · have parked : k.Parked t := ⟨thread, running⟩
      have framed := frames.framed t parked
      rw [parked.saved] at framed
      rw [past, if_neg running, saved, if_neg running, image]
      refine framed.congr fun i lt _ => ?_
      have kept : tr.mem (slot (k.thread t).saved.sp i) = k.mem (slot (k.thread t).saved.sp i) :=
        spares.memory t parked i lt
      rw [mem, ← kept]
      exact saveRegs_other tr tr.mem fun j lt' => (spares.stack t parked).symm.slot_ne lt lt'
  · by_cases running : t = k.scheduler.threadCurrent
    · subst running
      rw [current, other t' ne.symm]
      exact spares.stack t' ⟨ht', ne.symm⟩
    · by_cases running' : t' = k.scheduler.threadCurrent
      · subst running'
        rw [current, other t running]
        exact (spares.stack t ⟨ht, running⟩).symm
      · have parked : k.Parked t := ⟨ht, running⟩
        have parked' : k.Parked t' := ⟨ht', running'⟩
        have apart := frames.apart t t' parked parked' ne
        rw [parked.sp, parked'.sp] at apart
        rw [other t running, other t' running']
        exact apart
  · rw [past, if_neg (inv.notRunning ht)]
    exact frames.waiting i hi t ht

end

end RiscvKernel
