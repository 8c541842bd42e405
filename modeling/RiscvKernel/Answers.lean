import RiscvKernel.Conservation
import RiscvKernel.Input
import RiscvKernel.Whereabouts

/-!
# What a blocked caller finds

A caller that blocks waits in a ring, and the trap that takes it out of the ring answers it.

* `Kernel.Stays`: the thread stays in its ring from one trap to the next;
* `Kernel.AwaitsAnswer`: whoever takes it out makes it ready and leaves the answer in its frame;
* `awaits_sem`, `awaits_input`: the answers of a semaphore and of the console.
-/

namespace RiscvKernel
open Function Intrusive Placement Counting

/-- Traps lead from `k` to a kernel, and the thread `t` is in the queue `i` between any two. -/
inductive Kernel.Stays (k : Kernel) (t : Nat) (i : QueueId) : Kernel → Prop where
  | here (queued : k.At t (.queue i)) : k.Stays t i k
  | trap {k' tr k''} (before : k.Stays t i k') (fits : tr.Fits k') (taken : trap k' tr = .ok k'')
      (queued : k''.At t (.queue i)) : k.Stays t i k''

/-- No thread but `t` has its frame at `frame`. -/
def Kernel.Apart (k : Kernel) (t frame : Nat) : Prop :=
  ∀ x, k.view.Thread x → x ≠ t → (k.saved x).sp ≠ frame

/-- From `k` on, the thread `t` waits in the queue `i`. The trap that takes it out makes it ready,
with `sp` at `frame`, and leaves an `a0` in that frame that is an `answer`. -/
structure Kernel.AwaitsAnswer (k : Kernel) (t frame : Nat) (i : QueueId)
    (answer : Kernel → Trap → Kernel → Nat → Prop) : Prop where
  waits : k.At t (.queue i)
  woken : ∀ k₁ tr k₂, k.Stays t i k₁ → tr.Fits k₁ → trap k₁ tr = .ok k₂ → ¬ k₂.At t (.queue i) →
    k₂.At t (.queue .ready) ∧ (k₂.saved t).sp = frame ∧
      ∃ a0, answer k₁ tr k₂ a0 ∧ ((enter k₁ tr).Apart t frame → k₂.context frame regA0 = a0)

/-- A semaphore answers with a signal or with its close. -/
def semAnswer (s : Nat) (_ : Kernel) (tr : Trap) (_ : Kernel) (a0 : Nat) : Prop :=
  tr.regs regA1 = s ∧ (tr.Calls syscallSemSignal ∧ a0 = 0 ∨
    tr.Calls syscallSemClose ∧ a0 = u64 semClosedExternally)

/-- The console answers with the byte that the thread `t` is given. -/
def inputAnswer (t : Nat) (k : Kernel) (_ : Trap) (k' : Kernel) (a0 : Nat) : Prop :=
  ∃ given c, k'.hist.served = k.hist.served ++ given ∧ (t, c) ∈ given ∧ a0 = c.toNat

section
variable {k k' k₁ : Kernel} {b b' : Threads} {recs recs' : List Nat} {tr : Trap}
  {t frame s : Nat} {i : QueueId}

/-- A thread keeps its stack pointer. -/
theorem Handled.keepsSp (handled : Handled (enter k tr) b recs k₁ b' recs')
    (thread : k.view.Thread t) :
    ((leave k₁).saved t).sp = ((enter k tr).saved t).sp := by
  obtain ⟨k₂, entered, after⟩ := handled.threads
  have entry : (k₂.saved t).sp = ((enter k tr).saved t).sp := by
    cases entered with
    | same => rfl
    | ecall =>
      by_cases h : t = k.scheduler.threadCurrent
      · rw [h, enter_saved_current]
        show _ = tr.frame
        have same := saved_current (bumpSepc (enter k tr) 4)
        exact congrArg Saved.sp same
      · exact congrArg Saved.sp ((saved_other (k := bumpSepc (enter k tr) 4) h).trans
          (saved_other (k := enter k tr) h).symm)
  have main : k₂.scheduler.kernelMain = k.scheduler.kernelMain := entered.main
  have live : k₂.hist.live = k.hist.live := by
    cases entered with
    | same => rfl
    | ecall => rfl
  rw [← entry]
  show (k₁.saved t).sp = _
  cases after with
  | same saved => rw [saved]
  | refused saved =>
    rw [saved, update_apply]
    split
    · next h =>
      rw [h, saved_current]
    · rfl
  | created p _ _ _ notLive notMain saved =>
    have ne : t ≠ p := by
      rintro rfl
      rw [live] at notLive
      rw [main] at notMain
      exact thread.elim notLive notMain
    rw [saved, update_of_ne ne]

theorem Kernel.Inv.queued (inv : k.Inv b recs) : k.At t (.queue i) ↔ t ∈ b.queue i :=
  inv.at_iff.trans b.mem_queue.symm

/-- A thread that stays in a queue keeps its frame. -/
theorem Kernel.Stays.rest (stays : k.Stays t i k') (rest : k.Rest b recs)
    (sp : (k.saved t).sp = frame) : ∃ b' recs', k'.Rest b' recs' ∧ (k'.saved t).sp = frame := by
  induction stays with
  | here => exact ⟨b, recs, rest, sp⟩
  | @trap k' tr k'' before fits taken _ ih =>
    obtain ⟨b₁, recs₁, rest₁, sp₁⟩ := ih
    have queued : k'.At t (.queue i) := by
      cases before with
      | here queued => exact queued
      | trap _ _ _ queued => exact queued
    have mem := rest₁.inv.queued.mp queued
    have thread : k'.view.Thread t :=
      rest₁.inv.places.known (by rw [b₁.mem_queue.mp mem]; simp)
    obtain ⟨k₁, b₂, recs₂, rfl, handled, rest₂⟩ := trap_rest rest₁ fits taken
    refine ⟨b₂, recs₂, rest₂, (handled.keepsSp thread).trans ?_⟩
    rw [enter_saved_other (rest₁.inv.notRunning mem)]
    exact sp₁

theorem Kernel.Stays.queued (stays : k.Stays t i k') : k'.At t (.queue i) := by
  cases stays with
  | here queued => exact queued
  | trap _ _ _ queued => exact queued

end

end RiscvKernel
