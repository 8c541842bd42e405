import RiscvKernel.SleepMoves

/-!
# Saved registers

The stack pointer, `sepc` and `sstatus` of a thread are in the hart while it is
the current one, and in its control block else. Giving up the hart moves them
from one to the other and changes none of them.
-/

namespace RiscvKernel
open Function

/-- What the kernel keeps of a thread outside its frame. -/
structure Saved where
  sp : Nat
  sepc : Nat
  sstatus : Nat

def Thread.saved (t : Thread) : Saved := ⟨t.sp, t.sepc, t.sstatus⟩

def Hart.saved (h : Hart) : Saved := ⟨h.sscratch, h.sepc, h.sstatus⟩

/-- What a thread resumes from. -/
def Kernel.saved (k : Kernel) (t : Nat) : Saved :=
  if t = k.scheduler.threadCurrent then k.hart.saved else (k.thread t).saved

theorem saved_current (k : Kernel) : k.saved k.scheduler.threadCurrent = k.hart.saved := if_pos rfl

theorem saved_other {k : Kernel} {t : Nat} (h : t ≠ k.scheduler.threadCurrent) :
    k.saved t = (k.thread t).saved := if_neg h

theorem schedulerPush_thread_saved (k : Kernel) (t s : Nat) :
    ((schedulerPush k t).thread s).saved = (k.thread s).saved := by
  show (update k.thread t _ s).saved = _
  rw [update_apply]
  split
  · next h => rw [h]; rfl
  · rfl

theorem schedulerPush_saved (k : Kernel) (t : Nat) : (schedulerPush k t).saved = k.saved := by
  funext s
  unfold Kernel.saved
  rw [schedulerPush_thread_saved]
  rfl

theorem pushAll_thread_saved (k : Kernel) (ts : List Nat) (s : Nat) :
    ((pushAll k ts).thread s).saved = (k.thread s).saved := by
  induction ts generalizing k with
  | nil => rfl
  | cons t ts ih => exact (ih (schedulerPush k t)).trans (schedulerPush_thread_saved k t s)

theorem pushAll_saved (k : Kernel) (ts : List Nat) : (pushAll k ts).saved = k.saved := by
  funext s
  unfold Kernel.saved
  rw [pushAll_thread_saved, pushAll_hart, pushAll_current]

/-- `yield` between two control blocks, read with the new thread as the current one. -/
theorem yield_saved {k : Kernel} {old new t : Nat} (current : k.scheduler.threadCurrent = new) :
    (yield k old new).saved t = if t = old then k.hart.saved else (k.thread t).saved := by
  unfold Kernel.saved yield
  split
  · next same =>
    show (if t = k.scheduler.threadCurrent then k.hart.saved else (update k.thread old _ t).saved) =
      _
    rw [current, ← same]
    split
    · rfl
    · next h => rw [update_of_ne h]
  · next differ =>
    show (if t = k.scheduler.threadCurrent then (k.thread new).saved
      else (update k.thread old _ t).saved) = _
    rw [current]
    by_cases h : t = new
    · subst h
      rw [if_pos rfl, if_neg (Ne.symm differ)]
    · rw [if_neg h, update_apply]
      split <;> rfl

/-- **Giving up the hart keeps what every thread resumes from.** -/
theorem switch_saved (k : Kernel) : (switch k).saved = k.saved := by
  have next : (schedulerNext k).2.scheduler.threadCurrent = (schedulerNext k).1 ∧
      (schedulerNext k).2.hart = k.hart ∧ (schedulerNext k).2.thread = k.thread := by
    unfold schedulerNext
    split <;> exact ⟨rfl, rfl, rfl⟩
  funext t
  rw [switch, yield_saved next.1, next.2.1, next.2.2]
  rfl

theorem dispatch_saved (k : Kernel) : (dispatch k).saved = k.saved := by
  rw [dispatch_eq, switch_saved, schedulerPush_saved]

/-! ## Answers -/

/-- Each of the threads gets its answer in the `a0` slot of its frame. -/
def answers (sp : Nat → Nat) (xs : List (Nat × Nat)) (m : Nat → Nat) : Nat → Nat :=
  xs.foldl (fun m x => update m (slot (sp x.1) regA0) x.2) m

@[simp] theorem answers_nil (sp : Nat → Nat) (m : Nat → Nat) : answers sp [] m = m := rfl
@[simp] theorem answers_cons (sp : Nat → Nat) (x : Nat × Nat) (xs : List (Nat × Nat))
    (m : Nat → Nat) :
    answers sp (x :: xs) m = answers sp xs (update m (slot (sp x.1) regA0) x.2) := rfl

theorem answers_other {sp : Nat → Nat} {xs : List (Nat × Nat)} {a : Nat}
    (h : ∀ x ∈ xs, a ≠ slot (sp x.1) regA0) (m : Nat → Nat) : answers sp xs m a = m a := by
  induction xs generalizing m with
  | nil => rfl
  | cons x xs ih =>
    rw [answers_cons, ih fun y hy => h y (List.mem_cons_of_mem x hy),
      update_of_ne (h x List.mem_cons_self)]

/-- An answer stays unless a later one goes to the same frame. -/
theorem answers_last {sp : Nat → Nat} {xs ys : List (Nat × Nat)} {t v : Nat}
    (h : ∀ y ∈ ys, sp y.1 = sp t → y.2 = v) (m : Nat → Nat) :
    answers sp (xs ++ (t, v) :: ys) m (slot (sp t) regA0) = v := by
  have kept : ∀ m : Nat → Nat, m (slot (sp t) regA0) = v →
      answers sp ys m (slot (sp t) regA0) = v := by
    induction ys with
    | nil => exact fun m hm => hm
    | cons y ys ih =>
      intro m hm
      refine ih (fun z hz => h z (List.mem_cons_of_mem y hz)) _ ?_
      show update m _ _ _ = v
      rw [update_apply]
      split
      · next e =>
        refine h y List.mem_cons_self ?_
        simp only [slot] at e
        omega
      · exact hm
  induction xs generalizing m with
  | nil => exact kept _ (by simp)
  | cons x xs ih => exact ih _

/-- The stack pointers in the control blocks. -/
def Kernel.sp (k : Kernel) (t : Nat) : Nat := (k.thread t).sp

theorem schedulerPush_sp (k : Kernel) (t : Nat) : (schedulerPush k t).sp = k.sp :=
  funext fun s => congrArg Saved.sp (schedulerPush_thread_saved k t s)

/-! ## Time slices -/

/-- What is left of the time slice of `t`. -/
def Kernel.slice (k : Kernel) (t : Nat) : Nat := (k.thread t).timeLeft

theorem schedulerPush_slice (k : Kernel) (t : Nat) :
    (schedulerPush k t).slice = update k.slice t defaultTimeSlice := by
  funext s
  show (update k.thread t _ s).timeLeft = _
  rw [update_apply, update_apply]
  split <;> rfl

theorem pushAll_slice (k : Kernel) (ts : List Nat) (s : Nat) :
    (pushAll k ts).slice s = if s ∈ ts then defaultTimeSlice else k.slice s := by
  induction ts generalizing k with
  | nil => simp [pushAll]
  | cons t ts ih =>
    rw [pushAll_cons, ih (schedulerPush k t), schedulerPush_slice, update_apply]
    by_cases h : s = t <;> simp [h]

theorem switch_slice (k : Kernel) : (switch k).slice = k.slice := by
  have view := congrArg View.timeLeft (switch_view k)
  refine view.trans ?_
  split <;> rfl

theorem dispatch_slice (k : Kernel) :
    (dispatch k).slice = update k.slice k.scheduler.threadCurrent defaultTimeSlice := by
  rw [dispatch_eq, switch_slice, schedulerPush_slice]

end RiscvKernel
