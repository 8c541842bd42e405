import RiscvKernel.Frames
import RiscvKernel.SleepRuns

/-!
# Where a trap stores

* `Kernel.Stores`: the words that a system call may change;
* `Called.stores`, `Handled.quietStores`: it changes no others;
* `Called.waits`: who waits in a queue after a system call.
-/

namespace RiscvKernel
open Function Intrusive Placement

/-- From `k` to `k'` the thread `t` goes to the ready queue. -/
def Kernel.Readies (k k' : Kernel) (t : Nat) : Prop :=
  ∃ new, k'.hist.pushed = k.hist.pushed ++ new ∧ t ∈ new

/-- The words that the system call `code` may change, with the caller's frame at `context`: its
result, the results of the threads that it wakes, a handle, the frame of a new thread, and the
byte of `getc`. -/
inductive Kernel.Stores (k k' : Kernel) (context code : Nat) (b : Threads) : Nat → Prop
  | result (call : code ∈ resultCodes) : Stores k k' context code b (slot context regA0)
  | woken {t} (call : code = syscallSemClose ∨ code = syscallSemSignal)
      (waits : t ∈ b.queue (.sem (k.context context regA1))) (woken : k.Readies k' t) :
      Stores k k' context code b (slot (k.sp t) regA0)
  | handle (call : code = syscallThreadCreate ∨ code = syscallSemOpen) :
      Stores k k' context code b (k.context context regA1)
  | frame {i} (call : code = syscallThreadCreate) (lt : i < 32) :
      Stores k k' context code b (slot (u64 (k.context context regA4 - contextSize)) i)
  | byte (call : code = syscallGetc) (some : k.console.receiveCnt ≠ 0) :
      Stores k k' context code b (slot (k.sp k.scheduler.threadCurrent) regA0)

section
variable {k k' : Kernel} {context code a : Nat} {b b' : Threads} {recs recs' : List Nat}

theorem memAlloced_mem (k : Kernel) (p n : Nat) (heap : Heap) :
    (k.memAlloced p n heap).mem = k.mem := by
  unfold Kernel.memAlloced
  split <;> rfl

theorem dispatch_mem (k : Kernel) : (dispatch k).mem = k.mem := by
  rw [dispatch_eq, switch_mem]
  rfl

theorem threadCreated_mem (k : Kernel) (handle startF arg stackSpace p : Nat) (heap : Heap) :
    (k.threadCreated handle startF arg stackSpace p heap).mem =
      update (threadFrame k (u64 (stackSpace - contextSize)) startF arg).mem handle p := rfl

/-- The frame of a new thread stores nowhere else. -/
theorem threadFrame_other (k : Kernel) {sp startF arg : Nat}
    (other : ∀ i < 32, a ≠ slot sp i) : (threadFrame k sp startF arg).mem a = k.mem a := by
  show update (update (update (update (update k.mem _ _) _ _) _ _) _ _) _ _ a = _
  rw [update_of_ne (other regTp (by decide)), update_of_ne (other regGp (by decide)),
    update_of_ne (other regA1 (by decide)), update_of_ne (other regA0 (by decide)),
    update_of_ne (other regSp (by decide))]

/-- **Stores.** -/
theorem Called.stores (called : Called k context b recs code k' b' recs')
    (free : ¬ k.Stores k' context code b a) : k'.mem a = k.mem a := by
  have other : ∀ {a'}, k.Stores k' context code b a' → a ≠ a' := fun stores e => free (e ▸ stores)
  -- most arms end with the result
  have answer : ∀ {m : Kernel} {v : Nat}, code ∈ resultCodes → m.mem a = k.mem a →
      (m.setContext context regA0 v).mem a = k.mem a := fun call same =>
    (update_of_ne (other (.result call)) _ _).trans same
  cases called with
  | unknown => rfl
  | memAlloc p heap => exact answer (by decide) (by rw [memAlloced_mem])
  | getcByte some => exact update_of_ne (other (.byte rfl some)) _ _
  | getcBlocked =>
    show (switch k).mem a = _
    rw [switch_mem]
  | putcAccepted => rfl
  | putcRefused =>
    rw [dispatch_mem]
    rfl
  | createRefused => exact answer (by decide) rfl
  | created heap =>
    refine answer (by decide) ?_
    rw [threadCreated_mem, update_of_ne (other (.handle (Or.inl rfl)))]
    exact threadFrame_other k fun i lt => other (.frame rfl lt)
  | exited heap =>
    show k.threadExited.mem a = _
    unfold Kernel.threadExited
    rw [switch_mem]
    rfl
  | dispatched => rw [dispatch_mem]
  | openRefused => exact answer (by decide) rfl
  | @opened s heap =>
    refine answer (by decide) ?_
    show update k.mem _ s a = _
    rw [update_of_ne (other (.handle (Or.inr rfl)))]
  | @closed s b' arg heap =>
    refine answer (by decide) (answers_other (fun x hx => ?_) k.mem)
    obtain ⟨t, ht, rfl⟩ := List.mem_map.mp hx
    let k₁ := k.note fun h => { h with opened := h.opened.erase s }
    exact other (.woken (Or.inl rfl) (arg ▸ ht) ⟨_, pushAll_pushed k₁ _, ht⟩)
  | waited => exact answer (by decide) rfl
  | @blocked s =>
    show (switch (k.waited s)).mem a = _
    rw [switch_mem]
    rfl
  | signalled => exact answer (by decide) rfl
  | unheard => exact answer (by decide) rfl
  | @woke s w ws b' arg below first =>
    have waits : w ∈ b.queue (.sem (k.context context regA1)) := by
      rw [arg, first]
      exact List.mem_cons_self
    refine answer (by decide) ?_
    show update k.mem (slot (k.sp w) regA0) 0 a = _
    rw [update_of_ne (other (.woken (Or.inr rfl) waits ⟨[w], rfl, List.mem_singleton_self w⟩))]
  | sleepZero => exact answer (by decide) rfl
  | slept put =>
    rw [switch_mem, put.frame]
    exact answer (by decide) rfl

/-- A trap that is no system call only answers those whom the console wakes. -/
theorem Handled.quietStores (handled : Handled k b recs k' b' recs')
    (notUser : k.hart.scause ≠ irqEcallUser)
    (free : k.hart.scause = irqHw → ∀ t ∈ b.queue .input, k.Readies k' t →
      a ≠ slot (k.sp t) regA0) : k'.mem a = k.mem a := by
  have ticked_mem : ∀ {k₁ gone left}, k.Ticked k₁ recs gone left → k₁.mem = k.mem := by
    intro k₁ gone left ticked
    rw [ticked.frame]
    exact pushAll_memory _ _
  cases handled with
  | ignored => rfl
  | @console ws rest input bytes b' cause waiting empty delivered =>
    have pushed : (consoleReceive k).hist.pushed = k.hist.pushed ++ ws := by rw [delivered.frame]
    show (consoleReceive k).mem a = _
    rw [delivered.frame]
    refine answers_other (fun x hx => ?_) k.mem
    have woken := (List.of_mem_zip hx).1
    exact free cause x.1 (waiting ▸ List.mem_append_left rest woken) ⟨ws, pushed, woken⟩
  | ticked _ ticked => exact congrFun (ticked_mem ticked) a
  | preempted _ ticked => rw [dispatch_mem, ticked_mem ticked]
  | called cause => exact absurd cause notUser
  | mainIgnored => rfl
  | mainDispatched =>
    rw [switch_mem]
    rfl

/-! ## Who waits -/

/-- Nobody but the caller comes into a queue. -/
theorem mem_update_append {q : QueueId → List Nat} {i j : QueueId} {t x : Nat} {ready : List Nat}
    (queue : i ≠ .ready) (waits : t ∈ update (update q .ready ready) j (q j ++ [x]) i) :
    t ∈ q i ∨ t = x := by
  by_cases h : i = j
  · subst h
    simpa using waits
  · rw [update_of_ne h, update_of_ne queue] at waits
    exact Or.inl waits

/-- Nobody comes into a queue that gets shorter. -/
theorem mem_update_sublist {q : QueueId → List Nat} {i j : QueueId} {t : Nat} {xs : List Nat}
    (sub : xs ⊆ q j) (waits : t ∈ update q j xs i) : t ∈ q i := by
  by_cases h : i = j
  · subst h
    rw [update_self] at waits
    exact sub waits
  · rwa [update_of_ne h] at waits

/-- A system call makes nobody wait but its caller, and then it defines `a0`. -/
theorem Called.waits (called : Called k context b recs code k' b' recs') {i : QueueId} {t : Nat}
    (queue : i ≠ .ready) (waits : t ∈ b'.queue i) :
    t ∈ b.queue i ∨ t = k.scheduler.threadCurrent ∧ code ∈ resultCodes := by
  cases called with
  | getcBlocked _ eq =>
    rw [eq] at waits
    exact (mem_update_append queue waits).imp_right fun same => ⟨same, by decide⟩
  | putcRefused _ eq => exact Or.inl (by simpa [eq, queue] using waits)
  | created _ _ _ _ eq => exact Or.inl (by simpa [eq, queue] using waits)
  | exited _ eq => exact Or.inl (by simpa [eq, queue] using waits)
  | dispatched eq => exact Or.inl (by simpa [eq, queue] using waits)
  | closed _ _ eq =>
    rw [eq, update_of_ne queue] at waits
    exact Or.inl (mem_update_sublist (List.nil_subset _) waits)
  | blocked _ _ eq =>
    rw [eq] at waits
    exact (mem_update_append queue waits).imp_right fun same => ⟨same, by decide⟩
  | woke _ _ first eq =>
    rw [eq, update_of_ne queue] at waits
    exact Or.inl (mem_update_sublist (by rw [first]; exact List.subset_cons_self ..) waits)
  | slept _ eq => exact Or.inl (by simpa [eq, queue] using waits)
  | _ => exact Or.inl waits

theorem Handled.quietWaits (handled : Handled k b recs k' b' recs')
    (notUser : k.hart.scause ≠ irqEcallUser) {i : QueueId} {t : Nat} (queue : i ≠ .ready)
    (waits : t ∈ b'.queue i) : t ∈ b.queue i := by
  cases handled with
  | console _ waiting _ _ eq =>
    rw [eq, update_of_ne queue] at waits
    exact mem_update_sublist (by rw [waiting]; exact List.subset_append_right ..) waits
  | ticked _ _ eq => simpa [eq, queue] using waits
  | preempted _ _ eq => simpa [eq, queue] using waits
  | called cause => exact absurd cause notUser
  | mainDispatched _ eq => simpa [eq, queue] using waits
  | _ => exact waits

/-! ## The linker's addresses -/

theorem unblocked_image (k : Kernel) (s w : Nat) : (k.unblocked s w).image = k.image := by
  simp [Kernel.unblocked, schedulerPush, semNext, Kernel.modifySem, Kernel.modifyThread,
    Kernel.setContext, Kernel.poke]

theorem Called.image (called : Called k context b recs code k' b' recs') : k'.image = k.image := by
  cases called with
  | memAlloc p heap =>
    show (k.memAlloced p _ heap).image = _
    unfold Kernel.memAlloced
    split <;> rfl
  | getcBlocked => exact switch_image k
  | putcRefused => exact (switch_image _).trans rfl
  | exited => exact (switch_image _).trans rfl
  | dispatched => exact (switch_image _).trans rfl
  | closed => exact pushAll_image _ _
  | blocked => exact (switch_image _).trans rfl
  | @woke s w => exact unblocked_image (k.signalled s) s w
  | slept put =>
    rw [switch_image, put.frame]
    rfl
  | _ => rfl

theorem Handled.image (handled : Handled k b recs k' b' recs') : k'.image = k.image := by
  have ticked_image : ∀ k₁ {gone left}, k.Ticked k₁ recs gone left → k₁.image = k.image := by
    intro k₁ gone left ticked
    rw [ticked.frame]
    exact pushAll_image _ _
  cases handled with
  | console _ _ _ delivered =>
    show (consoleReceive k).image = _
    rw [delivered.frame]
  | @ticked k₁ _ _ _ _ ticked => exact ticked_image k₁ ticked
  | @preempted k₁ _ _ _ _ ticked => exact (switch_image _).trans (ticked_image k₁ ticked)
  | called _ called => exact called.image
  | mainDispatched => exact (switch_image _).trans rfl
  | _ => rfl

end

end RiscvKernel
