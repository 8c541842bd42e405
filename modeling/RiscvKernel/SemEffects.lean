import RiscvKernel.Runs
import RiscvKernel.Counting

/-!
# What a trap does to a semaphore

* `Kernel.account`: a semaphore of the kernel with its history;
* `SemEffect`: a trap leaves a semaphore alone, or it is one of the calls
  on it;
* `Handled.sem`: every trap is one of these.
-/

namespace RiscvKernel
open Function Intrusive Placement Counting

/-- The semaphore `s` and what happened to it since it was opened. -/
def Kernel.account (k : Kernel) (b : Threads) (s : Nat) : Account Nat where
  val := (k.sem s).val
  queue := b.queue (.sem s)
  init := (k.sem s).init
  waits := k.hist.waits s
  signals := k.hist.signals s
  blocked := k.hist.blocked s

/-- What a trap does to the semaphore `s`. `calls` says which system call the trap is,
and `arg` are its arguments. -/
inductive SemEffect (calls : Nat → Prop) (arg : Nat → Nat) (k : Kernel) (b : Threads) (s : Nat)
    (k' : Kernel) (b' : Threads) : Prop where
  | kept (same : k'.account b' s = k.account b s) (opened : s ∈ k'.hist.opened ↔ s ∈ k.hist.opened)
  | opened (call : calls syscallSemOpen) (fresh : s ∉ k.hist.opened)
      (account : k'.account b' s = .opened (toI32 (arg regA2 % 2 ^ 32 : Nat)))
  | closed (call : calls syscallSemClose) (arg : arg regA1 = s) (closed : s ∉ k'.hist.opened)
  | waited (call : calls syscallSemWait) (arg : arg regA1 = s)
      (opened : s ∈ k'.hist.opened ↔ s ∈ k.hist.opened)
      (account : toI32 ((k.sem s).val - 1) = (k.sem s).val - 1 →
        k'.account b' s = (k.account b s).wait k.scheduler.threadCurrent)
  | signalled (call : calls syscallSemSignal) (arg : arg regA1 = s)
      (opened : s ∈ k'.hist.opened ↔ s ∈ k.hist.opened)
      (account : toI32 ((k.sem s).val + 1) = (k.sem s).val + 1 →
        k'.account b' s = (k.account b s).signal)

/-! ## Steps that leave all semaphores alone -/

/-- The semaphores and their history are the same. -/
structure Kernel.SameSems (k k' : Kernel) : Prop where
  sem : k'.sem = k.sem
  opened : k'.hist.opened = k.hist.opened
  waits : k'.hist.waits = k.hist.waits
  signals : k'.hist.signals = k.hist.signals
  blocked : k'.hist.blocked = k.hist.blocked

theorem Kernel.SameSems.trans {k m k' : Kernel} (h : k.SameSems m) (h' : m.SameSems k') :
    k.SameSems k' :=
  ⟨h'.sem.trans h.sem, h'.opened.trans h.opened, h'.waits.trans h.waits,
    h'.signals.trans h.signals, h'.blocked.trans h.blocked⟩

theorem Kernel.SameSems.of_hist {k k' : Kernel} (sem : k'.sem = k.sem) (hist : k'.hist = k.hist) :
    k.SameSems k' := by
  refine ⟨sem, ?_, ?_, ?_, ?_⟩ <;> rw [hist]

theorem switch_sameSems (k : Kernel) : k.SameSems (switch k) :=
  .of_hist (switch_sem k) (switch_hist k)

theorem dispatch_sameSems (k : Kernel) : k.SameSems (dispatch k) :=
  Kernel.SameSems.trans (m := schedulerPush k k.scheduler.threadCurrent)
    ⟨rfl, rfl, rfl, rfl, rfl⟩ (switch_sameSems _)

theorem pushAll_sameSems (k : Kernel) (ts : List Nat) : k.SameSems (pushAll k ts) := by
  refine ⟨pushAll_sem k ts, ?_, ?_, ?_, ?_⟩ <;> rw [pushAll_hist]

section
variable {calls : Nat → Prop} {arg : Nat → Nat} {k k' : Kernel} {b b' : Threads} {s : Nat}

theorem Kernel.SameSems.account (same : k.SameSems k')
    (queue : b'.queue (.sem s) = b.queue (.sem s)) : k'.account b' s = k.account b s := by
  obtain ⟨sem, -, waits, signals, blocked⟩ := same
  unfold Kernel.account
  rw [sem, queue, waits, signals, blocked]

theorem Kernel.SameSems.effect (same : k.SameSems k')
    (queue : b'.queue (.sem s) = b.queue (.sem s)) : SemEffect calls arg k b s k' b' :=
  .kept (same.account queue) (by rw [same.opened])

end

/-! ## System calls -/

section
variable {k k' : Kernel} {context code : Nat} {b b' : Threads} {recs recs' : List Nat}

/-- Calls that are not about semaphores. -/
theorem Called.sameSems (called : Called k context b recs code k' b' recs')
    (sem : code ∉ [syscallSemOpen, syscallSemClose, syscallSemWait, syscallSemSignal]) :
    k.SameSems k' ∧ ∀ s, b'.queue (.sem s) = b.queue (.sem s) := by
  cases called with
  | unknown => exact ⟨.of_hist rfl rfl, fun _ => rfl⟩
  | memAlloc p heap =>
    refine ⟨?_, fun _ => rfl⟩
    unfold Kernel.memAlloced
    split <;> exact ⟨rfl, rfl, rfl, rfl, rfl⟩
  | getcByte => exact ⟨⟨rfl, rfl, rfl, rfl, rfl⟩, fun _ => rfl⟩
  | getcBlocked _ queue =>
    have same := switch_sameSems k
    exact ⟨⟨same.sem, same.opened, same.waits, same.signals, same.blocked⟩,
      fun s => by simp [queue]⟩
  | putcAccepted => exact ⟨⟨rfl, rfl, rfl, rfl, rfl⟩, fun _ => rfl⟩
  | putcRefused _ queue =>
    have same := dispatch_sameSems (k.putcRefused (charOf (k.context context regA1)))
    exact ⟨⟨same.sem, same.opened, same.waits, same.signals, same.blocked⟩,
      fun s => by simp [queue]⟩
  | createRefused => exact ⟨.of_hist rfl rfl, fun _ => rfl⟩
  | created heap _ _ _ queue => exact ⟨⟨rfl, rfl, rfl, rfl, rfl⟩, fun s => by simp [queue]⟩
  | exited heap queue =>
    have same := switch_sameSems ((schedulerUserThreadDecrement k).note fun h =>
      { h with live := h.live.erase k.scheduler.threadCurrent })
    exact ⟨⟨same.sem, same.opened, same.waits, same.signals, same.blocked⟩,
      fun s => by simp [queue]⟩
  | dispatched queue => exact ⟨dispatch_sameSems k, fun s => by simp [queue]⟩
  | sleepZero => exact ⟨.of_hist rfl rfl, fun _ => rfl⟩
  | @slept k₁ p front back b' put queue =>
    have same : k.SameSems k₁ := by
      rw [put.frame]
      exact ⟨rfl, rfl, rfl, rfl, rfl⟩
    exact ⟨same.trans (switch_sameSems k₁), fun s => by simp [queue]⟩
  | _ => simp at sem

variable {calls : Nat → Prop} {arg : Nat → Nat}

/-- A wait changes its own semaphore only. -/
theorem Called.waitEffect (called : Called k context b recs syscallSemWait k' b' recs')
    (call : calls syscallSemWait) (args : k.context context regA1 = arg regA1) (s : Nat) :
    SemEffect calls arg k b s k' b' := by
  cases called with
  | unknown none => exact absurd (by decide) none
  | @waited s₁ arg₁ passes =>
    by_cases h : s = s₁
    · subst h
      refine .waited call (args.symm.trans arg₁) Iff.rfl fun fits => ?_
      rw [fits] at passes
      simp [Kernel.account, Account.wait, Semaphore.wait, Kernel.waited, Kernel.modifySem,
        Kernel.note, Kernel.setContext, Kernel.poke, fits, passes]
    · exact .kept (by simp [Kernel.account, Kernel.waited, Kernel.modifySem, Kernel.note,
        Kernel.setContext, Kernel.poke, h]) Iff.rfl
  | @blocked s₁ b' arg₁ blocks queue =>
    have same := switch_sameSems (k.waited s₁)
    have opened : (semPush (switch (k.waited s₁)) s₁ k.scheduler.threadCurrent).hist.opened =
      k.hist.opened := same.opened
    by_cases h : s = s₁
    · subst h
      refine .waited call (args.symm.trans arg₁) (by rw [opened]) fun fits => ?_
      rw [fits] at blocks
      simp [Kernel.account, Account.wait, Semaphore.wait, semPush, Kernel.waited, Kernel.modifySem,
        Kernel.note, fits, blocks, queue]
    · exact .kept (by simp [Kernel.account, semPush, Kernel.waited, Kernel.modifySem, Kernel.note,
        queue, h]) (by rw [opened])

/-- A signal changes its own semaphore only. -/
theorem Called.signalEffect (called : Called k context b recs syscallSemSignal k' b' recs')
    (call : calls syscallSemSignal) (args : k.context context regA1 = arg regA1) (s : Nat) :
    SemEffect calls arg k b s k' b' := by
  cases called with
  | unknown none => exact absurd (by decide) none
  | @signalled s₁ arg₁ above =>
    by_cases h : s = s₁
    · subst h
      refine .signalled call (args.symm.trans arg₁) Iff.rfl fun fits => ?_
      rw [fits] at above
      simp [Kernel.account, Account.signal, Semaphore.signal, Kernel.signalled, Kernel.modifySem,
        Kernel.note, Kernel.setContext, Kernel.poke, fits, above]
    · exact .kept (by simp [Kernel.account, Kernel.signalled, Kernel.modifySem, Kernel.note,
        Kernel.setContext, Kernel.poke, h]) Iff.rfl
  | @unheard s₁ arg₁ below nobody =>
    by_cases h : s = s₁
    · subst h
      refine .signalled call (args.symm.trans arg₁) Iff.rfl fun fits => ?_
      simp [Kernel.account, Account.signal, Semaphore.signal, Kernel.signalled, Kernel.modifySem,
        Kernel.note, Kernel.setContext, Kernel.poke, fits, nobody]
    · exact .kept (by simp [Kernel.account, Kernel.signalled, Kernel.modifySem, Kernel.note,
        Kernel.setContext, Kernel.poke, h]) Iff.rfl
  | @woke s₁ w ws b' arg₁ below first queue =>
    by_cases h : s = s₁
    · subst h
      refine .signalled call (args.symm.trans arg₁) Iff.rfl fun fits => ?_
      rw [fits] at below
      simp [Kernel.account, Account.signal, Semaphore.signal, Kernel.unblocked, schedulerPush,
        semNext, Kernel.signalled, Kernel.modifySem, Kernel.modifyThread, Kernel.note,
        Kernel.setContext, Kernel.poke, fits, below, first, queue]
    · exact .kept (by simp [Kernel.account, Kernel.unblocked, schedulerPush, semNext,
        Kernel.signalled, Kernel.modifySem, Kernel.modifyThread, Kernel.note, Kernel.setContext,
        Kernel.poke, h, queue]) Iff.rfl

/-- **System calls.** -/
theorem Called.sem (called : Called k context b recs code k' b' recs') (inv : k.Inv b recs)
    (call : calls code) (args : ∀ i, regA0 ≤ i → i ≤ regA4 → k.context context i = arg i)
    (s : Nat) : SemEffect calls arg k b s k' b' := by
  have a1 := args regA1 (by decide) (by decide)
  have a2 := args regA2 (by decide) (by decide)
  by_cases sem : code ∈ [syscallSemOpen, syscallSemClose, syscallSemWait, syscallSemSignal]
  case neg =>
    obtain ⟨same, queue⟩ := called.sameSems sem
    exact same.effect (queue s)
  simp only [List.mem_cons, List.not_mem_nil, or_false] at sem
  rcases sem with rfl | rfl | rfl | rfl
  · cases called with
    | unknown none => exact absurd (by decide) none
    | openRefused => exact Kernel.SameSems.effect (.of_hist rfl rfl) rfl
    | @opened s₁ heap nonzero fresh =>
      by_cases h : s = s₁
      · subst h
        refine .opened call fresh ?_
        have idle : b.queue (.sem s) = [] := inv.places.rings.idle (.sem s) fresh
        simp [Kernel.account, Account.opened, Kernel.semOpened, Kernel.modifySem, Kernel.note,
          Kernel.setContext, Kernel.poke, idle, a2]
      · exact .kept (by simp [Kernel.account, Kernel.semOpened, Kernel.modifySem, Kernel.note,
          Kernel.setContext, Kernel.poke, h]) (by simp [Kernel.semOpened, Kernel.modifySem,
          Kernel.note, Kernel.setContext, Kernel.poke, h])
  · cases called with
    | unknown none => exact absurd (by decide) none
    | @closed s₁ b' arg₁ heap queue =>
      let k₀ := k.note fun h => { h with opened := h.opened.erase s₁ }
      have same := pushAll_sameSems k₀ (b.queue (.sem s₁))
      have nodup : k.hist.opened.Nodup := (owned_nodup inv.owns).2.2
      have opened : ((k.semClosed s₁ (b.queue (.sem s₁)) heap).setContext context regA0
        0).hist.opened
          = k.hist.opened.erase s₁ := same.opened
      by_cases h : s = s₁
      · subst h
        refine .closed call (a1.symm.trans arg₁) ?_
        rw [opened]
        exact nodup.not_mem_erase
      · refine .kept ?_ ?_
        · exact Kernel.SameSems.account (k := k₀) ⟨same.sem, same.opened, same.waits, same.signals,
            same.blocked⟩ (by simp [queue, h])
        · rw [opened, nodup.mem_erase_iff]
          simp [h]
  · exact called.waitEffect call a1 s
  · exact called.signalEffect call a1 s

end

/-! ## Traps -/

theorem ticked_sameSems {k k₁ : Kernel} {recs gone left : List Nat}
    (ticked : k.Ticked k₁ recs gone left) : k.SameSems k₁ := by
  have same := pushAll_sameSems { k with sleeping := k₁.sleeping }
    (gone.map fun r => (k.sleeping r).thread)
  rw [ticked.frame]
  exact ⟨same.sem, same.opened, same.waits, same.signals, same.blocked⟩

/-- **Traps.** -/
theorem Handled.sem {k k₁ : Kernel} {tr : Trap} {b b' : Threads} {recs recs' : List Nat}
    (handled : Handled (enter k tr) b recs k₁ b' recs') (inv : k.Inv b recs) (s : Nat) :
    SemEffect tr.Calls tr.regs k b s (leave k₁) b' := by
  have quiet : ∀ k₁, (enter k tr).SameSems k₁ → b'.queue (.sem s) = b.queue (.sem s) →
      SemEffect tr.Calls tr.regs k b s (leave k₁) b' := fun k₁ same queue =>
    Kernel.SameSems.effect ⟨same.sem, same.opened, same.waits, same.signals, same.blocked⟩ queue
  cases handled with
  | ignored => exact quiet _ (.of_hist rfl rfl) rfl
  | console _ _ _ delivered queue =>
    have same : (enter k tr).SameSems (consoleReceive (enter k tr)) := by
      rw [delivered.frame]
      exact ⟨rfl, rfl, rfl, rfl, rfl⟩
    exact quiet _ ⟨same.sem, same.opened, same.waits, same.signals, same.blocked⟩
      (by simp [queue])
  | ticked _ ticked queue =>
    have same := ticked_sameSems ticked
    exact quiet _ ⟨same.sem, same.opened, same.waits, same.signals, same.blocked⟩ (by simp [queue])
  | preempted _ ticked queue =>
    exact quiet _ ((ticked_sameSems ticked).trans (dispatch_sameSems _)) (by simp [queue])
  | called cause called =>
    have inv₁ : (bumpSepc (enter k tr) 4).Inv b recs := (enter_inv inv tr).congr rfl rfl
    have code : (enter k tr).context tr.frame regA0 = tr.regs regA0 :=
      enter_arg k tr (by decide) (by decide)
    have effect : SemEffect tr.Calls tr.regs (bumpSepc (enter k tr) 4) b s k₁ b' :=
      called.sem inv₁ ⟨cause, code.symm⟩ (fun i lo hi => enter_arg k tr lo hi) s
    cases effect with
    | kept same opened => exact .kept same opened
    | opened call fresh account => exact .opened call fresh account
    | closed call arg closed => exact .closed call arg closed
    | waited call arg opened account => exact .waited call arg opened account
    | signalled call arg opened account => exact .signalled call arg opened account
  | mainIgnored => exact quiet _ ⟨rfl, rfl, rfl, rfl, rfl⟩ rfl
  | mainDispatched _ queue =>
    refine quiet _ ?_ (by simp [queue])
    exact Kernel.SameSems.trans (m := bumpSepc (enter k tr) 4) ⟨rfl, rfl, rfl, rfl, rfl⟩
      (switch_sameSems _)

end RiscvKernel
