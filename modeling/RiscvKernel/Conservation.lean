import RiscvKernel.SemEffects

/-!
# Semaphores conserve their units

* `Kernel.Conserved`: `val` and the waiting ring say what happened to a semaphore;
* `Kernel.SemStep`: what the calls on it do to the threads;
* `semaphore_conserved`: both, in every run.
-/

namespace RiscvKernel
open Function Intrusive Placement Counting

/-- The rings of the queues show the lists `q`. -/
structure Kernel.Queues (k : Kernel) (q : QueueId → List Nat) : Prop where
  ring : ∀ i, k.view.Active i → IsRing k.links (k.head i) (q i)
  idle : ∀ i, ¬ k.view.Active i → q i = []

/-- The trap keeps `val` of the semaphore `s` within an `i32`. -/
structure WithinI32 (s : Nat) (k : Kernel) (tr : Trap) : Prop where
  wait : tr.Calls syscallSemWait → tr.regs regA1 = s → -2 ^ 31 < (k.sem s).val
  signal : tr.Calls syscallSemSignal → tr.regs regA1 = s → (k.sem s).val < 2 ^ 31 - 1

/-- Since the semaphore `s` was opened, its `val` has counted every wait and signal, the
threads that wait are the last of those that blocked, and no more waits are over
than there were units. -/
structure Kernel.Conserved (k : Kernel) (s : Nat) : Prop where
  val : (k.sem s).val = (k.sem s).init + k.hist.signals s - k.hist.waits s
  ring : ∃ woken waiting, IsRing k.links (k.sem s).waitingThreads waiting ∧
    waiting.length = (-(k.sem s).val).toNat ∧ k.hist.blocked s = woken ++ waiting ∧
    (k.hist.blocked s).length ≤ k.hist.waits s ∧
    (k.hist.waits s : Int) - waiting.length ≤ (k.sem s).init + k.hist.signals s

/-- A wait on `s` blocks exactly when it brings `val` below 0; the caller's frame is at
`context`. -/
structure Kernel.WaitsOn (k : Kernel) (s context : Nat) (q : QueueId → List Nat)
    (k' : Kernel) : Prop where
  val : (k'.sem s).val = (k.sem s).val - 1
  blocks : (k'.sem s).val < 0 →
    k'.Queues (update (update q .ready (q .ready).tail) (.sem s)
      (q (.sem s) ++ [k.scheduler.threadCurrent])) ∧
    k'.scheduler.threadCurrent ≠ k.scheduler.threadCurrent
  passes : ¬ (k'.sem s).val < 0 → k'.Queues q ∧
    k'.scheduler.threadCurrent = k.scheduler.threadCurrent ∧ k'.context context regA0 = 0

/-- A signal on `s` wakes the thread that has waited longest, and moves no other thread. -/
structure Kernel.SignalsOn (k : Kernel) (s context : Nat) (q : QueueId → List Nat)
    (k' : Kernel) : Prop where
  val : (k'.sem s).val = (k.sem s).val + 1
  heard : ∀ w ws, q (.sem s) = w :: ws →
    k'.Queues (update (update q (.sem s) ws) .ready (q .ready ++ [w])) ∧
    k'.hist.pushed = k.hist.pushed ++ [w] ∧ k'.context (k'.saved w).sp regA0 = 0
  unheard : q (.sem s) = [] → k'.Queues q ∧ k'.hist.pushed = k.hist.pushed
  running : k'.scheduler.threadCurrent = k.scheduler.threadCurrent
  result : k'.context context regA0 = 0
  sleepers : k'.sleepLinks = k.sleepLinks ∧ k'.sleeping = k.sleeping ∧
    k'.scheduler.sleepingThreads = k.scheduler.sleepingThreads

/-- A close of `s` makes every thread that waits ready, in order and once, with -1 in
the `a0` slot of its frame. -/
structure Kernel.ClosesSem (k : Kernel) (s context : Nat) (q : QueueId → List Nat)
    (k' : Kernel) : Prop where
  closed : s ∉ k'.hist.opened
  queues : k'.Queues (update (update q (.sem s) []) .ready (q .ready ++ q (.sem s)))
  pushed : k'.hist.pushed = k.hist.pushed ++ q (.sem s)
  once : (q (.sem s)).Nodup
  frames : ∀ w ∈ q (.sem s), (k'.saved w).sp ≠ context →
    k'.context (k'.saved w).sp regA0 = u64 semClosedExternally

/-- What a trap does to the semaphore `s`; `q` are the queues before it. -/
structure Kernel.SemStep (k : Kernel) (s : Nat) (tr : Trap) (q : QueueId → List Nat)
    (k' : Kernel) : Prop where
  init : s ∈ k'.hist.opened → (k'.sem s).init = (k.sem s).init
  wait : tr.Calls syscallSemWait → tr.regs regA1 = s → k.WaitsOn s tr.frame q k'
  signal : tr.Calls syscallSemSignal → tr.regs regA1 = s → k.SignalsOn s tr.frame q k'
  close : tr.Calls syscallSemClose → tr.regs regA1 = s → k.ClosesSem s tr.frame q k'
  others : (∀ code ∈ [syscallSemWait, syscallSemSignal, syscallSemClose],
      tr.Calls code → tr.regs regA1 ≠ s) →
    s ∈ k'.hist.opened ∧ (k'.sem s).val = (k.sem s).val ∧
      IsRing k'.links (k'.sem s).waitingThreads (q (.sem s))

theorem Kernel.Queues.leave {k : Kernel} {q : QueueId → List Nat} (queues : k.Queues q) :
    (leave k).Queues q := ⟨queues.ring, queues.idle⟩

/-! ## The account between two traps -/

/-- The account of `s` is sound, unless it was opened with more than 2³¹ - 1 units. -/
structure Kernel.Accounted (k : Kernel) (b : Threads) (s : Nat) : Prop where
  range : -2 ^ 31 ≤ (k.sem s).val ∧ (k.sem s).val < 2 ^ 31
  sound : 0 ≤ (k.sem s).init → (k.account b s).Sound

section
variable {k k' : Kernel} {b b' : Threads} {recs recs' : List Nat} {tr : Trap} {s : Nat}

theorem SemEffect.accounted (effect : SemEffect tr.Calls tr.regs k b s k' b')
    (within : WithinI32 s k tr) (accounted : s ∈ k.hist.opened → k.Accounted b s)
    (opened : s ∈ k'.hist.opened) : k'.Accounted b' s := by
  cases effect with
  | kept same still =>
    have before := accounted (still.mp opened)
    have val : (k'.sem s).val = (k.sem s).val := congrArg (fun a : Account Nat => a.val) same
    have init : (k'.sem s).init = (k.sem s).init := congrArg Account.init same
    have := before.range
    refine ⟨by omega, fun h => ?_⟩
    rw [same]
    exact before.sound (by omega)
  | opened call fresh account =>
    have range := toI32_range (tr.regs regA2 % 2 ^ 32 : Nat)
    generalize toI32 (tr.regs regA2 % 2 ^ 32 : Nat) = n at account range
    have val : (k'.sem s).val = n := congrArg (fun a : Account Nat => a.val) account
    have init : (k'.sem s).init = n := congrArg Account.init account
    refine ⟨by omega, fun h => ?_⟩
    rw [account]
    exact Account.sound_opened (by omega)
  | closed _ _ closed => exact absurd opened closed
  | waited call arg still account =>
    have before := accounted (still.mp opened)
    have low := within.wait call arg
    have fits := toI32_eq (x := (k.sem s).val - 1) (by omega) (by have := before.range.2; omega)
    have account := account fits
    have val : (k'.sem s).val = (k.sem s).val - 1 := congrArg (fun a : Account Nat => a.val) account
    have init : (k'.sem s).init = (k.sem s).init := congrArg Account.init account
    have := before.range
    refine ⟨by omega, fun h => ?_⟩
    rw [account]
    exact (before.sound (by omega)).wait _
  | signalled call arg still account =>
    have before := accounted (still.mp opened)
    have high := within.signal call arg
    have fits := toI32_eq (x := (k.sem s).val + 1) (by have := before.range.1; omega) (by omega)
    have account := account fits
    have val : (k'.sem s).val = (k.sem s).val + 1 := congrArg (fun a : Account Nat => a.val) account
    have init : (k'.sem s).init = (k.sem s).init := congrArg Account.init account
    have := before.range
    refine ⟨by omega, fun h => ?_⟩
    rw [account]
    exact (before.sound (by omega)).signal

theorem run_accounted {k₀ : Kernel} (run : Run (WithinI32 s) k₀ k) :
    ∃ b recs, k.Rest b recs ∧ (s ∈ k.hist.opened → k.Accounted b s) := by
  refine run_invariant (P := fun k b _ => s ∈ k.hist.opened → k.Accounted b s)
    (fun platform booted opened => ?_)
    (fun rest _ within handled _ holds => (handled.sem rest.inv s).accounted within holds) run
  rw [booted.hist] at opened
  exact absurd opened (by simp [platform.noSems])

theorem Kernel.Accounted.conserved (accounted : k.Accounted b s) (rest : k.Rest b recs)
    (opened : s ∈ k.hist.opened) (init : 0 ≤ (k.sem s).init) : k.Conserved s := by
  have sound := accounted.sound init
  obtain ⟨woken, order⟩ := sound.order
  exact ⟨sound.val, woken, b.queue (.sem s), rest.places.rings.ring (.sem s) opened,
    sound.balanced, order.symm, sound.passed, sound.succeeded⟩

/-! ## The calls on a semaphore -/

/-- The board is what the rings show. -/
theorem Kernel.Inv.queues (inv : k.Inv b recs) : k.Queues b.queue :=
  ⟨inv.places.rings.ring, inv.places.rings.idle⟩

theorem Kernel.Inv.queues_eq (inv : k.Inv b recs) {q : QueueId → List Nat} (queues : k.Queues q) :
    q = b.queue := by
  funext i
  by_cases h : k.view.Active i
  · exact (queues.ring i h).unique (inv.places.rings.ring i h)
  · rw [queues.idle i h, inv.places.rings.idle i h]

/-- Only `sem_close` closes a semaphore. -/
theorem Handled.staysOpen (handled : Handled (enter k tr) b recs k₁ b' recs') (inv : k.Inv b recs)
    (noClose : tr.Calls syscallSemClose → tr.regs regA1 ≠ s) (opened : s ∈ k.hist.opened) :
    s ∈ (leave k₁).hist.opened := by
  cases handled.sem inv s with
  | kept _ still => exact still.mpr opened
  | opened _ fresh => exact absurd opened fresh
  | closed call arg => exact absurd arg (noClose call)
  | waited _ _ still => exact still.mpr opened
  | signalled _ _ still => exact still.mpr opened

/-- A thread in a queue does not run. -/
theorem Kernel.Inv.notRunning (inv : k.Inv b recs) {i : QueueId} {t : Nat}
    (queued : t ∈ b.queue i) : t ≠ k.scheduler.threadCurrent := by
  intro running
  have := (b.mem_queue.mp queued).symm.trans (inv.running.mpr running)
  simp at this

end

section
variable {k k' : Kernel} {context : Nat} {b b' : Threads} {recs recs' : List Nat} {s : Nat}

theorem setContext_self (k : Kernel) (c i v : Nat) : (k.setContext c i v).context c i = v :=
  update_self ..

theorem unblocked_rest (k : Kernel) (s w : Nat) :
    (k.unblocked s w).sleepLinks = k.sleepLinks ∧ (k.unblocked s w).sleeping = k.sleeping ∧
      (k.unblocked s w).scheduler.sleepingThreads = k.scheduler.sleepingThreads ∧
      (k.unblocked s w).hist.pushed = k.hist.pushed ++ [w] :=
  ⟨rfl, rfl, rfl, rfl⟩

theorem Called.waitsOn (called : Called k context b recs syscallSemWait k' b' recs')
    (inv' : k'.Inv b' recs') (arg : k.context context regA1 = s)
    (fits : toI32 ((k.sem s).val - 1) = (k.sem s).val - 1) : k.WaitsOn s context b.queue k' := by
  have val : ((k.waited s).sem s).val = (k.sem s).val - 1 := (waited_val k s).trans fits
  cases called with
  | unknown none => exact absurd (by decide) none
  | @waited s₁ arg₁ passes =>
    obtain rfl : s = s₁ := arg.symm.trans arg₁
    refine ⟨val, fun below => ?_, fun _ => ⟨inv'.queues, rfl, setContext_self ..⟩⟩
    rw [fits, ← val] at passes
    exact absurd below passes
  | @blocked s₁ b' arg₁ blocks queue =>
    obtain rfl : s = s₁ := arg.symm.trans arg₁
    have val' : ((semPush (switch (k.waited s)) s k.scheduler.threadCurrent).sem s).val =
        (k.sem s).val - 1 := by
      simp [semPush, Kernel.modifySem, val]
    have mem : k.scheduler.threadCurrent ∈ b'.queue (.sem s) := by
      rw [queue, update_self]
      exact List.mem_append_right _ (List.mem_singleton_self k.scheduler.threadCurrent)
    refine ⟨val', fun _ => ⟨queue ▸ inv'.queues, (inv'.notRunning mem).symm⟩, fun above => ?_⟩
    rw [fits, ← val'] at blocks
    exact absurd blocks above

theorem Called.signalsOn (called : Called k context b recs syscallSemSignal k' b' recs')
    (inv : k.Inv b recs) (inv' : k'.Inv b' recs') (arg : k.context context regA1 = s)
    (fits : toI32 ((k.sem s).val + 1) = (k.sem s).val + 1)
    (balanced : (k.account b s).Balanced) : k.SignalsOn s context b.queue k' := by
  have val : ((k.signalled s).sem s).val = (k.sem s).val + 1 :=
    (congrArg Sem.val (signalled_sem k s)).trans fits
  have heard : (k.sem s).val + 1 ≤ 0 ↔ b.queue (.sem s) ≠ [] := balanced.heard
  cases called with
  | unknown none => exact absurd (by decide) none
  | @signalled s₁ arg₁ above =>
    obtain rfl : s = s₁ := arg.symm.trans arg₁
    rw [fits] at above
    have nobody : b.queue (.sem s) = [] := not_not.mp fun some => above (heard.mpr some)
    refine ⟨val, fun w ws first => ?_, fun _ => ⟨inv'.queues, rfl⟩, rfl, setContext_self ..,
      rfl, rfl, rfl⟩
    rw [nobody] at first
    cases first
  | @unheard s₁ arg₁ below nobody =>
    obtain rfl : s = s₁ := arg.symm.trans arg₁
    rw [fits] at below
    exact absurd nobody (heard.mp below)
  | @woke s₁ w ws b' arg₁ below first queue =>
    obtain rfl : s = s₁ := arg.symm.trans arg₁
    have val' : ((((k.signalled s).unblocked s w).setContext context regA0 0).sem s).val =
        (k.sem s).val + 1 := by
      refine Eq.trans ?_ val
      simp [Kernel.unblocked, schedulerPush, semNext, Kernel.modifySem, Kernel.modifyThread,
        Kernel.setContext, Kernel.poke]
    obtain ⟨links, sleeping, sleepers, pushed⟩ := unblocked_rest (k.signalled s) s w
    refine ⟨val', fun x xs first' => ?_, fun nobody => ?_, rfl, setContext_self .., links, sleeping,
      sleepers⟩
    · rw [first] at first'
      cases first'
      have notRunning : w ≠ k.scheduler.threadCurrent :=
        inv.notRunning (i := .sem s) (by rw [first]; exact List.mem_cons_self)
      refine ⟨queue ▸ inv'.queues, pushed, ?_⟩
      have sp : ((((k.signalled s).unblocked s w).setContext context regA0 0).saved w).sp =
          k.sp w := by
        rw [saved_other (by exact notRunning)]
        exact congrFun (schedulerPush_sp ((semNext (k.signalled s) s).2.setContext _ regA0 0) w) w
      rw [sp]
      show update (update k.mem (slot (k.sp w) regA0) 0) (slot context regA0) 0
        (slot (k.sp w) regA0) = 0
      rw [update_apply, update_self, ite_self]
    · rw [nobody] at first
      cases first

theorem Called.closesSem (called : Called k context b recs syscallSemClose k' b' recs')
    (inv : k.Inv b recs) (inv' : k'.Inv b' recs') (arg : k.context context regA1 = s) :
    k.ClosesSem s context b.queue k' := by
  cases called with
  | unknown none => exact absurd (by decide) none
  | @closed s₁ b' arg₁ heap queue =>
    obtain rfl : s = s₁ := arg.symm.trans arg₁
    let k₀ := k.note fun h => { h with opened := h.opened.erase s }
    let k₁ := (k.semClosed s (b.queue (.sem s)) heap).setContext context regA0 0
    have nodup : k.hist.opened.Nodup := (owned_nodup inv.owns).2.2
    have hist : k₁.hist = { k₀.hist with pushed := k.hist.pushed ++ b.queue (.sem s) } :=
      pushAll_hist k₀ _
    refine ⟨?_, queue ▸ inv'.queues, ?_, b.nodup _, fun w waits apart => ?_⟩
    · rw [hist]
      exact nodup.not_mem_erase
    · rw [hist]
    · have notRunning := inv.notRunning waits
      have current : k₁.scheduler.threadCurrent = k.scheduler.threadCurrent := pushAll_current k₀ _
      have sp : (k₁.saved w).sp = k.sp w := by
        rw [saved_other (current ▸ notRunning)]
        exact congrArg Saved.sp (pushAll_thread_saved k₀ _ w)
      rw [sp] at apart ⊢
      obtain ⟨front, back, split⟩ := List.append_of_mem waits
      have other : slot (k.sp w) regA0 ≠ slot context regA0 := by
        simp only [slot]
        omega
      show update (answers k.sp ((b.queue (.sem s)).map fun t => (t, u64 semClosedExternally))
        k.mem)
        (slot context regA0) 0 (slot (k.sp w) regA0) = _
      rw [update_of_ne other, split, List.map_append, List.map_cons]
      refine answers_last (fun y hy _ => ?_) k.mem
      obtain ⟨t, -, rfl⟩ := List.mem_map.mp hy
      rfl

end

/-! ## Runs -/

section
variable {k k₁ : Kernel} {b b' : Threads} {recs recs' : List Nat} {tr : Trap} {s : Nat}

/-- The initial count is the argument of `sem_open`, read as an `i32`. -/
theorem Handled.opens (handled : Handled (enter k tr) b recs k₁ b' recs') (inv : k.Inv b recs)
    (fresh : s ∉ k.hist.opened) (opened : s ∈ (leave k₁).hist.opened) :
    tr.Calls syscallSemOpen ∧
      ((leave k₁).sem s).init = toI32 (tr.regs regA2 % 2 ^ 32 : Nat) := by
  cases handled.sem inv s with
  | kept _ still => exact absurd (still.mp opened) fresh
  | opened call _ account =>
    generalize toI32 (tr.regs regA2 % 2 ^ 32 : Nat) = n at account
    exact ⟨call, congrArg Account.init account⟩
  | closed _ _ closed => exact absurd opened closed
  | waited _ _ still => exact absurd (still.mp opened) fresh
  | signalled _ _ still => exact absurd (still.mp opened) fresh

theorem Handled.semStep (handled : Handled (enter k tr) b recs k₁ b' recs') (rest : k.Rest b recs)
    (rest' : (leave k₁).Rest b' recs') (within : WithinI32 s k tr) (opened : s ∈ k.hist.opened)
    (accounted : k.Accounted b s) (nonneg : 0 ≤ (k.sem s).init) :
    k.SemStep s tr b.queue (leave k₁) := by
  have inv₁ : (bumpSepc (enter k tr) 4).Inv b recs := (enter_inv rest.inv tr).congr rfl rfl
  have inv' : k₁.Inv b' recs' := rest'.inv.congr rfl rfl
  have range := accounted.range
  refine ⟨fun still => ?_, fun call arg => ?_, fun call arg => ?_, fun call arg => ?_,
    fun other => ?_⟩
  · cases handled.sem rest.inv s with
    | kept same => exact congrArg Account.init same
    | opened _ fresh => exact absurd opened fresh
    | closed _ _ closed => exact absurd still closed
    | waited call arg _ account =>
      have := within.wait call arg
      exact congrArg Account.init (account (toI32_eq (by omega) (by omega)))
    | signalled call arg _ account =>
      have := within.signal call arg
      exact congrArg Account.init (account (toI32_eq (by omega) (by omega)))
  · have := within.wait call arg
    have step := (handled.call call).waitsOn inv' (called_arg.trans arg)
      (toI32_eq (x := (k.sem s).val - 1) (by omega) (by omega))
    exact ⟨step.val, fun below => (step.blocks below).imp_left (·.leave),
      fun above => (step.passes above).imp_left (·.leave)⟩
  · have := within.signal call arg
    have step := (handled.call call).signalsOn inv₁ inv' (called_arg.trans arg)
      (toI32_eq (x := (k.sem s).val + 1) (by omega) (by omega)) (accounted.sound nonneg).balanced
    exact ⟨step.val, fun w ws first => (step.heard w ws first).imp_left (·.leave),
      fun nobody => (step.unheard nobody).imp_left (·.leave), step.running, step.result,
      step.sleepers⟩
  · have step := (handled.call call).closesSem inv₁ inv' (called_arg.trans arg)
    exact ⟨step.closed, step.queues.leave, step.pushed, step.once, step.frames⟩
  · cases handled.sem rest.inv s with
    | kept same still =>
      have queue : b'.queue (.sem s) = b.queue (.sem s) :=
        congrArg (fun a : Account Nat => a.queue) same
      have ring := rest'.places.rings.ring (.sem s) (still.mpr opened)
      rw [queue] at ring
      exact ⟨still.mpr opened, congrArg (fun a : Account Nat => a.val) same, ring⟩
    | opened _ fresh => exact absurd opened fresh
    | closed call arg => exact absurd arg (other _ (by simp) call)
    | waited call arg => exact absurd arg (other _ (by simp) call)
    | signalled call arg => exact absurd arg (other _ (by simp) call)

end

/-- **Semaphores conserve their units** and hand them over in the order in which
threads blocked, in any run that keeps `val` within an `i32`. -/
theorem semaphore_conserved {k₀ k : Kernel} {s : Nat} (run : Run (WithinI32 s) k₀ k)
    (opened : s ∈ k.hist.opened) (nonneg : 0 ≤ (k.sem s).init) :
    k.Conserved s ∧ ∀ tr k' q, tr.Fits k → WithinI32 s k tr → trap k tr = .ok k' → k.Queues q →
      k.SemStep s tr q k' := by
  obtain ⟨b, recs, rest, accounted⟩ := run_accounted run
  have accounted := accounted opened
  refine ⟨accounted.conserved rest opened nonneg, fun tr k' q fits within taken queues => ?_⟩
  obtain rfl := rest.inv.queues_eq queues
  obtain ⟨k₁, b', recs', rfl, handled, rest'⟩ := trap_rest rest fits taken
  exact handled.semStep rest rest' within opened accounted nonneg

/-- The first user thread signals a semaphore and waits for it twice; the second wait blocks. -/
theorem semaphore_conserved_small : ∃ (k k₁ k₂ k₃ : Kernel) (s p : Nat) (q : QueueId → List Nat),
    trap k (userCall k syscallSemSignal s 0) = .ok k₁ ∧
    k.SemStep s (userCall k syscallSemSignal s 0) q k₁ ∧
    trap k₁ (userCall k₁ syscallSemWait s 0) = .ok k₂ ∧
    k₁.SemStep s (userCall k₁ syscallSemWait s 0) q k₂ ∧
    trap k₂ (userCall k₂ syscallSemWait s 0) = .ok k₃ ∧
    k₂.SemStep s (userCall k₂ syscallSemWait s 0) q k₃ ∧
    (k₃.sem s).val = -1 ∧ IsRing k₃.links (k₃.sem s).waitingThreads [p] ∧
    k₃.Conserved s := by
  obtain ⟨k, b, p, s, user, opened, val, -, init, -, -, run⟩ := small_opens setupTrap
    (fun _ user => absurd user (show irqEcallKernel ≠ irqEcallUser by decide)) 0 (by decide)
    fun _ _ _ _ => rfl
  have zero : toI32 (0 % 2 ^ 32 : Nat) = 0 := by decide
  rw [zero] at val init
  have mem : s ∈ k.hist.opened := by simp [opened]
  have setup : Run (WithinI32 s) smallKernel k := run.mono fun k tr setup =>
    ⟨fun call => absurd (setup call.1) (by rw [call.2]; decide),
      fun call => absurd (setup call.1) (by rw [call.2]; decide)⟩
  have within : ∀ {k code}, code = syscallSemWait ∨ code = syscallSemSignal →
      -2 ^ 31 < (k.sem s).val → (k.sem s).val < 2 ^ 31 - 1 →
      WithinI32 s k (userCall k code s 0) := fun _ low high => ⟨fun _ _ => low, fun _ _ => high⟩
  -- the signal
  obtain ⟨k₁, fits, taken, user₁, opened₁, sem₁⟩ := user.signals mem (by omega) (by omega)
  have within₀ := within (k := k) (Or.inr rfl) (by omega) (by omega)
  have run₁ := Run.trap setup fits within₀ taken
  have step := (semaphore_conserved setup mem (by omega)).2 _ k₁ b.queue fits within₀ taken
    user.rest.inv.queues
  have mem₁ : s ∈ k₁.hist.opened := opened₁.symm ▸ mem
  have val₁ : (k₁.sem s).val = 1 := by
    rw [sem₁, update_self, val]
    rfl
  have init₁ : (k₁.sem s).init = 0 := (step.init mem₁).trans init
  -- the wait that passes
  obtain ⟨k₂, fits₁, taken₁, user₂, opened₂, sem₂⟩ := user₁.waits mem₁ (by omega) (by omega)
  have within₁ := within (k := k₁) (Or.inl rfl) (by omega) (by omega)
  have run₂ := Run.trap run₁ fits₁ within₁ taken₁
  have step₁ := (semaphore_conserved run₁ mem₁ (by omega)).2 _ k₂ b.queue fits₁ within₁ taken₁
    user₁.rest.inv.queues
  have mem₂ : s ∈ k₂.hist.opened := opened₂.symm ▸ mem₁
  have val₂ : (k₂.sem s).val = 0 := by
    rw [sem₂, update_self, val₁]
    rfl
  have init₂ : (k₂.sem s).init = 0 := (step₁.init mem₂).trans init₁
  -- the wait that blocks
  obtain ⟨fits₂, k₃, taken₂⟩ := userCall_sem user₂.rest user₂.mode syscallSemWait s (by simp) mem₂
  have within₂ := within (k := k₂) (Or.inl rfl) (by omega) (by omega)
  have run₃ := Run.trap run₂ fits₂ within₂ taken₂
  have step₂ := (semaphore_conserved run₂ mem₂ (by omega)).2 _ k₃ b.queue fits₂ within₂ taken₂
    user₂.rest.inv.queues
  have waits := step₂.wait ⟨rfl, rfl⟩ rfl
  have val₃ : (k₃.sem s).val = -1 := by
    rw [waits.val, val₂]
    rfl
  have mem₃ : s ∈ k₃.hist.opened := by
    obtain ⟨k', b', recs', rfl, handled, -⟩ := trap_rest user₂.rest fits₂ taken₂
    refine handled.staysOpen user₂.rest.inv (fun close _ => absurd close.2 ?_) mem₂
    exact show syscallSemWait ≠ syscallSemClose by decide
  have ring := (waits.blocks (by omega)).1.ring (.sem s) mem₃
  rw [update_self, user.idle, List.nil_append, user₂.current] at ring
  have conserved := (semaphore_conserved run₃ mem₃ ((step₂.init mem₃).trans init₂).ge).1
  exact ⟨k, k₁, k₂, k₃, s, p, b.queue, taken, step, taken₁, step₁, taken₂, step₂, val₃, ring,
    conserved⟩

end RiscvKernel
