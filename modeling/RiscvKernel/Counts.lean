import RiscvKernel.Conservation

/-!
# The range of a count

`sem_open` takes an unsigned count and `val` is an `i32`.

* `Kernel.count`: the count with its signals and waits, as a mathematical number;
* `Kernel.Counts`: the calls on a semaphore act on that number;
* `counts_exact`: `val` is that number, and the calls act on it, as long as it stays
  below 2³¹.
-/

namespace RiscvKernel
open Function Intrusive Placement Counting

/-- `c + signals - waits`, where `c` is the unsigned count of `sem_open`. -/
def Kernel.count (k : Kernel) (s : Nat) : Int :=
  (k.sem s).init % 2 ^ 32 + k.hist.signals s - k.hist.waits s

/-- A `sem_open` that gets a block has a count below 2³¹, and no signal brings a count
to 2³¹. -/
structure CountSafe (k : Kernel) (tr : Trap) : Prop where
  opens : tr.Calls syscallSemOpen → k.heap.HasRoom (sizeInBlocks 16) →
    tr.regs regA2 % 2 ^ 32 < 2 ^ 31
  signal : tr.Calls syscallSemSignal → k.count (tr.regs regA1) < 2 ^ 31 - 1

/-- What a trap does to the count of the semaphore `s`; `q` are the queues before it. -/
structure Kernel.Counts (k : Kernel) (s : Nat) (tr : Trap) (q : QueueId → List Nat)
    (k' : Kernel) : Prop where
  opens : s ∉ k.hist.opened → s ∈ k'.hist.opened →
    tr.Calls syscallSemOpen ∧ k'.count s = (tr.regs regA2 % 2 ^ 32 : Nat)
  wait : tr.Calls syscallSemWait → tr.regs regA1 = s → k'.count s = k.count s - 1 ∧
    if k.count s - 1 < 0 then
      k'.Queues (update (update q .ready (q .ready).tail) (.sem s)
        (q (.sem s) ++ [k.scheduler.threadCurrent])) ∧
      k'.scheduler.threadCurrent ≠ k.scheduler.threadCurrent
    else
      k'.Queues q ∧ k'.scheduler.threadCurrent = k.scheduler.threadCurrent ∧
      k'.context tr.frame regA0 = 0
  signal : tr.Calls syscallSemSignal → tr.regs regA1 = s → k'.count s = k.count s + 1 ∧
    (q (.sem s) = [] → 0 < k'.count s ∧ k'.context tr.frame regA0 = 0)
  others : s ∈ k.hist.opened → s ∈ k'.hist.opened →
    (∀ code ∈ [syscallSemWait, syscallSemSignal], tr.Calls code → tr.regs regA1 ≠ s) →
    k'.count s = k.count s

/-- No `val` has wrapped, and the trap did what it does to the counts. -/
structure Kernel.CountsRight (k : Kernel) (tr : Trap) (q : QueueId → List Nat) (k' : Kernel) :
    Prop where
  val : ∀ s ∈ k'.hist.opened, (k'.sem s).val = k'.count s
  step : ∀ s, k.Counts s tr q k'

/-! ## The account between two traps -/

/-- The account of `s`, which was opened with a count below 2³¹. -/
structure Kernel.Counted (k : Kernel) (b : Threads) (s : Nat) : Prop
    extends k.Accounted b s where
  init : 0 ≤ (k.sem s).init ∧ (k.sem s).init < 2 ^ 31

section
variable {k k' k₁ : Kernel} {b b' : Threads} {recs recs' : List Nat} {tr : Trap} {s : Nat}

theorem Kernel.Counted.count (counted : k.Counted b s) : k.count s = (k.sem s).val := by
  have val : (k.sem s).val = (k.sem s).init + k.hist.signals s - k.hist.waits s :=
    (counted.sound counted.init.1).val
  have init := counted.init
  unfold Kernel.count
  omega

/-- No more threads can wait than there are blocks. -/
theorem Kernel.Counted.low (counted : k.Counted b s) (inv : k.Inv b recs) :
    -2 ^ 31 < (k.sem s).val := by
  have balanced : (b.queue (.sem s)).length = (-(k.sem s).val).toNat :=
    (counted.sound counted.init.1).balanced
  have le := inv.queue_length_le (s := s)
  have bound := inv.owns.ok.bound
  omega

theorem Kernel.Counted.within (counted : s ∈ k.hist.opened → k.Counted b s)
    (rest : k.Rest b recs) (fits : tr.Fits k) (safe : CountSafe k tr) : WithinI32 s k tr := by
  refine ⟨fun call arg => ?_, fun call arg => ?_⟩
  · have opened := (fits.request call.1).sem (by simp [call.2])
    exact (counted (arg ▸ opened)).low rest.inv
  · have opened := (fits.request call.1).sem (by simp [call.2])
    have high := safe.signal call
    rw [arg] at high
    rw [← (counted (arg ▸ opened)).count]
    exact high

/-- A `sem_open` that opens a semaphore has found a block. -/
theorem opened_room (rest : k.Rest b recs) (fits : tr.Fits k) (call : tr.Calls syscallSemOpen)
    (taken : trap k tr = .ok k') (fresh : s ∉ k.hist.opened) (opened : s ∈ k'.hist.opened) :
    k.heap.HasRoom (sizeInBlocks 16) := by
  rcases semOpen_trap rest fits call taken with ⟨room, -⟩ | ⟨-, h', done⟩
  · exact room
  · rw [done] at opened
    exact absurd opened fresh

/-- **One trap.** -/
theorem trap_counted (rest : k.Rest b recs) (fits : tr.Fits k) (safe : CountSafe k tr)
    (taken : trap k tr = .ok (leave k₁)) (handled : Handled (enter k tr) b recs k₁ b' recs')
    (counted : s ∈ k.hist.opened → k.Counted b s) (opened : s ∈ (leave k₁).hist.opened) :
    (leave k₁).Counted b' s := by
  have within := Kernel.Counted.within counted rest fits safe
  have effect := handled.sem rest.inv s
  refine ⟨effect.accounted within (fun old => (counted old).toAccounted) opened, ?_⟩
  cases effect with
  | kept same still =>
    have init : ((leave k₁).sem s).init = (k.sem s).init := congrArg Account.init same
    exact init ▸ (counted (still.mp opened)).init
  | opened call fresh account =>
    have small := safe.opens call (opened_room rest fits call taken fresh opened)
    have eq : toI32 (tr.regs regA2 % 2 ^ 32 : Nat) = (tr.regs regA2 % 2 ^ 32 : Nat) :=
      toI32_eq (by omega) (by omega)
    rw [eq] at account
    have init : ((leave k₁).sem s).init = (tr.regs regA2 % 2 ^ 32 : Nat) :=
      congrArg Account.init account
    omega
  | closed _ _ closed => exact absurd opened closed
  | waited call arg still account =>
    have before := counted (still.mp opened)
    have low := within.wait call arg
    have range := before.range
    have init : ((leave k₁).sem s).init = (k.sem s).init :=
      congrArg Account.init (account (toI32_eq (by omega) (by omega)))
    exact init ▸ before.init
  | signalled call arg still account =>
    have before := counted (still.mp opened)
    have high := within.signal call arg
    have range := before.range
    have init : ((leave k₁).sem s).init = (k.sem s).init :=
      congrArg Account.init (account (toI32_eq (by omega) (by omega)))
    exact init ▸ before.init

theorem run_counted {k₀ : Kernel} (run : Run CountSafe k₀ k) :
    ∃ b recs, k.Rest b recs ∧ ∀ s ∈ k.hist.opened, k.Counted b s := by
  induction run with
  | boot platform booted =>
    obtain ⟨b, p, stackSpace, first⟩ := boot_booted platform booted
    refine ⟨b, [], first.rest, fun s opened => ?_⟩
    rw [first.hist] at opened
    exact absurd opened (by simp [platform.noSems])
  | trap run fits safe taken ih =>
    obtain ⟨b, recs, rest, counted⟩ := ih
    obtain ⟨k₁, b', recs', rfl, handled, rest'⟩ := trap_rest rest fits taken
    exact ⟨b', recs', rest', fun s opened => trap_counted rest fits safe taken handled (counted s)
      opened⟩

/-! ## The calls on a semaphore -/

theorem count_opened {n : Int} (account : k.account b s = .opened n) : k.count s = n % 2 ^ 32 := by
  have init : (k.sem s).init = n := congrArg Account.init account
  have waits : k.hist.waits s = 0 := congrArg Account.waits account
  have signals : k.hist.signals s = 0 := congrArg Account.signals account
  unfold Kernel.count
  omega

theorem toI32_emod (n : Nat) : toI32 n % 2 ^ 32 = (n % 2 ^ 32 : Nat) := by
  unfold toI32
  rw [show (2 ^ 32 : Int) = ((2 ^ 32 : Nat) : Int) by rfl, Int.bmod_emod]
  rfl

/-- A safe trap does what it does to the counts. -/
theorem Handled.counts (handled : Handled (enter k tr) b recs k₁ b' recs') (rest : k.Rest b recs)
    (rest' : (leave k₁).Rest b' recs') (fits : tr.Fits k) (safe : CountSafe k tr)
    (taken : trap k tr = .ok (leave k₁)) (counted : ∀ s ∈ k.hist.opened, k.Counted b s) (s : Nat) :
    k.Counts s tr b.queue (leave k₁) := by
  have other : ∀ {code}, tr.Calls code → code ≠ syscallSemClose → ¬ tr.Calls syscallSemClose :=
    fun call ne close => ne (call.2.symm.trans close.2)
  have within := Kernel.Counted.within (counted s) rest fits safe
  refine ⟨fun fresh opened => ?_, fun call arg => ?_, fun call arg => ?_,
    fun opened still other => ?_⟩
  · cases handled.sem rest.inv s with
    | kept _ still => exact absurd (still.mp opened) fresh
    | opened call _ account =>
      refine ⟨call, ?_⟩
      rw [count_opened account, toI32_emod, Nat.mod_mod]
    | closed _ _ closed => exact absurd opened closed
    | waited _ _ still => exact absurd (still.mp opened) fresh
    | signalled _ _ still => exact absurd (still.mp opened) fresh
  · have opened : s ∈ k.hist.opened := arg ▸ (fits.request call.1).sem (by simp [call.2])
    have before := counted s opened
    have after := trap_counted rest fits safe taken handled (counted s)
      (handled.staysOpen rest.inv (absurd · (other call (by decide))) opened)
    have step := (handled.semStep rest rest' within opened before.toAccounted before.init.1).wait
      call arg
    have val := step.val
    rw [← after.count, ← before.count] at val
    refine ⟨val, ?_⟩
    rw [← val, after.count]
    split
    · next below => exact step.blocks below
    · next above => exact step.passes above
  · have opened : s ∈ k.hist.opened := arg ▸ (fits.request call.1).sem (by simp [call.2])
    have before := counted s opened
    have after := trap_counted rest fits safe taken handled (counted s)
      (handled.staysOpen rest.inv (absurd · (other call (by decide))) opened)
    have step := (handled.semStep rest rest' within opened before.toAccounted before.init.1).signal
      call arg
    have val := step.val
    have balanced : (b.queue (.sem s)).length = (-(k.sem s).val).toNat :=
      (before.sound before.init.1).balanced
    rw [← after.count, ← before.count] at val
    rw [← before.count] at balanced
    refine ⟨val, fun nobody => ⟨?_, step.result⟩⟩
    rw [nobody, List.length_nil] at balanced
    omega
  · cases handled.sem rest.inv s with
    | kept same =>
      exact congrArg (fun a : Account Nat => a.init % 2 ^ 32 + a.signals - a.waits) same
    | opened _ fresh => exact absurd opened fresh
    | closed _ _ closed => exact absurd still closed
    | waited call arg => exact absurd arg (other _ (by simp) call)
    | signalled call arg => exact absurd arg (other _ (by simp) call)

end

/-! ## Counts that wrap -/

theorem semOpened_count (k : Kernel) (handle init s : Nat) (heap : Heap) :
    s ∈ (k.semOpened handle init s heap).hist.opened ∧
      ((k.semOpened handle init s heap).sem s).val = toI32 init ∧
      (k.semOpened handle init s heap).count s = (init % 2 ^ 32 : Nat) := by
  refine ⟨List.mem_cons_self, ?_, ?_⟩
  · simp [Kernel.semOpened, Kernel.note, Kernel.poke, Kernel.modifySem]
  · rw [← toI32_emod]
    simp [Kernel.count, Kernel.semOpened, Kernel.note, Kernel.poke, Kernel.modifySem]

theorem signalled_count (k : Kernel) (s : Nat) :
    ((k.signalled s).sem s).val = toI32 ((k.sem s).val + 1) ∧
      (k.signalled s).count s = k.count s + 1 := by
  have signals : (k.signalled s).hist.signals s = k.hist.signals s + 1 := update_self ..
  have waits : (k.signalled s).hist.waits s = k.hist.waits s := rfl
  refine ⟨congrArg Sem.val (signalled_sem k s), ?_⟩
  unfold Kernel.count
  rw [signalled_sem, signals, waits]
  dsimp only
  omega

theorem unblocked_count (k : Kernel) (s w : Nat) :
    ((k.unblocked s w).sem s).val = (k.sem s).val ∧ (k.unblocked s w).count s = k.count s := by
  constructor
  · simp [Kernel.unblocked, schedulerPush, semNext, Kernel.modifySem, Kernel.modifyThread,
      Kernel.setContext, Kernel.poke]
  · simp [Kernel.count, Kernel.unblocked, schedulerPush, semNext, Kernel.modifySem,
      Kernel.modifyThread, Kernel.setContext, Kernel.poke]

section
variable {k k' k₁ : Kernel} {b b' : Threads} {recs recs' : List Nat} {context : Nat} {tr : Trap}
  {s : Nat}

theorem Called.signal_count (called : Called k context b recs syscallSemSignal k' b' recs')
    (arg : k.context context regA1 = s) : (k'.sem s).val = toI32 ((k.sem s).val + 1) ∧
      k'.count s = k.count s + 1 := by
  have counts := signalled_count k s
  cases called with
  | unknown none => exact absurd (by decide) none
  | @signalled s₁ arg₁ =>
    obtain rfl : s = s₁ := arg.symm.trans arg₁
    exact counts
  | @unheard s₁ arg₁ =>
    obtain rfl : s = s₁ := arg.symm.trans arg₁
    exact counts
  | @woke s₁ w ws b' arg₁ =>
    obtain rfl : s = s₁ := arg.symm.trans arg₁
    obtain ⟨val, count⟩ := unblocked_count (k.signalled s) s w
    exact ⟨val.trans counts.1, count.trans counts.2⟩

/-- When no `val` wraps, the trap was safe. -/
theorem Handled.safe (handled : Handled (enter k tr) b recs k₁ b' recs') (rest : k.Rest b recs)
    (fits : tr.Fits k) (taken : trap k tr = .ok (leave k₁))
    (counted : ∀ s ∈ k.hist.opened, k.Counted b s)
    (val : ∀ s ∈ (leave k₁).hist.opened, ((leave k₁).sem s).val = (leave k₁).count s) :
    CountSafe k tr := by
  refine ⟨fun call room => ?_, fun call => ?_⟩
  · rcases semOpen_trap rest fits call taken with ⟨-, s, h', -, done⟩ | ⟨full, -⟩
    · obtain ⟨mem, units, count⟩ := semOpened_count (bumpSepc (enter k tr) 4) (tr.regs regA1)
        (tr.regs regA2 % 2 ^ 32) s h'
      rw [done] at val
      have eq := (units.symm.trans (val s mem)).trans count
      have range := toI32_range (tr.regs regA2 % 2 ^ 32 : Nat)
      omega
    · exact absurd room full
  · have opened := (fits.request call.1).sem (by simp [call.2])
    have before := counted _ opened
    have noClose : ¬ tr.Calls syscallSemClose := fun close =>
      absurd (call.2.symm.trans close.2) (by decide)
    have eq := val _ (handled.staysOpen rest.inv (absurd · noClose) opened)
    obtain ⟨units, count⟩ := (handled.call call).signal_count called_arg
    have same : (bumpSepc (enter k tr) 4).count (tr.regs regA1) = k.count (tr.regs regA1) := rfl
    have eq := (units.symm.trans eq).trans count
    have range := toI32_range (((bumpSepc (enter k tr) 4).sem (tr.regs regA1)).val + 1)
    omega

end

/-- **The range of a count.** In any run of safe traps every `val` is its count, and a trap is safe
exactly when no `val` wraps and the calls act on the counts. -/
theorem counts_exact {k₀ k : Kernel} (run : Run CountSafe k₀ k) :
    (∀ s ∈ k.hist.opened, (k.sem s).val = k.count s) ∧ ∀ tr k' q, tr.Fits k →
      trap k tr = .ok k' → k.Queues q → (k.CountsRight tr q k' ↔ CountSafe k tr) := by
  obtain ⟨b, recs, rest, counted⟩ := run_counted run
  refine ⟨fun s opened => (counted s opened).count.symm, fun tr k' q fits taken queues => ?_⟩
  obtain rfl := rest.inv.queues_eq queues
  obtain ⟨k₁, b', recs', rfl, handled, rest'⟩ := trap_rest rest fits taken
  refine ⟨fun right => handled.safe rest fits taken counted right.val, fun safe =>
    ⟨fun s opened => ?_,
    handled.counts rest rest' fits safe taken counted⟩⟩
  exact (trap_counted rest fits safe taken handled (counted s) opened).count.symm

/-- The first user thread of the small machine has opened a semaphore. -/
theorem small_counts (init : Nat) (small : init < 2 ^ 31) : ∃ k b p s,
    FirstUser smallKernel k b p ∧ k.hist.opened = [s] ∧ k.count s = init ∧
      Run CountSafe smallKernel k := by
  obtain ⟨k, b, p, s, user, opened, val, -, -, -, -, run⟩ := small_opens CountSafe
    (fun k => ⟨fun call => absurd call.1 (show irqEcallKernel ≠ irqEcallUser by decide),
      fun call => absurd call.1 (show irqEcallKernel ≠ irqEcallUser by decide)⟩)
    init (by omega) fun k _ _ => by
      refine ⟨fun _ _ => ?_, fun call =>
        absurd call.2 (show syscallSemOpen ≠ syscallSemSignal by decide)⟩
      show init % 2 ^ 32 < 2 ^ 31
      omega
  obtain ⟨b₁, recs₁, rest, counted⟩ := run_counted run
  have count := (counted s (by simp [opened])).count
  rw [val, toI32_eq (by omega) (by omega)] at count
  exact ⟨k, b, p, s, user, opened, by omega, run⟩

/-- The first user thread waits for a semaphore with 5 units and signals it; on one with 2³¹ - 1
units a signal goes wrong. -/
theorem counts_exact_small : (∃ (k k₁ k₂ : Kernel) (s : Nat) (q : QueueId → List Nat),
    k.hist.opened = [s] ∧ k.count s = 5 ∧
    trap k (userCall k syscallSemWait s 0) = .ok k₁ ∧
    k.CountsRight (userCall k syscallSemWait s 0) q k₁ ∧ (k₁.sem s).val = 4 ∧ k₁.count s = 4 ∧
    trap k₁ (userCall k₁ syscallSemSignal s 0) = .ok k₂ ∧
    k₁.CountsRight (userCall k₁ syscallSemSignal s 0) q k₂ ∧ (k₂.sem s).val = 5 ∧
    k₂.count s = 5) ∧
    ∃ (k k' : Kernel) (s : Nat) (q : QueueId → List Nat), k.count s = 2 ^ 31 - 1 ∧
      trap k (userCall k syscallSemSignal s 0) = .ok k' ∧
      ¬ k.CountsRight (userCall k syscallSemSignal s 0) q k' := by
  constructor
  · obtain ⟨k, b, p, s, user, opened, count, run⟩ := small_counts 5 (by decide)
    have mem : s ∈ k.hist.opened := by simp [opened]
    have val : (k.sem s).val = 5 := ((counts_exact run).1 s mem).trans count
    -- the wait
    obtain ⟨k₁, fits, taken, user₁, opened₁, sem₁⟩ := user.waits mem (by omega) (by omega)
    have safe : CountSafe k (userCall k syscallSemWait s 0) :=
      ⟨fun call => absurd call.2 (show syscallSemWait ≠ syscallSemOpen by decide),
        fun call => absurd call.2 (show syscallSemWait ≠ syscallSemSignal by decide)⟩
    have right := ((counts_exact run).2 _ k₁ b.queue fits taken user.rest.inv.queues).mpr safe
    have run₁ := Run.trap run fits safe taken
    have mem₁ : s ∈ k₁.hist.opened := opened₁.symm ▸ mem
    have val₁ : (k₁.sem s).val = 4 := by
      rw [sem₁, update_self, val]
      rfl
    have count₁ : k₁.count s = 4 := ((counts_exact run₁).1 s mem₁).symm.trans val₁
    -- the signal
    obtain ⟨k₂, fits₁, taken₁, user₂, opened₂, sem₂⟩ := user₁.signals mem₁ (by omega) (by omega)
    have safe₁ : CountSafe k₁ (userCall k₁ syscallSemSignal s 0) := by
      refine ⟨fun call => absurd call.2 (show syscallSemSignal ≠ syscallSemOpen by decide),
        fun _ => ?_⟩
      show k₁.count s < _
      omega
    have right₁ := ((counts_exact run₁).2 _ k₂ b.queue fits₁ taken₁
      user₁.rest.inv.queues).mpr safe₁
    have run₂ := Run.trap run₁ fits₁ safe₁ taken₁
    have val₂ : (k₂.sem s).val = 5 := by
      rw [sem₂, update_self, val₁]
      rfl
    have count₂ : k₂.count s = 5 :=
      ((counts_exact run₂).1 s (opened₂.symm ▸ mem₁)).symm.trans val₂
    exact ⟨k, k₁, k₂, s, b.queue, opened, count, taken, right, val₁, count₁, taken₁, right₁, val₂,
      count₂⟩
  · obtain ⟨k, b, p, s, user, opened, count, run⟩ := small_counts (2 ^ 31 - 1) (by decide)
    obtain ⟨fits, k', taken⟩ := userCall_sem user.rest user.mode syscallSemSignal s (by simp)
      (by simp [opened])
    refine ⟨k, k', s, b.queue, count, taken, fun right => ?_⟩
    have safe := ((counts_exact run).2 _ k' b.queue fits taken user.rest.inv.queues).mp right
    have below : k.count s < 2 ^ 31 - 1 := safe.signal ⟨rfl, rfl⟩
    omega

/-- A semaphore opened with 2³² - 1 units blocks its first wait. -/
theorem count_blocks_early : ∃ k k' s, Run anyTrap smallKernel k ∧ k.hist.opened = [s] ∧
    k.count s = 2 ^ 32 - 1 ∧ (userCall k syscallSemWait s 0).Fits k ∧
    trap k (userCall k syscallSemWait s 0) = .ok k' ∧
    k'.scheduler.threadCurrent ≠ k.scheduler.threadCurrent := by
  obtain ⟨k, b, p, s, user, opened, val, -, init, waits, signals, -⟩ := small_opens anyTrap
    (fun _ => trivial) (2 ^ 32 - 1) (by decide) fun _ _ _ => trivial
  have minusOne : toI32 ((2 ^ 32 - 1) % 2 ^ 32 : Nat) = -1 := by decide
  rw [minusOne] at val init
  obtain ⟨fits, k', taken⟩ := userCall_sem user.rest user.mode syscallSemWait s (by simp)
    (by simp [opened])
  refine ⟨k, k', s, user.run, opened, ?_, fits, taken, ?_⟩
  · unfold Kernel.count
    rw [init, waits, signals]
    decide
  · obtain ⟨k₁, b', recs', rfl, handled, rest'⟩ := trap_rest user.rest fits taken
    have same : ((bumpSepc (enter k (userCall k syscallSemWait s 0)) 4).sem s).val = -1 := val
    have arg : (bumpSepc (enter k (userCall k syscallSemWait s 0)) 4).context
        (userCall k syscallSemWait s 0).frame regA1 = s := called_arg
    have waits := (handled.call ⟨rfl, rfl⟩).waitsOn (rest'.inv.congr rfl rfl) arg
      (by rw [same]; decide)
    have below : (k₁.sem s).val < 0 := by
      rw [waits.val, same]
      decide
    exact (waits.blocks below).2

end RiscvKernel
