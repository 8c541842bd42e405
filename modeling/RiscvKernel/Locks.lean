import RiscvKernel.Conservation
import RiscvKernel.Custody

/-!
# Semaphores as locks

* `Trap.Lends`: what a trap does to the threads that hold units of a semaphore;
* `Kernel.Lent`: the runs in which only holders signal it;
* `semaphore_excludes`: no more units are held than it was opened with, so that a semaphore
  opened with 1 is a lock.
-/

namespace RiscvKernel
open Function Intrusive Placement Counting

/-- A `sem_wait` that returns gives the caller a unit of the semaphore `s`. A `sem_signal`
takes back one that the caller holds, and the thread that it wakes holds one then. -/
inductive Trap.Lends (tr : Trap) (s : Nat) (k k' : Kernel) (holders : List Nat) :
    List Nat → Prop where
  | other (notWait : ¬ (tr.Calls syscallSemWait ∧ tr.regs regA1 = s))
      (notSignal : ¬ (tr.Calls syscallSemSignal ∧ tr.regs regA1 = s)) :
      tr.Lends s k k' holders holders
  | took (call : tr.Calls syscallSemWait) (arg : tr.regs regA1 = s)
      (goesOn : k'.scheduler.threadCurrent = k.scheduler.threadCurrent) :
      tr.Lends s k k' holders (k.scheduler.threadCurrent :: holders)
  | blocked (call : tr.Calls syscallSemWait) (arg : tr.regs regA1 = s)
      (gone : k'.scheduler.threadCurrent ≠ k.scheduler.threadCurrent) :
      tr.Lends s k k' holders holders
  | gave (call : tr.Calls syscallSemSignal) (arg : tr.regs regA1 = s)
      (holds : k.scheduler.threadCurrent ∈ holders) (nobody : k'.hist.pushed = k.hist.pushed) :
      tr.Lends s k k' holders (holders.erase k.scheduler.threadCurrent)
  | handed {w : Nat} (call : tr.Calls syscallSemSignal) (arg : tr.regs regA1 = s)
      (holds : k.scheduler.threadCurrent ∈ holders)
      (woken : k'.hist.pushed = k.hist.pushed ++ [w]) :
      tr.Lends s k k' holders (w :: holders.erase k.scheduler.threadCurrent)

/-- The runs that open the semaphore `s` with at most 2³¹ - 1 units, do not close it, and in
which only threads that hold a unit of it signal; `holders` hold the units. -/
inductive Kernel.Lent (k₀ : Kernel) (s : Nat) : Kernel → List Nat → Prop where
  | opened {k tr k'} (run : Run anyTrap k₀ k) (fits : tr.Fits k) (taken : trap k tr = .ok k')
      (fresh : s ∉ k.hist.opened) (opened : s ∈ k'.hist.opened) (count : 0 ≤ (k'.sem s).init) :
      k₀.Lent s k' []
  | trap {k tr k' holders holders'} (lent : k₀.Lent s k holders) (fits : tr.Fits k)
      (taken : trap k tr = .ok k') (opened : s ∈ k'.hist.opened)
      (lends : tr.Lends s k k' holders holders') : k₀.Lent s k' holders'

/-- The semaphore `s` and the threads that hold its units. -/
def Kernel.custody (k : Kernel) (b : Threads) (s : Nat) (holders : List Nat) : Custody Nat where
  val := (k.sem s).val
  queue := b.queue (.sem s)
  init := (k.sem s).init
  holders := holders

section
variable {k k' : Kernel} {b b' : Threads} {recs recs' : List Nat} {tr : Trap} {s : Nat}
  {holders holders' : List Nat}

/-- Only holders signal. -/
theorem Trap.Lends.holds (lends : tr.Lends s k k' holders holders')
    (call : tr.Calls syscallSemSignal) (arg : tr.regs regA1 = s) :
    k.scheduler.threadCurrent ∈ holders := by
  cases lends with
  | gave _ _ holds => exact holds
  | handed _ _ holds => exact holds
  | other _ notSignal => exact absurd ⟨call, arg⟩ notSignal
  | took call' => exact absurd (call'.2.symm.trans call.2) (by decide)
  | blocked call' => exact absurd (call'.2.symm.trans call.2) (by decide)

/-- Threads are too few to bring `val` out of range by waiting. -/
theorem Kernel.Inv.within (inv : k.Inv b recs) (range : (k.sem s).init < 2 ^ 31)
    (sound : (k.custody b s holders).Sound)
    (holds : tr.Calls syscallSemSignal → tr.regs regA1 = s → k.scheduler.threadCurrent ∈ holders) :
    WithinI32 s k tr := by
  constructor
  · intro call arg
    have few := @Kernel.Inv.queue_length_le _ _ _ inv s
    have bound := inv.owns.ok.bound
    have balanced : (b.queue (.sem s)).length = (-(k.sem s).val).toNat := sound.balanced
    omega
  · intro call arg
    have room : (k.sem s).val < (k.sem s).init := sound.room (holds call arg)
    omega

theorem custody_wait {t : Nat} (val : (k'.sem s).val = (k.sem s).val - 1)
    (init : (k'.sem s).init = (k.sem s).init)
    (queue : b'.queue (.sem s) = if (k'.sem s).val < 0 then b.queue (.sem s) ++ [t]
      else b.queue (.sem s))
    (held : holders' = if (k'.sem s).val < 0 then holders else t :: holders) :
    k'.custody b' s holders' = (k.custody b s holders).wait t := by
  unfold Kernel.custody
  rw [queue, held, val, init]
  rfl

theorem custody_signal {t : Nat} (val : (k'.sem s).val = (k.sem s).val + 1)
    (init : (k'.sem s).init = (k.sem s).init)
    (queue : b'.queue (.sem s) = (b.queue (.sem s)).tail)
    (held : holders' = (b.queue (.sem s)).head?.toList ++ holders.erase t)
    (balanced : (k.custody b s holders).Balanced) :
    k'.custody b' s holders' = (k.custody b s holders).signal t := by
  have tail : (k.custody b s holders).toSemaphore.signal.queue = (b.queue (.sem s)).tail :=
    balanced.signal_queue
  unfold Custody.signal Kernel.custody
  rw [queue, held, val, init, ← tail]
  rfl

theorem Kernel.SemStep.lends (step : k.SemStep s tr b.queue k') (inv' : k'.Inv b' recs')
    (opened : s ∈ k'.hist.opened) (lends : tr.Lends s k k' holders holders')
    (sound : (k.custody b s holders).Sound) : (k'.custody b' s holders').Sound := by
  have init := step.init opened
  cases lends with
  | other notWait notSignal =>
    have notClose : ¬ (tr.Calls syscallSemClose ∧ tr.regs regA1 = s) := fun close =>
      (step.close close.1 close.2).closed opened
    obtain ⟨-, val, ring⟩ := step.others fun code known call arg => by
      simp only [List.mem_cons, List.not_mem_nil, or_false] at known
      rcases known with rfl | rfl | rfl
      · exact notWait ⟨call, arg⟩
      · exact notSignal ⟨call, arg⟩
      · exact notClose ⟨call, arg⟩
    have queue : b'.queue (.sem s) = b.queue (.sem s) :=
      (inv'.places.rings.ring (.sem s) opened).unique ring
    have same : k'.custody b' s holders = k.custody b s holders := by
      unfold Kernel.custody
      rw [val, init, queue]
    exact same ▸ sound
  | took call arg goesOn =>
    have waits := step.wait call arg
    have above : ¬ (k'.sem s).val < 0 := fun below => (waits.blocks below).2 goesOn
    have queue : b.queue = b'.queue := inv'.queues_eq (waits.passes above).1
    rw [custody_wait (t := k.scheduler.threadCurrent) waits.val init
      (by rw [if_neg above, queue]) (if_neg above).symm]
    exact sound.wait _
  | blocked call arg gone =>
    have waits := step.wait call arg
    have below : (k'.sem s).val < 0 := not_not.mp fun above => gone (waits.passes above).2.1
    have queue := congrFun (inv'.queues_eq (waits.blocks below).1) (.sem s)
    rw [update_self] at queue
    rw [custody_wait (t := k.scheduler.threadCurrent) waits.val init
      (by rw [if_pos below, queue]) (if_pos below).symm]
    exact sound.wait _
  | gave call arg holds nobody =>
    have signals := step.signal call arg
    have empty : b.queue (.sem s) = [] := by
      cases first : b.queue (.sem s) with
      | nil => rfl
      | cons w ws =>
        have woken := (signals.heard w ws first).2.1
        rw [nobody] at woken
        exact absurd (List.self_eq_append_right.mp woken) (List.cons_ne_nil w [])
    have queue : b.queue = b'.queue := inv'.queues_eq (signals.unheard empty).1
    rw [custody_signal (t := k.scheduler.threadCurrent) signals.val init
      (by rw [← queue, empty]; rfl) (by rw [empty]; rfl) sound.balanced]
    exact sound.signal holds
  | @handed w call arg holds woken =>
    have signals := step.signal call arg
    cases first : b.queue (.sem s) with
    | nil =>
      have same := (signals.unheard first).2
      rw [woken] at same
      exact absurd (List.self_eq_append_right.mp same.symm) (List.cons_ne_nil w [])
    | cons w' ws =>
      obtain ⟨queues, woken', -⟩ := signals.heard w' ws first
      obtain rfl : w = w' := by
        rw [woken'] at woken
        exact (List.singleton_inj.mp (List.append_cancel_left woken)).symm
      have queue := congrFun (inv'.queues_eq queues) (.sem s)
      rw [update_of_ne (by simp), update_self] at queue
      rw [custody_signal (t := k.scheduler.threadCurrent) signals.val init
        (by rw [← queue, first]; rfl) (by rw [first]; rfl) sound.balanced]
      exact sound.signal holds

/-- A trap in which only holders signal lends the semaphore. -/
theorem Kernel.SemStep.lends_some {q : QueueId → List Nat} (step : k.SemStep s tr q k')
    (holds : tr.Calls syscallSemSignal → tr.regs regA1 = s → k.scheduler.threadCurrent ∈ holders) :
    ∃ holders', tr.Lends s k k' holders holders' := by
  by_cases wait : tr.Calls syscallSemWait ∧ tr.regs regA1 = s
  · by_cases goesOn : k'.scheduler.threadCurrent = k.scheduler.threadCurrent
    · exact ⟨_, .took wait.1 wait.2 goesOn⟩
    · exact ⟨_, .blocked wait.1 wait.2 goesOn⟩
  by_cases signal : tr.Calls syscallSemSignal ∧ tr.regs regA1 = s
  · obtain ⟨call, arg⟩ := signal
    have signals := step.signal call arg
    cases first : q (.sem s) with
    | nil => exact ⟨_, .gave call arg (holds call arg) (signals.unheard first).2⟩
    | cons w ws => exact ⟨_, .handed call arg (holds call arg) (signals.heard w ws first).2.1⟩
  · exact ⟨holders, .other wait signal⟩

/-- Only `sem_close` closes a semaphore. -/
theorem Handled.stays_open {k₁ : Kernel} (handled : Handled (enter k tr) b recs k₁ b' recs')
    (rest : k.Rest b recs) (opened : s ∈ k.hist.opened)
    (notClose : ¬ (tr.Calls syscallSemClose ∧ tr.regs regA1 = s)) : s ∈ (leave k₁).hist.opened := by
  cases handled.sem rest.inv s with
  | kept _ still => exact still.mpr opened
  | opened _ fresh => exact absurd opened fresh
  | closed call arg => exact absurd ⟨call, arg⟩ notClose
  | waited _ _ still => exact still.mpr opened
  | signalled _ _ still => exact still.mpr opened

theorem Handled.opens_custody {k₁ : Kernel} (handled : Handled (enter k tr) b recs k₁ b' recs')
    (rest : k.Rest b recs) (fresh : s ∉ k.hist.opened) (opened : s ∈ (leave k₁).hist.opened)
    (count : 0 ≤ ((leave k₁).sem s).init) : ((leave k₁).custody b' s []).Sound := by
  cases handled.sem rest.inv s with
  | kept _ still => exact absurd (still.mp opened) fresh
  | closed _ _ closed => exact absurd opened closed
  | waited _ _ still => exact absurd (still.mp opened) fresh
  | signalled _ _ still => exact absurd (still.mp opened) fresh
  | opened call _ account =>
    generalize toI32 (tr.regs regA2 % 2 ^ 32 : Nat) = n at account
    have val : ((leave k₁).sem s).val = n := congrArg (fun a : Account Nat => a.val) account
    have queue : b'.queue (.sem s) = [] := congrArg (fun a : Account Nat => a.queue) account
    have init : ((leave k₁).sem s).init = n := congrArg Account.init account
    have same : (leave k₁).custody b' s [] = .opened n := by
      unfold Kernel.custody
      rw [val, queue, init]
      rfl
    exact same ▸ Custody.sound_opened (init ▸ count)

/-- What holds while the semaphore is lent. -/
structure Kernel.Lending (k : Kernel) (b : Threads) (recs : List Nat) (s : Nat)
    (holders : List Nat) : Prop where
  rest : k.Rest b recs
  opened : s ∈ k.hist.opened
  count : 0 ≤ (k.sem s).init ∧ (k.sem s).init < 2 ^ 31
  accounted : k.Accounted b s
  sound : (k.custody b s holders).Sound

theorem Kernel.Lending.step (lending : k.Lending b recs s holders) (fits : tr.Fits k)
    (taken : trap k tr = .ok k')
    (holds : tr.Calls syscallSemSignal → tr.regs regA1 = s → k.scheduler.threadCurrent ∈ holders) :
    ∃ b' recs', k.SemStep s tr b.queue k' ∧ k'.Rest b' recs' ∧
      (s ∈ k'.hist.opened → k'.Accounted b' s) ∧
      (¬ (tr.Calls syscallSemClose ∧ tr.regs regA1 = s) → s ∈ k'.hist.opened) := by
  obtain ⟨rest, opened, ⟨nonneg, range⟩, accounted, sound⟩ := lending
  have within := rest.inv.within range sound holds
  obtain ⟨k₁, b', recs', rfl, handled, rest'⟩ := trap_rest rest fits taken
  refine ⟨b', recs', ?_, rest', ?_, ?_⟩
  · exact handled.semStep rest rest' within opened accounted nonneg
  · exact (handled.sem rest.inv s).accounted within fun _ => accounted
  · exact handled.stays_open rest opened

theorem Kernel.Lending.trap (lending : k.Lending b recs s holders) (fits : tr.Fits k)
    (taken : trap k tr = .ok k') (opened : s ∈ k'.hist.opened)
    (lends : tr.Lends s k k' holders holders') : ∃ b' recs', k'.Lending b' recs' s holders' := by
  obtain ⟨b', recs', step, rest', accounted, -⟩ := lending.step fits taken lends.holds
  have init := step.init opened
  refine ⟨b', recs', rest', opened, ?_, accounted opened, ?_⟩
  · rw [init]
    exact lending.count
  · exact step.lends rest'.inv opened lends lending.sound

/-- **Lending.** -/
theorem lent_lending {k₀ : Kernel} (lent : k₀.Lent s k holders) :
    ∃ b recs, k.Lending b recs s holders := by
  induction lent with
  | @opened k tr k' run fits taken fresh opened count =>
    obtain ⟨b, recs, rest⟩ := run_rest run
    obtain ⟨k₁, b', recs', rfl, handled, rest'⟩ := trap_rest rest fits taken
    obtain ⟨call, init⟩ := handled.opens rest.inv fresh opened
    have within : WithinI32 s k tr :=
      ⟨fun call' => absurd (call'.2.symm.trans call.2) (by decide),
        fun call' => absurd (call'.2.symm.trans call.2) (by decide)⟩
    refine ⟨b', recs', rest', opened, ⟨count, ?_⟩, ?_, ?_⟩
    · rw [init]
      exact (toI32_range _).2
    · exact (handled.sem rest.inv s).accounted within (fun was => absurd was fresh) opened
    · exact handled.opens_custody rest fresh opened count
  | trap _ fits taken opened lends ih =>
    obtain ⟨b, recs, lending⟩ := ih
    exact lending.trap fits taken opened lends

end

/-- **Semaphores are locks.** While only holders signal a semaphore, every unit that it was
opened with is with a thread that holds it or is left in `val`; of a semaphore opened
with 1 there is one holder at most. A trap that neither closes it nor signals it for somebody
who holds no unit keeps it so. -/
theorem semaphore_excludes {k₀ k : Kernel} {s : Nat} {holders : List Nat}
    (lent : k₀.Lent s k holders) :
    (holders.length : Int) + max (k.sem s).val 0 = (k.sem s).init ∧
      ((k.sem s).init = 1 → ∀ t ∈ holders, ∀ t' ∈ holders, t = t') ∧
      ∀ tr k', tr.Fits k → trap k tr = .ok k' →
        ¬ (tr.Calls syscallSemClose ∧ tr.regs regA1 = s) →
        (tr.Calls syscallSemSignal → tr.regs regA1 = s → k.scheduler.threadCurrent ∈ holders) →
        ∃ holders', tr.Lends s k k' holders holders' ∧ k₀.Lent s k' holders' := by
  obtain ⟨b, recs, lending⟩ := lent_lending lent
  refine ⟨lending.sound.units, fun one t ht t' ht' => lending.sound.excludes one ht ht', ?_⟩
  intro tr k' fits taken notClose holds
  obtain ⟨b', recs', step, -, -, stays⟩ := lending.step fits taken holds
  obtain ⟨holders', lends⟩ := step.lends_some holds
  exact ⟨holders', lends, lent.trap fits taken (stays notClose) lends⟩

/-- While user code only opens semaphores, nobody holds a unit. -/
theorem setup_lent {k₀ k : Kernel} {s : Nat} (run : Run setupTrap k₀ k) (opened : s ∈ k.hist.opened)
    (count : 0 ≤ (k.sem s).init) : k₀.Lent s k [] := by
  induction run with
  | boot platform booted =>
    obtain ⟨b, p, stackSpace, first⟩ := boot_booted platform booted
    rw [first.hist] at opened
    exact absurd opened (by simp [platform.noSems])
  | @trap k tr k' run fits setup taken ih =>
    by_cases was : s ∈ k.hist.opened
    · have other : ∀ code, tr.Calls code → code = syscallSemOpen := fun code call =>
        call.2.symm.trans (setup call.1)
      obtain ⟨b, recs, rest⟩ := run_rest run
      obtain ⟨k₁, b', recs', rfl, handled, -⟩ := trap_rest rest fits taken
      have init : ((leave k₁).sem s).init = (k.sem s).init := by
        cases handled.sem rest.inv s with
        | kept same => exact congrArg Account.init same
        | opened _ fresh => exact absurd was fresh
        | closed call => exact absurd (other _ call) (by decide)
        | waited call => exact absurd (other _ call) (by decide)
        | signalled call => exact absurd (other _ call) (by decide)
      apply (ih was (init ▸ count)).trap fits taken opened
      apply Trap.Lends.other
      · exact fun call => absurd (other _ call.1) (by decide)
      · exact fun call => absurd (other _ call.1) (by decide)
    · exact .opened (run.mono fun _ _ _ => trivial) fits taken was opened count

/-- The first user thread takes the only unit of a semaphore. -/
theorem semaphore_excludes_small : ∃ k s p, smallKernel.Lent s k [p] ∧ (k.sem s).init = 1 ∧
    ((1 : Nat) : Int) + max (k.sem s).val 0 = (k.sem s).init := by
  obtain ⟨k, b, p, s, user, opened, val, -, init, -, -, run⟩ := small_opens setupTrap
    (fun _ user => absurd user (show irqEcallKernel ≠ irqEcallUser by decide)) 1 (by decide)
    fun _ _ _ _ => rfl
  have one : toI32 (1 % 2 ^ 32 : Nat) = 1 := by decide
  rw [one] at val init
  have mem : s ∈ k.hist.opened := by simp [opened]
  have lent := setup_lent run mem (init ▸ by decide)
  obtain ⟨fits, k', taken⟩ := userCall_sem user.rest user.mode syscallSemWait s (by simp) mem
  have call : (userCall k syscallSemWait s 0).Calls syscallSemWait := ⟨rfl, rfl⟩
  have arg : (userCall k syscallSemWait s 0).regs regA1 = s := rfl
  obtain ⟨b, recs, lending⟩ := lent_lending lent
  obtain ⟨b', recs', step, -, -, stays⟩ := lending.step fits taken fun call' =>
    absurd (call'.2.symm.trans call.2) (by decide)
  have opened' := stays fun close => absurd (close.1.2.symm.trans call.2) (by decide)
  have waits := step.wait call arg
  have left := waits.val
  have passes := waits.passes (by omega)
  have lent' := lent.trap fits taken opened' (.took call arg passes.2.1)
  rw [user.current] at lent'
  exact ⟨k', s, p, lent', (step.init opened').trans init, (semaphore_excludes lent').1⟩

end RiscvKernel
