import RiscvKernel.Stores
import RiscvKernel.Turns

/-!
# What a trap can do

* `trap_outcome`: in every run a trap returns or stops the machine for what user code did;
* `user_threads_unprivileged`: user threads run in user mode;
* `trap_writes_only`: a trap leaves memory alone but for the words in `Trap.Writes`.
-/

namespace RiscvKernel
open Function Intrusive Placement

/-! ## Outcomes -/

/-- The message with which the kernel stops the machine on this trap. -/
def Trap.fault (tr : Trap) (k : Kernel) : Option String :=
  if tr.scause = irqIllegalOp then some "Illegal operation\n"
  else if tr.scause = irqIllegalRead then some "Illegal read\n"
  else if tr.scause = irqIllegalWrite then some "Illegal write\n"
  else if tr.scause = irqEcallUser ∧ tr.regs regA0 = syscallThreadExit ∧
      tr.frame < (k.thread k.scheduler.threadCurrent).bp then some "Stack overflow\n"
  else none

section
variable {k k' : Kernel} {b : Threads} {recs : List Nat} {tr : Trap}

theorem trap_stops {halt : Halt} (handler : irqHandler tr.plic (enter k tr) = .error halt) :
    trap k tr = .error halt := by
  unfold trap
  rw [handler]
  rfl

/-- A thread that has left its stack cannot exit. -/
theorem trap_overflow (rest : k.Rest b recs) (fits : tr.Fits k) (call : tr.Calls syscallThreadExit)
    (low : tr.frame < (k.thread k.scheduler.threadCurrent).bp) :
    trap k tr = .error (.panic "Stack overflow\n") := by
  have mode := fits.userCall call.1
  have inv : (bumpSepc (enter k tr) 4).Inv b recs := (enter_inv rest.inv tr).congr rfl rfl
  have spec := threadExit_spec inv (rest.user mode) (fits.mode.trans mode)
  have low' : (bumpSepc (enter k tr) 4).hart.sscratch < ((bumpSepc (enter k tr) 4).thread
      (bumpSepc (enter k tr) 4).scheduler.threadCurrent).bp := low
  rw [if_pos low'] at spec
  have arm : handleSyscall (bumpSepc (enter k tr) 4) tr.frame syscallThreadExit =
      threadExit (bumpSepc (enter k tr) 4) := rfl
  rw [trap_user call.1, call.2, arm, spec]
  rfl

theorem Kernel.Rest.outcome (rest : k.Rest b recs) (fits : tr.Fits k) :
    match tr.fault k with
    | some msg => trap k tr = .error (.panic msg)
    | none => ∃ k', trap k tr = .ok k' := by
  have cause : (enter k tr).hart.scause = tr.scause := rfl
  have op : irqIllegalOp ≠ irqTimer ∧ irqIllegalOp ≠ irqHw := by decide
  have read : irqIllegalRead ≠ irqTimer ∧ irqIllegalRead ≠ irqHw := by decide
  have write : irqIllegalWrite ≠ irqTimer ∧ irqIllegalWrite ≠ irqHw := by decide
  unfold Trap.fault
  by_cases h : tr.scause = irqIllegalOp
  · rw [if_pos h]
    exact trap_stops (by simp [irqHandler, cause, h, op])
  by_cases h' : tr.scause = irqIllegalRead
  · rw [if_neg h, if_pos h']
    exact trap_stops (by simp [irqHandler, cause, h', read])
  by_cases h'' : tr.scause = irqIllegalWrite
  · rw [if_neg h, if_neg h', if_pos h'']
    exact trap_stops (by simp [irqHandler, cause, h'', write])
  rw [if_neg h, if_neg h', if_neg h'']
  split
  · next msg overflow =>
    split at overflow
    · next low =>
      obtain rfl := Option.some.inj overflow
      exact trap_overflow rest fits ⟨low.1, low.2.1⟩ low.2.2
    · cases overflow
  · next fine =>
    split at fine
    · cases fine
    · next high =>
      rcases rest.handled fits with ⟨k₁, -, -, handler, -⟩ | ⟨illegal | low, -⟩
      · refine ⟨leave k₁, ?_⟩
        unfold trap
        rw [handler]
        rfl
      · simp [illegalCauses, h, h', h''] at illegal
      · exact absurd low high

end

/-- **User threads run in user mode.** In every run the hart is in supervisor mode exactly while
`kernel_main` has it, no user thread is `kernel_main`, and a user thread that does not have the
hart comes back in user mode. -/
theorem user_threads_unprivileged {k₀ k : Kernel} (run : Run anyTrap k₀ k) :
    (k.hart.supervisor = true ↔ k.scheduler.threadCurrent = k.scheduler.kernelMain) ∧
      k.scheduler.kernelMain ∉ k.hist.live ∧
      (∀ t ∈ k.hist.live, t ≠ k.scheduler.threadCurrent →
        (k.thread t).sstatus.testBit 8 = false) ∧
      ∀ tr k', tr.Fits k → trap k tr = .ok k' → ((resume k').sstatus.testBit 8 = true ↔
        k'.scheduler.threadCurrent = k'.scheduler.kernelMain) := by
  obtain ⟨b, recs, rest⟩ := run_rest run
  have notLive : k.scheduler.kernelMain ∉ k.hist.live := main_not_live rest.inv.owns
  refine ⟨?_, notLive, fun t live ne => ?_, fun tr k' fits taken => ?_⟩
  · rw [rest.supervisor, decide_eq_true_iff]
  · have user : t ≠ k.scheduler.kernelMain := ne_of_mem_of_not_mem live notLive
    rw [rest.modes t (Or.inl live) ne, decide_eq_false user]
  · obtain ⟨k₁, b', recs', rfl, -, rest'⟩ := trap_rest rest fits taken
    have mode : (leave k₁).hart.supervisor = (resume (leave k₁)).sstatus.testBit 8 := rfl
    rw [← mode, rest'.supervisor, decide_eq_true_iff]

/-- One thread waits, and `kernel_main` gets the hart when the other one goes to sleep. -/
theorem user_threads_unprivileged_small : ∃ k k' p q, Run anyTrap roomyKernel k ∧
    k.hist.live = [q, p] ∧ k.scheduler.threadCurrent = q ∧ k.hart.supervisor = false ∧
    (k.thread p).sstatus.testBit 8 = false ∧ trap k (nextCall k syscallTimedSleep 3) = .ok k' ∧
    k'.scheduler.threadCurrent = k'.scheduler.kernelMain ∧
    (resume k').sstatus.testBit 8 = true := by
  obtain ⟨k₀, b₀, p, q, s, two, run₀⟩ := two_users anyTrap fun _ _ _ => trivial
  obtain ⟨fits₀, k, b, taken₀, one⟩ := two.waits
  have run := run₀.trap fits₀ trivial taken₀
  obtain ⟨fits, k', b', r, taken, sleeps⟩ := one.sleeps (show 1 ≤ 3 by decide) (by decide)
  obtain ⟨mode, notLive, parked, resumes⟩ := user_threads_unprivileged run
  have user : k.hart.supervisor = false := by
    refine Bool.eq_false_iff.mpr fun main => notLive ?_
    rw [← mode.mp main, one.current, one.live]
    exact List.mem_cons_self
  have other : p ≠ k.scheduler.threadCurrent := one.current ▸ two.ne.symm
  exact ⟨k, k', p, q, run, one.live, one.current, user,
    parked p (by simp [one.live]) other, taken, sleeps.current,
    (resumes _ k' fits taken).mpr sleeps.current⟩

/-! ## Memory -/

/-- The words that a trap may change from `k` to `k'`: the frame of the interrupted code, a
handle, the frame of a new thread, the results of the threads that it wakes, and the byte of
`getc`, which goes through the stack pointer in the caller's control block. -/
inductive Trap.Writes (tr : Trap) (k k' : Kernel) : Nat → Prop
  | frame {i} (lt : i < 32) : tr.Writes k k' (slot tr.frame i)
  | handle (call : tr.Calls syscallThreadCreate ∨ tr.Calls syscallSemOpen) :
      tr.Writes k k' (tr.regs regA1)
  | newFrame {i} (call : tr.Calls syscallThreadCreate) (lt : i < 32) :
      tr.Writes k k' (slot (u64 (tr.regs regA4 - contextSize)) i)
  | woken {ts t} (call : tr.Calls syscallSemClose ∨ tr.Calls syscallSemSignal)
      (ring : IsRing k.links (k.sem (tr.regs regA1)).waitingThreads ts) (waits : t ∈ ts)
      (woken : k.Readies k' t) : tr.Writes k k' (slot (k.thread t).sp regA0)
  | input {ts t} (cause : tr.scause = irqHw)
      (ring : IsRing k.links k.threadsWaitingForInput ts) (waits : t ∈ ts)
      (woken : k.Readies k' t) : tr.Writes k k' (slot (k.thread t).sp regA0)
  | byte (call : tr.Calls syscallGetc) (some : k.console.receiveCnt ≠ 0) :
      tr.Writes k k' (slot (k.thread k.scheduler.threadCurrent).sp regA0)

section
variable {k k' : Kernel} {a : Nat} {b : Threads} {recs : List Nat}

theorem trap_memory {tr : Trap} (rest : k.Rest b recs) (fits : tr.Fits k)
    (taken : trap k tr = .ok k') (free : ¬ tr.Writes k k' a) : k'.mem a = tr.mem a := by
  obtain ⟨k₁, b', recs', rfl, handled, -⟩ := trap_rest rest fits taken
  have entered : (enter k tr).mem a = tr.mem a :=
    saveRegs_other tr tr.mem fun i lt e => free (e ▸ .frame lt)
  refine Eq.trans ?_ entered
  by_cases user : tr.scause = irqEcallUser
  · refine (handled.call ⟨user, rfl⟩).stores fun stores => ?_
    cases stores with
    | result => exact free (.frame (by decide))
    | woken call waits woken =>
      rw [called_arg] at waits
      have opened : tr.regs regA1 ∈ k.hist.opened := by
        apply (fits.request user).sem
        rcases call with close | signal
        · simp [close]
        · simp [signal]
      have ring := rest.places.rings.ring (.sem (tr.regs regA1)) opened
      exact free (.woken (call.imp (fun h => ⟨user, h⟩) fun h => ⟨user, h⟩) ring waits woken)
    | handle call =>
      rw [called_arg] at free
      exact free (.handle (call.imp (fun h => ⟨user, h⟩) fun h => ⟨user, h⟩))
    | frame call lt =>
      have arg : (bumpSepc (enter k tr) 4).context tr.frame regA4 = tr.regs regA4 :=
        enter_arg k tr (by decide) (by decide)
      rw [arg] at free
      exact free (.newFrame ⟨user, call⟩ lt)
    | byte call some => exact free (.byte ⟨user, call⟩ some)
  · exact handled.quietStores user fun hw t waits woken e =>
      free (e ▸ .input hw (rest.places.rings.ring .input trivial) waits woken)

end

/-- **The kernel writes only where it should.** In every run a trap changes no word of memory but
those in `Trap.Writes`. -/
theorem trap_writes_only {k₀ k k' : Kernel} {tr : Trap} {a : Nat} (run : Run anyTrap k₀ k)
    (fits : tr.Fits k) (taken : trap k tr = .ok k') (free : ¬ tr.Writes k k' a) :
    k'.mem a = tr.mem a := by
  obtain ⟨b, recs, rest⟩ := run_rest run
  exact trap_memory rest fits taken free

/-- A signal writes the result of the thread that it wakes, and nothing low in memory. -/
theorem trap_writes_only_small : ∃ k k' p s, Run anyTrap roomyKernel k ∧
    IsRing k.links (k.sem s).waitingThreads [p] ∧
    trap k (userCall k syscallSemSignal s 0) = .ok k' ∧
    (userCall k syscallSemSignal s 0).Writes k k' (slot (k.thread p).sp regA0) ∧
    ∀ a < 80, k'.mem a = k.mem a := by
  obtain ⟨k₀, b₀, p, q, s, two, run₀⟩ := two_users anyTrap fun _ _ _ => trivial
  obtain ⟨fits₀, k, b, taken₀, one⟩ := two.waits
  have run := run₀.trap fits₀ trivial taken₀
  have opened : s ∈ k.hist.opened := by simp [one.opened]
  obtain ⟨fits, k', taken⟩ :=
    userCall_sem one.rest one.mode syscallSemSignal s (by simp) opened
  let tr := userCall k syscallSemSignal s 0
  have call : tr.Calls syscallSemSignal := ⟨rfl, rfl⟩
  have ring : IsRing k.links (k.sem s).waitingThreads (b.queue (.sem s)) :=
    one.rest.places.rings.ring (.sem s) opened
  rw [one.queue, update_self] at ring
  have woken : k.Readies k' p := by
    obtain ⟨k₁, b', recs', rfl, handled, rest'⟩ := trap_rest one.rest fits taken
    have balanced : (k.account b s).Balanced := by
      show (b.queue (.sem s)).length = (-(k.sem s).val).toNat
      rw [one.queue, update_self, one.val]
      rfl
    have word : toI32 ((k.sem s).val + 1) = (k.sem s).val + 1 := by
      rw [one.val]
      decide
    have effect := (handled.call call).signalsOn ((enter_inv one.rest.inv tr).congr rfl rfl)
      (rest'.inv.congr rfl rfl) called_arg word balanced
    have first : b.queue (.sem s) = [p] := by simp [one.queue]
    exact ⟨[p], (effect.heard p [] first).2.1, List.mem_singleton_self p⟩
  refine ⟨k, k', p, s, run, ring, taken,
    .woken (Or.inr call) ring (List.mem_singleton_self p) woken,
    fun a low => trap_writes_only run fits taken fun writes => ?_⟩
  have apart : ∀ {code}, code ≠ syscallSemSignal → ¬ tr.Calls code := fun ne other =>
    ne (other.2.symm.trans call.2)
  cases writes with
  | frame lt =>
    have frame : tr.frame = 1792 := show u64 ((2048 : Nat) - contextSize) = 1792 by decide
    change slot tr.frame _ < 80 at low
    rw [frame, slot] at low
    omega
  | handle call => exact call.elim (apart (by decide)) (apart (by decide))
  | newFrame call => exact apart (by decide) call
  | woken | input =>
    rw [slot, regA0] at low
    omega
  | byte call => exact apart (by decide) call

end RiscvKernel
