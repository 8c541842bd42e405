import RiscvKernel.Getc
import RiscvKernel.Output
import RiscvKernel.Shutdown

/-!
# How long a character waits for the device

* `Trap.Drains`: the console interrupts that find the device ready to send;
* `Kernel.Transmits`: a number of the characters that wait have been transmitted;
* `output_latency`: as many as the device was ready for, the oldest first.
-/

namespace RiscvKernel
open Function Intrusive Placement Console

/-- The trap is a console interrupt, and the first `n` times that `__console_send` polls the
device it is ready. -/
def Trap.Drains (tr : Trap) (k : Kernel) (n : Nat) : Prop :=
  let c := (consoleReceive (enter k tr)).console
  tr.scause = irqHw ∧ tr.plic = 10 ∧ ∀ i < n, c.ready (c.device.statusReads + i) = true

/-- From `k` to `k'` console interrupts have found the device ready `n` times. -/
inductive Kernel.Drained (k : Kernel) : Nat → Kernel → Prop where
  | start : k.Drained 0 k
  | trap {n m k' tr k''} (before : k.Drained n k') (fits : tr.Fits k')
      (taken : trap k' tr = .ok k'') (drains : m = 0 ∨ tr.Drains k' m) : k.Drained (n + m) k''

/-- At `k'` the output of `k` goes on, and `n` more characters of it are transmitted, or all. -/
structure Kernel.Transmits (k k' : Kernel) (n : Nat) : Prop where
  output : k.output <+: k'.output
  sent : k.console.device.transmitted <+: k'.console.device.transmitted
  count : min (k.console.device.transmitted.length + n) k.output.length ≤
    k'.console.device.transmitted.length

section
variable {k k' k'' : Kernel} {n m : Nat}

theorem Kernel.Transmits.refl (k : Kernel) : k.Transmits k 0 :=
  ⟨List.prefix_rfl, List.prefix_rfl, Nat.min_le_left ..⟩

theorem Kernel.Transmits.trans (before : k.Transmits k' n) (after : k'.Transmits k'' m) :
    k.Transmits k'' (n + m) := by
  constructor
  · exact before.output.trans after.output
  · exact before.sent.trans after.sent
  · have := before.count
    have := after.count
    have := before.output.length_le
    omega

/-- Steps that transmit nothing, or anything. -/
theorem Kernel.Transmits.of_sent (output : k.output <+: k'.output)
    (sent : k.console.device.transmitted <+: k'.console.device.transmitted) :
    k.Transmits k' 0 := by
  have := sent.length_le
  exact ⟨output, sent, by omega⟩

theorem unsent_length (c : Console) : c.unsent.length = c.sendCnt := firsts_length ..

/-- The oldest characters go first. -/
theorem Kernel.Transmits.oldest (transmits : k.Transmits k' n) :
    k.console.device.transmitted ++ k.console.unsent.take n <+:
      k'.console.device.transmitted := by
  have count := transmits.count
  have front : k.console.device.transmitted ++ k.console.unsent.take n <+: k'.output := by
    apply List.IsPrefix.trans _ transmits.output
    exact (List.prefix_append_right_inj _).mpr (List.take_prefix n _)
  have sent : k'.console.device.transmitted <+: k'.output := List.prefix_append ..
  apply List.prefix_of_prefix_length_le front sent
  have total : k.output.length = k.console.device.transmitted.length + k.console.unsent.length :=
    List.length_append
  rw [List.length_append, List.length_take]
  omega

end

/-! ## One trap -/

namespace Console

theorem send_sent (c : Console) : c.device.transmitted <+: c.send.device.transmitted := by
  obtain ⟨chars, sent⟩ := send_spec c
  exact ⟨chars, sent.transmitted.symm⟩

theorem putc_sent (c : Console) (ch : UInt8) :
    c.device.transmitted <+: (c.putc ch).2.device.transmitted := by
  unfold putc
  split
  · split
    · exact send_sent c
    · exact (send_sent c).trans (send_sent c.send)
  · exact send_sent c

/-- `__console_send` transmits a character for every poll that finds the device ready. -/
theorem send_drains {c : Console} {n : Nat}
    (ready : ∀ i < n, c.ready (c.device.statusReads + i) = true) :
    min (c.device.transmitted.length + n) (c.device.transmitted ++ c.unsent).length ≤
      c.send.device.transmitted.length := by
  obtain ⟨chars, sent⟩ := send_spec c
  have left : c.send.sendCnt = c.sendCnt - Backlog.burst c.ready c.sendCnt c.device.statusReads :=
    congrArg Backlog.pending (send_later c).backlog
  have burst := Backlog.le_burst c.sendCnt c.device.statusReads ready
  have most := Backlog.burst_le c.ready c.sendCnt c.device.statusReads
  have cnt := sent.cnt
  have waits := unsent_length c
  rw [sent.transmitted, List.length_append, List.length_append]
  omega

end Console

section
variable {k k' : Kernel} {b b' : Threads} {recs recs' : List Nat} {context code : Nat}

theorem Called.sent (called : Called k context b recs code k' b' recs') :
    k.console.device.transmitted <+: k'.console.device.transmitted := by
  by_cases getc : code = syscallGetc
  · subst getc
    cases called with
    | unknown none => exact absurd (by decide) none
    | getcByte => exact List.prefix_rfl
    | getcBlocked =>
      have same : (waitingPush (switch k) k.scheduler.threadCurrent).console = k.console :=
        switch_console k
      rw [same]
  by_cases putc : code = syscallPutc
  · subst putc
    cases called with
    | unknown none => exact absurd (by decide) none
    | putcAccepted => exact putc_sent ..
    | putcRefused =>
      rw [(dispatch_sameConsole (k.putcRefused _)).console]
      exact putc_sent ..
  · rw [(called.sameConsole getc putc).1.console]

theorem Handled.sent (handled : Handled k b recs k' b' recs') :
    k.console.device.transmitted <+: k'.console.device.transmitted := by
  cases handled with
  | ignored => exact List.prefix_rfl
  | console _ _ _ delivered =>
    rw [← delivered.output.transmitted]
    exact send_sent _
  | ticked _ ticked => rw [((ticked_sameConsole ticked).trans (spend_sameConsole _)).console]
  | preempted _ ticked =>
    rw [((ticked_sameConsole ticked).trans (dispatch_sameConsole _)).console]
  | called _ called => exact called.sent
  | mainIgnored => exact List.prefix_rfl
  | mainDispatched =>
    have same : (switch (bumpSepc k 4)).console = k.console := switch_console _
    rw [same]

theorem console_trap {tr : Trap} (cause : tr.scause = irqHw) (plic : tr.plic = 10) :
    trap k tr = .ok (leave (consoleSend (consoleReceive (enter k tr)))) := by
  have entered : (enter k tr).hart.scause = irqHw := cause
  have other : irqHw ≠ irqTimer := by decide
  have handler : irqHandler tr.plic (enter k tr) = .ok (handleHw 10 (enter k tr)) := by
    unfold irqHandler
    rw [if_neg (entered ▸ other), if_pos entered, plic]
  unfold trap
  rw [handler]
  rfl

theorem trap_transmits {tr : Trap} {n : Nat} (rest : k.Rest b recs) (fits : tr.Fits k)
    (taken : trap k tr = .ok k') (drains : n = 0 ∨ tr.Drains k n) :
    k.Transmits k' n ∧ ∃ b' recs', k'.Rest b' recs' := by
  obtain ⟨k₁, b', recs', done, handled, rest'⟩ := trap_rest rest fits taken
  refine ⟨?_, b', recs', rest'⟩
  obtain ⟨new, step⟩ := handled.output rest.sendRoom
  have output : k.output <+: k'.output := ⟨new.map Prod.snd, done ▸ step.order.symm⟩
  have sent : k.console.device.transmitted <+: k'.console.device.transmitted := done ▸ handled.sent
  rcases drains with rfl | ⟨cause, plic, ready⟩
  · exact .of_sent output sent
  · obtain ⟨_, _, _, _, _, -, -, -, delivered, -⟩ :=
      consoleReceive_inv (enter_inv rest.inv tr) rest.receiveRoom
    have same : SameOutput k.console (consoleReceive (enter k tr)).console := delivered.output
    have count := send_drains ready
    rw [same.transmitted, same.unsent] at count
    obtain rfl := Except.ok.inj (taken.symm.trans (console_trap cause plic))
    exact ⟨output, sent, count⟩

end

/-! ## Runs -/

theorem drained_transmits {k k' : Kernel} {b : Threads} {recs : List Nat} {n : Nat}
    (rest : k.Rest b recs) (drained : k.Drained n k') :
    k.Transmits k' n ∧ ∃ b' recs', k'.Rest b' recs' := by
  induction drained with
  | start => exact ⟨.refl k, b, recs, rest⟩
  | trap _ fits taken drains ih =>
    obtain ⟨before, b', recs', rest'⟩ := ih
    obtain ⟨after, rest''⟩ := trap_transmits rest' fits taken drains
    exact ⟨before.trans after, rest''⟩

/-- **Output goes out.** In any run, once console interrupts have found the device ready `n`
times, the `n` oldest characters that waited in the buffer have been transmitted, in order. -/
theorem output_latency {k₀ k k' : Kernel} {n : Nat} (run : Run anyTrap k₀ k)
    (drained : k.Drained n k') :
    k.console.device.transmitted ++ k.console.unsent.take n <+:
      k'.console.device.transmitted := by
  obtain ⟨b, recs, rest⟩ := run_rest run
  exact (drained_transmits rest drained).1.oldest

/-- The small machine with a device that is busy at the first two polls. -/
def busyKernel : Kernel := { smallKernel with
  console := { smallKernel.console with
    device := ⟨fun n => if n < 2 then 0 else consoleStatusSend, fun _ => 0, 0, 0, []⟩ } }

theorem busyKernel_platform : busyKernel.Platform := by
  obtain ⟨fresh, room, supervisor, noThreads, noSems, noBlocks, -, -, untouched⟩ :=
    smallKernel_platform
  exact ⟨fresh, room, supervisor, noThreads, noSems, noBlocks, ⟨rfl, rfl, rfl, rfl⟩, ⟨rfl, rfl⟩,
    untouched⟩

/-- While the device is busy a character waits behind those that wait already. -/
theorem putc_busy {c : Console} (busy : c.status &&& consoleStatusSend = 0)
    (room : c.sendCnt < consoleBufferSize) (ch : UInt8) : (c.putc ch).1 = 0 ∧
      (c.putc ch).2.device = c.statusRead.device ∧ (c.putc ch).2.unsent = c.unsent ++ [ch] ∧
      (c.putc ch).2.receiveCnt = c.receiveCnt := by
  have put : c.putc ch = (0, (c.statusRead.dropSent 0).append ch) := by
    unfold putc
    rw [if_neg (by omega), send_busy busy]
  have device : (c.putc ch).2.device = c.statusRead.device := by
    rw [put]
    rfl
  have accepted := (putc_accepted (fun refuses => absurd refuses.1 (by omega)) room.le ch).2
  refine ⟨by rw [put], device, ?_, accepted.input.cnt⟩
  have order := accepted.order
  rw [device, List.append_assoc] at order
  exact List.append_cancel_left order

/-- A character of the first user thread is accepted. -/
theorem FirstUser.puts {k₀ k : Kernel} {b : Threads} {p : Nat} (user : FirstUser k₀ k b p)
    {ch : Nat} (word : ch < 2 ^ 64) (accepted : (k.console.putc (charOf ch)).1 = 0) :
    ∃ k', (userCall k syscallPutc ch 0).Fits k ∧ trap k (userCall k syscallPutc ch 0) = .ok k' ∧
      FirstUser k₀ k' b p ∧ k'.console = (k.console.putc (charOf ch)).2 := by
  let tr := userCall k syscallPutc ch 0
  have fits : tr.Fits k := plainCall_fits user.mode (by decide) (by decide) word (by decide)
  obtain ⟨k', taken⟩ := userCall_returns user.rest (by decide) fits
  obtain ⟨k₁, b', recs', rfl, handled, rest'⟩ := trap_rest user.rest fits taken
  have call : tr.Calls syscallPutc := ⟨rfl, rfl⟩
  have called := handled.call call
  have arg : (bumpSepc (enter k tr) 4).context tr.frame regA1 = ch := called_arg
  have same : (bumpSepc (enter k tr) 4).console = k.console := rfl
  cases called with
  | unknown other => exact absurd (by decide) other
  | putcAccepted =>
    refine ⟨_, fits, taken, user.next fits taken rest'.inv rfl rfl rfl rfl, ?_⟩
    show ((bumpSepc (enter k tr) 4).console.putc (charOf _)).2 = _
    rw [arg, same]
  | putcRefused refused =>
    rw [arg, same] at refused
    exact absurd accepted refused

/-- Without a byte from the device nobody is served. -/
theorem consoleReceive_none {k : Kernel} (none : k.console.receiveCnt = 0)
    (quiet : ¬ k.console.status &&& consoleStatusReceive ≠ 0) :
    consoleReceive k = { k with console := k.console.statusRead.dropReceived 0 } := by
  have loop : k.console.receiveLoop (consoleBufferSize - k.console.receiveCnt) =
      k.console.statusRead := by
    rw [none]
    exact if_neg quiet
  have cnt : k.console.statusRead.receiveCnt = 0 := none
  unfold consoleReceive
  simp only [loop, cnt]
  rfl

theorem consoleTrap_fits {k₀ k : Kernel} {b : Threads} {p : Nat} (user : FirstUser k₀ k b p) :
    (consoleTrap k).Fits k := by
  have causes : irqHw ≠ irqEcallUser ∧ irqHw ≠ irqEcallKernel := by decide
  constructor
  · exact (show (0 : Nat).testBit 8 = false by decide).trans user.mode.symm
  · exact fun h => absurd h causes.1
  · exact fun h => absurd h causes.2
  · intro i
    show (if _ then _ else _) < _
    split <;> decide
  · exact fun h => absurd h causes.1

/-- Two characters wait for a busy device, and a console interrupt finds it ready twice. -/
theorem output_latency_small : ∃ k k₁ k₂ k₃ : Kernel,
    trap k (userCall k syscallPutc 65 0) = .ok k₁ ∧
    trap k₁ (userCall k₁ syscallPutc 66 0) = .ok k₂ ∧ k₂.console.unsent = [65, 66] ∧
    trap k₂ (consoleTrap k₂) = .ok k₃ ∧ k₂.Drained 2 k₃ ∧
    k₂.console.device.transmitted ++ k₂.console.unsent.take 2 <+:
      k₃.console.device.transmitted := by
  obtain ⟨k, b, p, user, -, device, none, empty, -⟩ := first_user busyKernel_platform anyTrap
    fun _ _ => trivial
  have nothing : k.console.unsent = [] := by rw [unsent, empty, firsts_zero]
  have busy : k.console.status &&& consoleStatusSend = 0 := by
    rw [Console.status, device]
    rfl
  obtain ⟨accepted, device₁, unsent₁, cnt₁⟩ := putc_busy busy (by rw [empty]; decide) (charOf 65)
  obtain ⟨k₁, -, taken, user₁, console₁⟩ := user.puts (by decide) accepted
  rw [← console₁] at device₁ unsent₁ cnt₁
  rw [nothing] at unsent₁
  have one : k₁.console.sendCnt = 1 := by rw [← unsent_length, unsent₁]; rfl
  have busy₁ : k₁.console.status &&& consoleStatusSend = 0 := by
    rw [Console.status, device₁, statusRead, device]
    show busyKernel.console.device.status 1 &&& consoleStatusSend = 0
    decide
  obtain ⟨accepted', device₂, unsent₂, cnt₂⟩ := putc_busy busy₁ (by rw [one]; decide) (charOf 66)
  obtain ⟨k₂, -, taken', user₂, console₂⟩ := user₁.puts (by decide) accepted'
  rw [← console₂] at device₂ unsent₂ cnt₂
  rw [unsent₁] at unsent₂
  have reads : k₂.console.device.statusReads = 2 := by
    rw [device₂, statusRead, device₁, statusRead, device]
    rfl
  have status : ∀ n, 2 ≤ n → k₂.console.device.status n = consoleStatusSend := by
    intro n le
    rw [device₂, statusRead, device₁, statusRead, device]
    exact if_neg (by omega)
  have quiet : ¬ k₂.console.status &&& consoleStatusReceive ≠ 0 := by
    rw [Console.status, status _ reads.ge]
    decide
  have received := consoleReceive_none (k := enter k₂ (consoleTrap k₂))
    (cnt₂.trans (cnt₁.trans none)) quiet
  have drains : (consoleTrap k₂).Drains k₂ 2 := by
    refine ⟨rfl, rfl, fun i _ => ?_⟩
    rw [received]
    show decide (k₂.console.device.status (k₂.console.device.statusReads + 1 + i) &&&
      consoleStatusSend ≠ 0) = true
    rw [status _ (by omega)]
    decide
  have taken₃ : trap k₂ (consoleTrap k₂) = _ := console_trap rfl rfl
  have drained : k₂.Drained (0 + 2) _ :=
    .trap .start (consoleTrap_fits user₂) taken₃ (Or.inr drains)
  exact ⟨k, k₁, k₂, _, taken, taken', unsent₂, taken₃, drained, output_latency user₂.run drained⟩

end RiscvKernel
