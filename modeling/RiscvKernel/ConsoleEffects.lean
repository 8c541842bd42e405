import RiscvKernel.Effects

/-!
# What a trap does to the console

* `InputStep`: bytes come from the device and go to threads, in order, and
  threads queue for them;
* `OutputStep`: characters are accepted and go to the device, in order;
* `Handled.input`, `Handled.output`: every trap is one of each.
-/

namespace RiscvKernel
open Function Intrusive Placement Console

/-- The console and its history are the same. -/
structure Kernel.SameConsole (k k' : Kernel) : Prop where
  console : k'.console = k.console
  handed : k'.hist.handed = k.hist.handed
  inputBlocked : k'.hist.inputBlocked = k.hist.inputBlocked
  served : k'.hist.served = k.hist.served
  accepted : k'.hist.accepted = k.hist.accepted

theorem Kernel.SameConsole.of_hist {k k' : Kernel} (console : k'.console = k.console)
    (hist : k'.hist = k.hist) : k.SameConsole k' := by
  refine ⟨console, ?_, ?_, ?_, ?_⟩ <;> rw [hist]

theorem Kernel.SameConsole.trans {k m k' : Kernel} (h : k.SameConsole m)
    (h' : m.SameConsole k') : k.SameConsole k' :=
  ⟨h'.console.trans h.console, h'.handed.trans h.handed, h'.inputBlocked.trans h.inputBlocked,
    h'.served.trans h.served, h'.accepted.trans h.accepted⟩

theorem switch_sameConsole (k : Kernel) : k.SameConsole (switch k) :=
  .of_hist (switch_console k) (switch_hist k)

theorem dispatch_sameConsole (k : Kernel) : k.SameConsole (dispatch k) :=
  Kernel.SameConsole.trans (m := schedulerPush k k.scheduler.threadCurrent)
    ⟨rfl, rfl, rfl, rfl, rfl⟩ (switch_sameConsole _)

theorem setContext_sameConsole (k : Kernel) (c i v : Nat) : k.SameConsole (k.setContext c i v) :=
  ⟨rfl, rfl, rfl, rfl, rfl⟩

theorem unblocked_sameConsole (k : Kernel) (s w : Nat) : k.SameConsole (k.unblocked s w) :=
  ⟨rfl, rfl, rfl, rfl, rfl⟩

theorem spend_sameConsole (k : Kernel) : k.SameConsole k.spend := ⟨rfl, rfl, rfl, rfl, rfl⟩

theorem pushAll_sameConsole (k : Kernel) (ts : List Nat) : k.SameConsole (pushAll k ts) := by
  refine ⟨pushAll_console k ts, ?_, ?_, ?_, ?_⟩ <;> rw [pushAll_hist]

/-! ## Steps -/

/-- `new` are the characters a step accepts. -/
structure Kernel.OutputStep (k k' : Kernel) (new : List (Nat × UInt8)) : Prop where
  order : k'.console.device.transmitted ++ k'.console.unsent =
    k.console.device.transmitted ++ k.console.unsent ++ new.map Prod.snd
  accepted : k'.hist.accepted = k.hist.accepted ++ new
  room : k'.console.sendCnt ≤ consoleBufferSize
  reach : k'.console.sendBuffer.reach ≤ max k.console.sendBuffer.reach consoleBufferSize

/-- Each of the threads `ws` gets its byte in the `a0` slot of its frame, and goes
to the end of the ready queue once. -/
structure Kernel.Given (k k' : Kernel) (ws : List Nat) (bytes : List UInt8) : Prop where
  length : bytes.length = ws.length
  mem : k'.mem = answers k.sp (ws.zip (bytes.map UInt8.toNat)) k.mem
  pushed : k'.hist.pushed = k.hist.pushed ++ ws
  saved : k'.saved = k.saved
  current : k'.scheduler.threadCurrent = k.scheduler.threadCurrent

/-- `input` comes from the device and `bytes` leave the buffer; the threads `ws`
leave the queue of waiting threads `waiting` with a byte each, and `blocked` join it. -/
structure Kernel.InputStep (k k' : Kernel) (waiting waiting' : List Nat)
    (input bytes : List UInt8) (ws blocked : List Nat) : Prop where
  received : k'.console.received = k.console.received ++ input
  unread : k.console.unread ++ input = bytes ++ k'.console.unread
  handed : k'.hist.handed = k.hist.handed ++ bytes
  room : k'.console.receiveCnt ≤ consoleBufferSize
  reach : k'.console.receiveBuffer.reach ≤ max k.console.receiveBuffer.reach consoleBufferSize
  left : ∃ rest, waiting = ws ++ rest ∧ waiting' = rest ++ blocked
  inputBlocked : k'.hist.inputBlocked = k.hist.inputBlocked ++ blocked
  served : k'.hist.served = k.hist.served ++ ws.zip bytes
  given : ws ≠ [] → k.Given k' ws bytes
  empty : (waiting ≠ [] → k.console.receiveCnt = 0) → waiting' ≠ [] → k'.console.receiveCnt = 0

section
variable {k k' : Kernel}

theorem Kernel.SameConsole.output (same : k.SameConsole k')
    (room : k.console.sendCnt ≤ consoleBufferSize) : k.OutputStep k' [] := by
  obtain ⟨console, -, -, -, accepted⟩ := same
  refine ⟨?_, by simp [accepted], by rwa [console], ?_⟩
  · rw [console]
    simp
  · rw [console]
    exact Nat.le_max_left ..

theorem Kernel.SameConsole.input (same : k.SameConsole k') (waiting : List Nat)
    (room : k.console.receiveCnt ≤ consoleBufferSize) :
    k.InputStep k' waiting waiting [] [] [] [] := by
  obtain ⟨console, handed, inputBlocked, served, -⟩ := same
  refine ⟨?_, ?_, by simp [handed], by rwa [console], ?_, ⟨waiting, rfl, by simp⟩,
    by simp [inputBlocked], by simp [served], by simp, ?_⟩
  · rw [console]
    simp
  · rw [console]
    simp
  · rw [console]
    exact Nat.le_max_left ..
  · intro h h'
    rw [console]
    exact h h'

/-- The console changes, but not its output. -/
theorem outputStep_of_same (output : SameOutput k.console k'.console)
    (accepted : k'.hist.accepted = k.hist.accepted)
    (room : k.console.sendCnt ≤ consoleBufferSize) : k.OutputStep k' [] := by
  refine ⟨?_, by simp [accepted], by rwa [output.cnt], ?_⟩
  · rw [output.transmitted, output.unsent]
    simp
  · rw [output.buffer]
    exact Nat.le_max_left ..

theorem outputStep_of_sent {chars : List UInt8} (sent : k.console.Sent k'.console chars)
    (accepted : k'.hist.accepted = k.hist.accepted)
    (room : k.console.sendCnt ≤ consoleBufferSize) : k.OutputStep k' [] := by
  have := sent.cnt
  have := sent.reach
  refine ⟨?_, by simp [accepted], by omega, by omega⟩
  rw [sent.order]
  simp

/-- The console changes, but not its input. -/
theorem inputStep_of_same (input : SameInput k.console k'.console)
    (hist : k'.hist.handed = k.hist.handed ∧ k'.hist.inputBlocked = k.hist.inputBlocked ∧
      k'.hist.served = k.hist.served) (waiting : List Nat)
    (room : k.console.receiveCnt ≤ consoleBufferSize) :
    k.InputStep k' waiting waiting [] [] [] [] := by
  refine ⟨?_, ?_, by simp [hist.1], by rwa [input.cnt], ?_, ⟨waiting, rfl, by simp⟩,
    by simp [hist.2.1], by simp [hist.2.2], by simp, ?_⟩
  · rw [input.received]
    simp
  · rw [input.unread]
    simp
  · rw [input.buffer]
    exact Nat.le_max_left ..
  · intro h h'
    rw [input.cnt]
    exact h h'

end

section
variable {k k' : Kernel} {context code : Nat} {b b' : Threads} {recs recs' : List Nat}

/-- Calls other than `getc` and `putc` do not touch the console. -/
theorem Called.sameConsole (called : Called k context b recs code k' b' recs')
    (getc : code ≠ syscallGetc) (putc : code ≠ syscallPutc) :
    k.SameConsole k' ∧ b'.queue .input = b.queue .input := by
  cases called with
  | unknown => exact ⟨.of_hist rfl rfl, rfl⟩
  | memAlloc p heap =>
    refine ⟨?_, rfl⟩
    unfold Kernel.memAlloced
    split <;> exact ⟨rfl, rfl, rfl, rfl, rfl⟩
  | getcByte => exact absurd rfl getc
  | getcBlocked => exact absurd rfl getc
  | putcAccepted => exact absurd rfl putc
  | putcRefused => exact absurd rfl putc
  | createRefused => exact ⟨.of_hist rfl rfl, rfl⟩
  | created heap _ _ _ queue =>
    refine ⟨⟨?_, ?_, ?_, ?_, ?_⟩, by simp [queue]⟩
    · rw [setContext_console, threadCreated_console]
    all_goals rw [setContext_hist, threadCreated_hist]
  | exited heap queue =>
    have same := switch_sameConsole ((schedulerUserThreadDecrement k).note fun h =>
      { h with live := h.live.erase k.scheduler.threadCurrent })
    exact ⟨⟨same.console, same.handed, same.inputBlocked, same.served, same.accepted⟩,
      by simp [queue]⟩
  | dispatched queue => exact ⟨dispatch_sameConsole k, by simp [queue]⟩
  | openRefused => exact ⟨.of_hist rfl rfl, rfl⟩
  | opened => exact ⟨⟨rfl, rfl, rfl, rfl, rfl⟩, rfl⟩
  | @closed s b' arg heap queue =>
    have same := pushAll_sameConsole (k.note fun h => { h with opened := h.opened.erase s })
      (b.queue (.sem s))
    exact ⟨⟨same.console, same.handed, same.inputBlocked, same.served, same.accepted⟩,
      by simp [queue]⟩
  | waited => exact ⟨⟨rfl, rfl, rfl, rfl, rfl⟩, rfl⟩
  | @blocked s b' arg blocks queue =>
    have same := switch_sameConsole (k.waited s)
    exact ⟨⟨same.console, same.handed, same.inputBlocked, same.served, same.accepted⟩,
      by simp [queue]⟩
  | signalled => exact ⟨⟨rfl, rfl, rfl, rfl, rfl⟩, rfl⟩
  | unheard => exact ⟨⟨rfl, rfl, rfl, rfl, rfl⟩, rfl⟩
  | @woke s w ws b' _ _ _ queue =>
    refine ⟨Kernel.SameConsole.trans (m := k.signalled s) ⟨rfl, rfl, rfl, rfl, rfl⟩ ?_,
      by simp [queue]⟩
    exact (unblocked_sameConsole _ s w).trans (setContext_sameConsole ..)
  | sleepZero => exact ⟨.of_hist rfl rfl, rfl⟩
  | @slept k₁ p front back b' put queue =>
    refine ⟨.trans ?_ (switch_sameConsole k₁), by simp [queue]⟩
    rw [put.frame]
    exact ⟨rfl, rfl, rfl, rfl, rfl⟩

theorem Called.noOutput (called : Called k context b recs code k' b' recs')
    (room : k.console.sendCnt ≤ consoleBufferSize) (notPutc : code ≠ syscallPutc) :
    k.OutputStep k' [] := by
  by_cases getc : code = syscallGetc
  · subst getc
    cases called with
    | unknown none => exact absurd (by decide) none
    | getcByte => exact outputStep_of_same ⟨rfl, rfl, rfl⟩ rfl room
    | getcBlocked =>
      obtain ⟨order, accepted, room, reach⟩ := (switch_sameConsole k).output room
      exact ⟨order, accepted, room, reach⟩
  · exact (called.sameConsole getc notPutc).1.output room

theorem Called.output (called : Called k context b recs code k' b' recs')
    (room : k.console.sendCnt ≤ consoleBufferSize) : ∃ new, k.OutputStep k' new := by
  by_cases putc : code = syscallPutc
  · subst putc
    cases called with
    | unknown none => exact absurd (by decide) none
    | putcAccepted accepted =>
      rcases putc_spec room (charOf (k.context context regA1)) with ⟨full, -, -⟩ | ⟨-, h⟩
      · rw [full] at accepted
        cases accepted
      · exact ⟨[(k.scheduler.threadCurrent, charOf (k.context context regA1))],
          h.order, rfl, h.cnt, h.reach⟩
    | putcRefused refused =>
      rcases putc_spec room (charOf (k.context context regA1)) with ⟨-, -, sent⟩ | ⟨zero, -⟩
      · let k₁ := k.putcRefused (charOf (k.context context regA1))
        have same := dispatch_sameConsole k₁
        refine ⟨[], @outputStep_of_sent _ _ [] ?_ same.accepted room⟩
        rw [same.console]
        exact sent
      · exact absurd zero refused
  · exact ⟨[], called.noOutput room putc⟩

theorem getcByte_unread {k : Kernel} (some : k.console.receiveCnt ≠ 0) :
    k.console.unread = k.console.receiveBuffer.data 0 :: k.getcByte.console.unread := by
  have shift := firsts_shift (k.console.receiveBuffer.touch 0)
    (by omega : 1 ≤ k.console.receiveCnt)
  exact shift

theorem Called.input (called : Called k context b recs code k' b' recs')
    (room : k.console.receiveCnt ≤ consoleBufferSize)
    (sendRoom : k.console.sendCnt ≤ consoleBufferSize) : ∃ input bytes blocked,
      k.InputStep k' (b.queue .input) (b'.queue .input) input bytes [] blocked := by
  by_cases getc : code = syscallGetc
  · subst getc
    cases called with
    | unknown none => exact absurd (by decide) none
    | getcByte some =>
      have reach := shift_reach 1 (k.console.receiveCnt - 1) (k.console.receiveBuffer.touch 0)
      have touched : (k.console.receiveBuffer.touch 0).reach =
        max k.console.receiveBuffer.reach 1 := rfl
      refine ⟨[], [k.console.receiveBuffer.data 0], [], (List.append_nil _).symm, ?_, rfl, ?_,
        ?_, ⟨_, rfl, (List.append_nil _).symm⟩, (List.append_nil _).symm,
        (List.append_nil _).symm, by simp, fun h h' => absurd (h h') some⟩
      · rw [List.append_nil]
        exact getcByte_unread some
      · show k.console.receiveCnt - 1 ≤ _
        omega
      · show ((k.console.receiveBuffer.touch 0).shift 1 (k.console.receiveCnt - 1)).reach ≤ _
        omega
    | getcBlocked none queue =>
      have same := switch_sameConsole k
      have waiting : b'.queue .input = b.queue .input ++ [k.scheduler.threadCurrent] := by
        simp [queue]
      have step := same.input (b.queue .input) room
      refine ⟨[], [], [k.scheduler.threadCurrent], step.received, step.unread, step.handed,
        step.room, step.reach, ⟨_, rfl, waiting⟩, ?_, step.served, by simp, ?_⟩
      · show (switch k).hist.inputBlocked ++ _ = _
        rw [switch_hist]
      · intro _ _
        show (switch k).console.receiveCnt = 0
        rw [switch_console, none]
  by_cases putc : code = syscallPutc
  · subst putc
    refine ⟨[], [], [], ?_⟩
    have input : SameInput k.console (k.console.putc (charOf (k.context context regA1))).2 := by
      rcases putc_spec sendRoom (charOf (k.context context regA1)) with ⟨-, -, sent⟩ | ⟨-, h⟩
      · exact sent.input
      · exact h.input
    cases called with
    | unknown none => exact absurd (by decide) none
    | putcAccepted =>
      exact @inputStep_of_same k (k.putcAccepted _) input ⟨rfl, rfl, rfl⟩ _ room
    | putcRefused _ queue =>
      have same := dispatch_sameConsole (k.putcRefused (charOf (k.context context regA1)))
      have waiting : b'.queue .input = b.queue .input := by simp [queue]
      rw [waiting]
      refine inputStep_of_same (k := k) ?_ ⟨same.handed, same.inputBlocked, same.served⟩ _ room
      rw [same.console]
      exact input
  · obtain ⟨same, waiting⟩ := called.sameConsole getc putc
    rw [waiting]
    exact ⟨[], [], [], same.input _ room⟩

end

section
variable {k k' : Kernel} {b b' : Threads} {recs recs' : List Nat}

theorem ticked_sameConsole {k k₁ : Kernel} {gone left : List Nat}
    (ticked : k.Ticked k₁ recs gone left) : k.SameConsole k₁ := by
  have same := pushAll_sameConsole { k with sleeping := k₁.sleeping }
    (gone.map fun r => (k.sleeping r).thread)
  rw [ticked.frame]
  exact ⟨same.console, same.handed, same.inputBlocked, same.served, same.accepted⟩

theorem Handled.noOutput (handled : Handled k b recs k' b' recs')
    (room : k.console.sendCnt ≤ consoleBufferSize) (notPutc : k.hart.scause = irqEcallUser →
      k.context k.hart.sscratch regA0 ≠ syscallPutc) : k.OutputStep k' [] := by
  cases handled with
  | ignored => exact Kernel.SameConsole.output (.of_hist rfl rfl) room
  | console _ _ _ delivered =>
    obtain ⟨chars, sent⟩ := send_spec (consoleReceive k).console
    have output := delivered.output
    have := sent.cnt
    have := sent.reach
    have := output.cnt
    have buffer := output.buffer
    refine ⟨?_, ?_, ?_, ?_⟩
    · rw [← output.transmitted, ← output.unsent, List.map_nil, List.append_nil]
      exact sent.order
    · show (consoleReceive k).hist.accepted = _
      rw [delivered.frame]
      simp
    · show (consoleReceive k).console.send.sendCnt ≤ _
      omega
    · show (consoleReceive k).console.send.sendBuffer.reach ≤ _
      rw [← buffer]
      omega
  | ticked _ ticked =>
    exact ((ticked_sameConsole ticked).trans (spend_sameConsole _)).output room
  | preempted _ ticked =>
    exact ((ticked_sameConsole ticked).trans (dispatch_sameConsole _)).output room
  | called user called =>
    obtain ⟨order, accepted, room, reach⟩ := called.noOutput room (notPutc user)
    exact ⟨order, accepted, room, reach⟩
  | mainIgnored => exact Kernel.SameConsole.output ⟨rfl, rfl, rfl, rfl, rfl⟩ room
  | mainDispatched =>
    refine Kernel.SameConsole.output ?_ room
    exact Kernel.SameConsole.trans (m := bumpSepc k 4) ⟨rfl, rfl, rfl, rfl, rfl⟩
      (switch_sameConsole _)

theorem Handled.output (handled : Handled k b recs k' b' recs')
    (room : k.console.sendCnt ≤ consoleBufferSize) : ∃ new, k.OutputStep k' new := by
  by_cases user : k.hart.scause = irqEcallUser
  · obtain ⟨new, h⟩ := (handled.userCall user).output room
    exact ⟨new, h.order, h.accepted, h.room, h.reach⟩
  · exact ⟨[], handled.noOutput room fun h => absurd h user⟩

theorem Handled.input (handled : Handled k b recs k' b' recs')
    (room : k.console.receiveCnt ≤ consoleBufferSize)
    (sendRoom : k.console.sendCnt ≤ consoleBufferSize) : ∃ input bytes ws blocked,
      k.InputStep k' (b.queue .input) (b'.queue .input) input bytes ws blocked := by
  have quiet : ∀ k', k.SameConsole k' → b'.queue .input = b.queue .input →
      ∃ input bytes ws blocked,
        k.InputStep k' (b.queue .input) (b'.queue .input) input bytes ws blocked :=
    fun k' same waiting => ⟨[], [], [], [], waiting ▸ same.input _ room⟩
  cases handled with
  | ignored => exact quiet k (.of_hist rfl rfl) rfl
  | @console ws rest input bytes b' cause waiting empty delivered queue =>
    obtain ⟨chars, sent⟩ := send_spec (consoleReceive k).console
    have same := sent.input
    have rest_eq : b'.queue .input = rest := by simp [queue]
    have frame := delivered.frame
    refine ⟨input, bytes, ws, [], ?_, ?_, ?_, ?_, ?_, ⟨rest, waiting, by simp [rest_eq]⟩, ?_, ?_,
      fun _ => ⟨delivered.length, ?_, ?_, ?_, ?_⟩, ?_⟩
    · exact same.received.trans delivered.received
    · rw [delivered.unread]
      exact congrArg (bytes ++ ·) same.unread.symm
    · show (consoleReceive k).hist.handed = _
      rw [frame]
    · exact same.cnt.trans_le delivered.room
    · have reach : (consoleReceive k).console.send.receiveBuffer.reach =
          (consoleReceive k).console.receiveBuffer.reach := congrArg Buffer.reach same.buffer
      show (consoleReceive k).console.send.receiveBuffer.reach ≤ _
      rw [reach]
      exact delivered.reach
    · show (consoleReceive k).hist.inputBlocked = _
      rw [frame]
      simp
    · show (consoleReceive k).hist.served = _
      rw [frame]
    · show (consoleReceive k).mem = _
      rw [frame]
    · show (consoleReceive k).hist.pushed = _
      rw [frame]
    · exact delivered.saved_eq
    · show (consoleReceive k).scheduler.threadCurrent = _
      rw [frame]
    · intro _ h
      rw [rest_eq] at h
      exact same.cnt.trans (empty h)
  | ticked _ ticked queue =>
    exact quiet _ ((ticked_sameConsole ticked).trans (spend_sameConsole _)) (by simp [queue])
  | preempted _ ticked queue =>
    exact quiet _ ((ticked_sameConsole ticked).trans (dispatch_sameConsole _)) (by simp [queue])
  | called _ called =>
    obtain ⟨input, bytes, blocked, h⟩ := called.input room sendRoom
    exact ⟨input, bytes, [], blocked, { h with given := by simp }⟩
  | mainIgnored => exact quiet _ ⟨rfl, rfl, rfl, rfl, rfl⟩ rfl
  | mainDispatched _ queue =>
    refine quiet _ ?_ (by simp [queue])
    exact Kernel.SameConsole.trans (m := bumpSepc k 4) ⟨rfl, rfl, rfl, rfl, rfl⟩
      (switch_sameConsole _)

end

end RiscvKernel
