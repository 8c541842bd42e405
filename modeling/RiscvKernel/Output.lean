import RiscvKernel.Conservation

/-!
# Console output is sent in order

The characters written to the device and those in the send buffer are those that
were accepted.

* `Kernel.OutputInOrder`: the output between two traps;
* `Trap.Outputs`: what a trap does to the output;
* `Handled.outputs`: every trap does so.
-/

namespace RiscvKernel
open Function Intrusive Placement Console

/-- What was written to `CONSOLE_TX_DATA` and what waits to be. -/
def Kernel.output (k : Kernel) : List UInt8 := k.console.device.transmitted ++ k.console.unsent

/-- The output between two traps. -/
structure Kernel.OutputInOrder (k : Kernel) : Prop where
  order : k.output = k.hist.accepted.map Prod.snd
  room : k.console.sendCnt ≤ consoleBufferSize
  inside : k.console.sendBuffer.reach ≤ consoleBufferSize

/-- The `putc` of a trap is accepted, and its thread goes on behind the `ecall`. -/
structure Trap.Accepted (tr : Trap) (k k' : Kernel) : Prop where
  output : k'.output = k.output ++ [charOf (tr.regs regA1)]
  accepted : k'.hist.accepted =
    k.hist.accepted ++ [(k.scheduler.threadCurrent, charOf (tr.regs regA1))]
  current : k'.scheduler.threadCurrent = k.scheduler.threadCurrent
  behind : k'.saved k.scheduler.threadCurrent = ⟨tr.frame, u64 (tr.sepc + 4), tr.sstatus⟩

/-- The `putc` of a trap is refused: the buffer stays as it was, and the thread goes to
the end of the ready queue and back to the `ecall`. -/
structure Trap.Refused (tr : Trap) (k k' : Kernel) : Prop
    extends SentNothing k.console k'.console where
  accepted : k'.hist.accepted = k.hist.accepted
  queued : ∀ ready, IsRing k.links k.scheduler.readyThreads ready →
    ∃ ready', IsRing k'.links k'.scheduler.readyThreads ready' ∧
      k'.scheduler.threadCurrent :: ready' = ready ++ [k.scheduler.threadCurrent]
  back : k'.saved k.scheduler.threadCurrent = ⟨tr.frame, u64 tr.sepc, tr.sstatus⟩
  past : k'.hist.past k.scheduler.threadCurrent =
    .trapped tr.scause tr.sepc tr.sstatus tr.regs true

/-- What a trap does to the output. -/
structure Trap.Outputs (tr : Trap) (k k' : Kernel) : Prop where
  other : ¬ tr.Calls syscallPutc → k'.output = k.output ∧ k'.hist.accepted = k.hist.accepted
  refused : tr.Calls syscallPutc → k.console.Refuses → tr.Refused k k'
  accepted : tr.Calls syscallPutc → ¬ k.console.Refuses → tr.Accepted k k'

section
variable {k k' : Kernel} {tr : Trap} {b b' : Threads} {recs recs' : List Nat}

theorem Kernel.Booted.outputInOrder {k₀ : Kernel} {p stackSpace : Nat}
    (booted : k₀.Booted k b p stackSpace) (platform : k₀.Platform) : k.OutputInOrder := by
  obtain ⟨transmitted, accepted⟩ := platform.noOutput
  have console := booted.console
  have hist := booted.hist
  refine ⟨?_, ?_, ?_⟩
  · unfold Kernel.output
    rw [console, hist]
    simp [Console.unsent, transmitted, accepted]
  · rw [console]
    exact Nat.zero_le _
  · rw [console]
    simp [platform.untouched.2]

theorem Kernel.OutputStep.keeps {new : List (Nat × UInt8)} (step : k.OutputStep k' new)
    (inv : k.OutputInOrder) : k'.OutputInOrder where
  order := by
    have order : k'.output = k.output ++ new.map Prod.snd := step.order
    rw [order, inv.order, step.accepted, List.map_append]
  room := step.room
  inside := by
    have := step.reach
    have := inv.inside
    omega

/-! ## The steps -/

/-- The thread that `dispatch` gives the hart to, and the ready queue it leaves. -/
theorem dispatch_current {ready : List Nat} (ring : IsRing k.links k.scheduler.readyThreads ready)
    (nonzero : k.scheduler.threadCurrent ≠ 0) :
    (dispatch k).scheduler.threadCurrent :: (ready ++ [k.scheduler.threadCurrent]).tail =
      ready ++ [k.scheduler.threadCurrent] := by
  let k₁ := schedulerPush k k.scheduler.threadCurrent
  have head : k₁.view.head .ready =
      (k.links.push k.scheduler.readyThreads k.scheduler.threadCurrent).2 := by
    have view : k₁.view = (k.view.setSlice k.scheduler.threadCurrent defaultTimeSlice).enqueue
      .ready k.scheduler.threadCurrent := schedulerPush_view ..
    rw [view]
    show update k.head .ready
      (k.links.push k.scheduler.readyThreads k.scheduler.threadCurrent).2 .ready = _
    rw [update_self]
  have current : k₁.view.head .ready ≠ 0 →
      (dispatch k).scheduler.threadCurrent = k₁.view.head .ready := fun first => by
    rw [dispatch_eq]
    unfold switch
    rw [yield_scheduler]
    exact (schedulerNext_first k₁ first).2.1
  cases ready with
  | nil =>
    have empty : k.scheduler.readyThreads = 0 := ring
    rw [Links.push, if_pos empty] at head
    rw [current (head ▸ nonzero), head]
    rfl
  | cons r rs =>
    have first : k.scheduler.readyThreads ≠ 0 := fun null => by
      simpa using ring.head_null.mp null
    rw [Links.push, if_neg first] at head
    rw [current (head ▸ first), head, ring.head_eq]
    rfl

theorem putcRefused_rings (k : Kernel) (ch : UInt8) :
    (k.putcRefused ch).links = k.links ∧ (k.putcRefused ch).scheduler = k.scheduler := ⟨rfl, rfl⟩

/-- A `putc` that is refused. -/
theorem refused_outputs {ch : UInt8} (refuses : k.console.Refuses) (rest : k.Rest b recs)
    (rest' : (leave (dispatch ((bumpSepc (enter k tr) 4).putcRefused ch))).Rest b' recs')
    (queue : b'.queue = update b.queue .ready
      (b.queue .ready ++ [k.scheduler.threadCurrent]).tail) :
    tr.Refused k (leave (dispatch ((bumpSepc (enter k tr) 4).putcRefused ch))) := by
  obtain ⟨saved, -, past⟩ := putcRefused_dispatched (bumpSepc (enter k tr) 4) ch
  have same := dispatch_sameConsole ((bumpSepc (enter k tr) 4).putcRefused ch)
  obtain ⟨-, nothing⟩ := putc_refused refuses ch
  generalize made : (bumpSepc (enter k tr) 4).putcRefused ch = k₁ at *
  have console : (leave (dispatch k₁)).console = (k.console.putc ch).2 := by
    refine same.console.trans ?_
    rw [← made]
    rfl
  refine ⟨console ▸ nothing, ?_, fun ready ring => ?_, ?_, ?_⟩
  · refine same.accepted.trans ?_
    rw [← made]
    rfl
  · have links := putcRefused_rings (bumpSepc (enter k tr) 4) ch
    have before : (bumpSepc (enter k tr) 4).links = k.links ∧
        (bumpSepc (enter k tr) 4).scheduler = k.scheduler := ⟨rfl, rfl⟩
    rw [made, before.1, before.2] at links
    have ready_eq : ready = b.queue .ready := ring.unique (rest.places.rings.ring .ready trivial)
    have ring₁ : IsRing k₁.links k₁.scheduler.readyThreads ready := by rwa [links.1, links.2]
    have current := dispatch_current ring₁
      (links.2 ▸ thread_pos rest.inv.owns rest.inv.current_thread)
    rw [links.2] at current
    refine ⟨_, rest'.places.rings.ring .ready trivial, ?_⟩
    have same : (leave (dispatch k₁)).scheduler = (dispatch k₁).scheduler := rfl
    rw [queue, update_self, ← ready_eq, same]
    exact current
  · have saved := congrFun saved k.scheduler.threadCurrent
    have same : (leave (dispatch k₁)).saved = (dispatch k₁).saved := rfl
    rw [same, saved]
    refine (update_self ..).trans ?_
    have pc : u64 (u64 (tr.sepc + 4) - 4) = u64 tr.sepc := by
      unfold u64
      omega
    exact congrArg (Saved.mk tr.frame · tr.sstatus) pc
  · have before : (bumpSepc (enter k tr) 4).hist.past k.scheduler.threadCurrent =
        .trapped tr.scause tr.sepc tr.sstatus tr.regs false := update_self ..
    have same : (leave (dispatch k₁)).hist.past = (dispatch k₁).hist.past := rfl
    rw [same, past]
    refine (update_self ..).trans ?_
    exact congrArg Past.refuse before

/-- A `putc` that is accepted. -/
theorem accepted_outputs {ch : UInt8} (accepts : ¬ k.console.Refuses) (rest : k.Rest b recs)
    (char : ch = charOf (tr.regs regA1)) :
    tr.Accepted k (leave ((bumpSepc (enter k tr) 4).putcAccepted ch)) := by
  subst char
  obtain ⟨-, accepted⟩ := putc_accepted accepts rest.sendRoom (charOf (tr.regs regA1))
  exact ⟨accepted.order, rfl, rfl,
    saved_current ((bumpSepc (enter k tr) 4).putcAccepted (charOf (tr.regs regA1)))⟩

/-- **Step.** -/
theorem Handled.outputs {k₁ : Kernel} (handled : Handled (enter k tr) b recs k₁ b' recs')
    (rest : k.Rest b recs) (rest' : (leave k₁).Rest b' recs') : tr.Outputs k (leave k₁) where
  other notPutc := by
    have step := handled.noOutput rest.sendRoom fun user putc => notPutc ⟨user, by
      rwa [← enter_arg k tr (i := regA0) (by decide) (by decide)]⟩
    have order : (leave k₁).output = k.output ++ [] := step.order
    have accepted : (leave k₁).hist.accepted = k.hist.accepted ++ [] := step.accepted
    rw [List.append_nil] at order accepted
    exact ⟨order, accepted⟩
  refused call refuses := by
    cases handled.call call with
    | unknown none => exact absurd (by decide) none
    | putcAccepted accepted =>
      obtain ⟨full, -⟩ := putc_refused refuses
        (charOf ((bumpSepc (enter k tr) 4).context tr.frame regA1))
      exact absurd (full.symm.trans accepted) (by decide)
    | putcRefused _ queue => exact refused_outputs refuses rest rest' queue
  accepted call accepts := by
    cases handled.call call with
    | unknown none => exact absurd (by decide) none
    | putcAccepted => exact accepted_outputs accepts rest (congrArg charOf called_arg)
    | putcRefused refused =>
      obtain ⟨zero, -⟩ := putc_accepted accepts rest.sendRoom
        (charOf ((bumpSepc (enter k tr) 4).context tr.frame regA1))
      exact absurd zero refused

end

end RiscvKernel
