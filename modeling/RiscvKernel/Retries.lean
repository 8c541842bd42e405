import RiscvKernel.Output
import RiscvKernel.Resumes

/-!
# Calls of `putc` that are made again

A refused `putc` comes back to its `ecall` with the registers of the call.

* `Handled.keepsReady`: whoever is in the ready queue stays there until it runs;
* `Puts`: runs with the calls of `putc` and those of them that have not returned;
* `output_in_order`: the characters of the calls that returned are accepted once, in order.
-/

namespace RiscvKernel
open Function Intrusive Placement Console

/-! ## The ready queue -/

/-- Whoever is in the ready queue stays there or runs. -/
def KeepsReady (k' : Kernel) (b b' : Threads) : Prop :=
  ∀ t ∈ b.queue .ready, t = k'.scheduler.threadCurrent ∨ t ∈ b'.queue .ready

theorem switch_first {k : Kernel} (first : k.scheduler.readyThreads ≠ 0) :
    (switch k).scheduler.threadCurrent = k.scheduler.readyThreads := by
  unfold switch
  rw [yield_scheduler]
  exact (schedulerNext_first k first).2.1

theorem schedulerPush_first {k : Kernel} (first : k.scheduler.readyThreads ≠ 0) (t : Nat) :
    (schedulerPush k t).scheduler.readyThreads = k.scheduler.readyThreads := by
  show (k.links.push k.scheduler.readyThreads t).2 = _
  rw [Links.push, if_neg first]

theorem dispatch_first {k : Kernel} (first : k.scheduler.readyThreads ≠ 0) :
    (dispatch k).scheduler.threadCurrent = k.scheduler.readyThreads := by
  have push := schedulerPush_first first k.scheduler.threadCurrent
  rw [dispatch_eq, switch_first (push ▸ first), push]

theorem pushAll_first {k : Kernel} (first : k.scheduler.readyThreads ≠ 0) (ts : List Nat) :
    (pushAll k ts).scheduler.readyThreads = k.scheduler.readyThreads := by
  induction ts generalizing k with
  | nil => rfl
  | cons t ts ih =>
    have push := schedulerPush_first first t
    rw [pushAll_cons, ih (push ▸ first), push]

section
variable {k k' : Kernel} {b b' : Threads} {recs recs' : List Nat} {context code : Nat}

theorem keepsReady_append (ts : List Nat) (queue : b'.queue .ready = b.queue .ready ++ ts) :
    KeepsReady k' b b' := fun _ ht => Or.inr (queue ▸ List.mem_append_left ts ht)

theorem keepsReady_tail (ts : List Nat)
    (ring : IsRing k.links k.scheduler.readyThreads (b.queue .ready))
    (queue : b'.queue .ready = (b.queue .ready ++ ts).tail)
    (first : k.scheduler.readyThreads ≠ 0 →
      k'.scheduler.threadCurrent = k.scheduler.readyThreads) : KeepsReady k' b b' := by
  intro t ht
  cases ready : b.queue .ready with
  | nil =>
    rw [ready] at ht
    exact absurd ht List.not_mem_nil
  | cons r rs =>
    rw [ready] at ring queue ht
    have some : k.scheduler.readyThreads ≠ 0 := ring.head_null.not.mpr (by simp)
    rw [first some, queue, ring.head_eq]
    exact (List.mem_cons.mp ht).imp_right fun h => List.mem_append_left ts h

theorem Called.keepsReady (called : Called k context b recs code k' b' recs')
    (ring : IsRing k.links k.scheduler.readyThreads (b.queue .ready)) : KeepsReady k' b b' := by
  cases called with
  | getcBlocked none queue => exact keepsReady_tail [] ring (by simp [queue]) switch_first
  | putcRefused _ queue =>
    exact keepsReady_tail [k.scheduler.threadCurrent] ring (by simp [queue])
      (@dispatch_first (k.putcRefused _))
  | @created p b' _ _ _ _ queue => exact keepsReady_append [p] (by simp [queue])
  | exited _ queue =>
    exact keepsReady_tail [] ring (by simp [queue])
      (@switch_first ((schedulerUserThreadDecrement k).note _))
  | dispatched queue =>
    exact keepsReady_tail [k.scheduler.threadCurrent] ring (by simp [queue]) dispatch_first
  | @closed s b' _ _ queue => exact keepsReady_append (b.queue (.sem s)) (by simp [queue])
  | @blocked s b' _ _ queue =>
    exact keepsReady_tail [] ring (by simp [queue]) (@switch_first (k.waited s))
  | @woke s w ws b' _ _ _ queue => exact keepsReady_append [w] (by simp [queue])
  | @slept k₁ p front back b' put queue =>
    have same : k₁.scheduler.readyThreads = k.scheduler.readyThreads := by
      rw [put.frame]
      rfl
    exact keepsReady_tail [] ring (by simp [queue]) (same ▸ @switch_first k₁)
  | _ => exact keepsReady_append [] (List.append_nil _).symm

theorem ticked_first {k₁ : Kernel} {gone left : List Nat} (ticked : k.Ticked k₁ recs gone left)
    (first : k.scheduler.readyThreads ≠ 0) :
    k₁.scheduler.readyThreads = k.scheduler.readyThreads := by
  rw [ticked.frame]
  exact pushAll_first (k := { k with sleeping := k₁.sleeping }) first _

theorem Handled.keepsReady (handled : Handled k b recs k' b' recs')
    (ring : IsRing k.links k.scheduler.readyThreads (b.queue .ready)) : KeepsReady k' b b' := by
  cases handled with
  | ignored => exact keepsReady_append [] (List.append_nil _).symm
  | @console ws rest input bytes b' _ _ _ _ queue => exact keepsReady_append ws (by simp [queue])
  | ticked _ _ queue => exact keepsReady_append _ (by rw [queue, update_self])
  | @preempted k₁ gone left b' _ ticked queue =>
    refine keepsReady_tail (gone.map (fun r => (k.sleeping r).thread) ++
      [k.scheduler.threadCurrent]) ring (by simp [queue]) fun first => ?_
    have same := ticked_first ticked first
    rw [dispatch_first (same ▸ first), same]
  | called _ called => exact called.keepsReady ring
  | mainIgnored => exact keepsReady_append [] (List.append_nil _).symm
  | mainDispatched _ queue =>
    exact keepsReady_tail [] ring (by simp [queue]) (@switch_first (bumpSepc k 4))

/-- Whoever is interrupted goes on or is ready. -/
theorem Handled.keepsCurrent (handled : Handled k b recs k' b' recs') (inv : k.Inv b recs)
    (notUser : k.hart.scause ≠ irqEcallUser) (notKernel : k.hart.scause ≠ irqEcallKernel) :
    k.scheduler.threadCurrent = k'.scheduler.threadCurrent ∨
      k.scheduler.threadCurrent ∈ b'.queue .ready := by
  cases handled with
  | ignored => exact Or.inl rfl
  | console _ _ _ delivered =>
    refine Or.inl ?_
    show _ = (consoleReceive k).scheduler.threadCurrent
    rw [delivered.frame]
  | ticked _ ticked => exact Or.inl (ticked_current ticked).symm
  | @preempted k₁ gone left b' _ ticked queue =>
    have current := ticked_current ticked
    cases front : b.queue .ready ++ gone.map fun r => (k.sleeping r).thread with
    | nil =>
      obtain ⟨none, nobody⟩ := List.append_eq_nil_iff.mp front
      have empty : k₁.scheduler.readyThreads = 0 := by
        rw [ticked.frame, nobody]
        exact (inv.places.rings.ring .ready trivial).head_null.mpr none
      have alone := @dispatch_current k₁ [] empty
        (current ▸ thread_pos inv.owns inv.current_thread)
      exact Or.inl (current.symm.trans (List.cons.inj alone).1.symm)
    | cons r rs => exact Or.inr (by simp [queue, front])
  | called cause => exact absurd cause notUser
  | mainIgnored cause => exact absurd cause notKernel
  | mainDispatched cause => exact absurd cause notKernel

end

/-! ## Calls -/

/-- The character of a call of `putc`. -/
def Trap.char (tr : Trap) : UInt8 := charOf (tr.regs regA1)

/-- The characters of the thread `t`, in order. -/
def charsOf (t : Nat) (l : List (Nat × UInt8)) : List UInt8 :=
  (l.filter fun x => x.1 = t).map Prod.snd

/-- The hart executes user code: a system call comes from an `ecall` instruction, at one of
the addresses `ecall`, and a thread that goes on at one traps there, before it changes
anything. -/
structure Trap.Executes (tr : Trap) (ecall : Nat → Prop) (k : Kernel) : Prop where
  call : tr.scause = irqEcallUser → ecall tr.sepc
  waits : k.hart.supervisor = false → ecall (resume k).pc →
    tr.sepc = (resume k).pc ∧ ∀ i < 32, i ≠ 0 → tr.regs i = (resume k).regs i

/-- The trap is one that user code may make. -/
structure Trap.Made (tr : Trap) (ecall : Nat → Prop) (k k' : Kernel) : Prop where
  fits : tr.Fits k
  spares : k.Spares tr
  executes : tr.Executes ecall k
  taken : trap k tr = .ok k'

/-- What waits of a `putc` after a trap: nothing when its thread goes on behind the `ecall`. -/
def Trap.unreturned (tr : Trap) (k k' : Kernel) : Option Trap :=
  if (k'.saved k.scheduler.threadCurrent).sepc = u64 (tr.sepc + 4) then none else some tr

/-- The runs of a machine, with the calls of `putc` that were made, in order, and those
that have not returned. A trap of a thread whose call has not returned is no new call. -/
inductive Puts (ecall : Nat → Prop) (k₀ : Kernel) :
    Kernel → List (Nat × UInt8) → (Nat → Option Trap) → Prop
  | boot {k} (platform : k₀.Platform) (booted : boot k₀ = .ok k) :
      Puts ecall k₀ k [] fun _ => none
  | other {k k' calls pending} {tr : Trap} (before : Puts ecall k₀ k calls pending)
      (made : tr.Made ecall k k') (notPutc : ¬ tr.Calls syscallPutc) :
      Puts ecall k₀ k' calls pending
  | first {k k' calls pending} {tr : Trap} (before : Puts ecall k₀ k calls pending)
      (made : tr.Made ecall k k') (call : tr.Calls syscallPutc)
      (none : pending k.scheduler.threadCurrent = none) :
      Puts ecall k₀ k' (calls ++ [(k.scheduler.threadCurrent, tr.char)])
        (update pending k.scheduler.threadCurrent (tr.unreturned k k'))
  | again {k k' calls pending tr₀} {tr : Trap} (before : Puts ecall k₀ k calls pending)
      (made : tr.Made ecall k k') (call : tr.Calls syscallPutc)
      (some : pending k.scheduler.threadCurrent = some tr₀) :
      Puts ecall k₀ k' calls (update pending k.scheduler.threadCurrent (tr.unreturned k k'))

/-- The hart goes on at the `ecall` of the call, with its registers. -/
def Resume.Repeats (r : Resume) (tr : Trap) : Prop :=
  r.pc = tr.sepc ∧ ∀ i < 32, i ≠ 0 → r.regs i = tr.regs i

/-- A thread with this past is at the `ecall` of the call, with its registers. -/
inductive Past.Repeats (image : Image) (tr : Trap) : Past → Prop
  | trapped {scause sepc sstatus regs refused}
      (pc : Past.pc image (.trapped scause sepc sstatus regs refused) = tr.sepc)
      (same : ∀ i < 32, i ≠ 0 → regs i = tr.regs i) :
      Repeats image tr (.trapped scause sepc sstatus regs refused)

theorem Past.Repeats.resumes {image : Image} {tr : Trap} {past : Past} {r : Resume}
    (repeats : past.Repeats image tr) (call : tr.Calls syscallPutc)
    (resumes : past.Resumes image r) : r.Repeats tr := by
  cases repeats with
  | @trapped scause sepc sstatus regs refused pc same =>
    cases resumes with
    | trapped pc' _ kept =>
      refine ⟨pc'.trans pc, fun i lt nonzero => (kept i lt nonzero ?_).trans (same i lt nonzero)⟩
      rintro rfl ⟨-, answered⟩
      -- `putc` does not define `a0`
      rw [same regA0 lt nonzero, call.2] at answered
      exact absurd answered (by decide)

/-- The call `tr` of the thread `t` has not returned: the thread is ready or runs, and goes on
at its `ecall`. -/
structure Kernel.Waits (k : Kernel) (ecall : Nat → Prop) (b : Threads) (t : Nat) (tr : Trap) :
    Prop where
  call : tr.Calls syscallPutc
  here : ecall tr.sepc
  user : t ≠ k.scheduler.kernelMain
  place : t = k.scheduler.threadCurrent ∨ t ∈ b.queue .ready
  past : (k.hist.past t).Repeats k.image tr
  running : t = k.scheduler.threadCurrent → (resume k).Repeats tr

section
variable {ecall : Nat → Prop} {k k₁ : Kernel} {tr tr₀ : Trap} {b b' : Threads}
  {recs recs' : List Nat} {t : Nat}

/-- The past of a thread that did not trap. -/
theorem Handled.past_other (handled : Handled (enter k tr) b recs k₁ b' recs')
    (thread : k.view.Thread t) (ne : t ≠ k.scheduler.threadCurrent) :
    k₁.hist.past t = k.hist.past t := by
  have entered : ∀ {k₂}, Entered (enter k tr) k₂ → k₂.hist.past t = k.hist.past t ∧
      k₂.scheduler = k.scheduler ∧ k₂.hist.live = k.hist.live := fun entered => by
    obtain ⟨-, hist, -, scheduler, -⟩ := entered.saves
    refine ⟨?_, scheduler, ?_⟩
    · rw [hist]
      exact update_of_ne ne ..
    · rw [hist]
      rfl
  obtain ⟨k₂, enters, after⟩ := handled.threads
  obtain ⟨past, scheduler, live⟩ := entered enters
  cases after with
  | same _ _ same => rw [same, past]
  | refused _ _ refused => rw [refused, scheduler, update_of_ne ne, past]
  | created p _ _ _ notLive notMain _ _ created =>
    rw [live] at notLive
    rw [scheduler] at notMain
    have old : t ≠ p := fun new => thread.elim (new ▸ notLive) (new ▸ notMain)
    rw [created, update_of_ne old, past]

/-- A thread that waits with its call while another one traps. -/
theorem Kernel.Waits.other (waits : k.Waits ecall b t tr₀) (rest : k.Rest b recs)
    (frames : k.Frames b k.Parked) (made : tr.Made ecall k (leave k₁))
    (handled : Handled (enter k tr) b recs k₁ b' recs') (rest' : (leave k₁).Rest b' recs')
    (ne : t ≠ k.scheduler.threadCurrent) : (leave k₁).Waits ecall b' t tr₀ := by
  have ready := waits.place.resolve_left ne
  have thread : k.view.Thread t := rest.inv.places.known (by rw [b.mem_queue.mp ready]; simp)
  have image : k₁.image = k.image := handled.image
  have past : (k₁.hist.past t).Repeats k₁.image tr₀ := by
    rw [handled.past_other thread ne, image]
    exact waits.past
  refine ⟨waits.call, waits.here, fun main => waits.user (main.trans handled.main),
    handled.keepsReady (rest.inv.places.rings.ring .ready trivial) t ready, past, ?_⟩
  rintro rfl
  have frames' := trap_frames frames rest.inv made.spares made.fits handled
  exact past.resumes waits.call
    (frames'.framed _ ⟨rest'.inv.current_thread, fun same => absurd same ne⟩).resumes

/-- A thread that goes on at its `ecall` makes its call again, or is interrupted before. -/
theorem Kernel.Waits.again (waits : k.Waits ecall b k.scheduler.threadCurrent tr₀)
    (rest : k.Rest b recs) (fits : tr.Fits k) (executes : tr.Executes ecall k) :
    (tr.sepc = tr₀.sepc ∧ ∀ i < 32, i ≠ 0 → tr.regs i = tr₀.regs i) ∧
      (tr.scause = irqEcallUser → tr.Calls syscallPutc) ∧ tr.scause ≠ irqEcallKernel := by
  have mode : k.hart.supervisor = false := rest.supervisor.trans (decide_eq_false waits.user)
  obtain ⟨pc, same⟩ := waits.running rfl
  obtain ⟨sepc, regs⟩ := executes.waits mode (pc ▸ waits.here)
  have regs' : ∀ i < 32, i ≠ 0 → tr.regs i = tr₀.regs i := fun i lt nonzero =>
    (regs i lt nonzero).trans (same i lt nonzero)
  refine ⟨⟨sepc.trans pc, regs'⟩, fun user => ⟨user, ?_⟩, fun kernel => ?_⟩
  · exact (regs' regA0 (by decide) (by decide)).trans waits.call.2
  · exact absurd (mode.symm.trans (fits.kernelCall kernel)) (by decide)

/-- The thread is interrupted at its `ecall`. -/
theorem Kernel.Waits.interrupted (waits : k.Waits ecall b k.scheduler.threadCurrent tr₀)
    (rest : k.Rest b recs) (frames : k.Frames b k.Parked) (made : tr.Made ecall k (leave k₁))
    (handled : Handled (enter k tr) b recs k₁ b' recs') (notPutc : ¬ tr.Calls syscallPutc) :
    (leave k₁).Waits ecall b' k.scheduler.threadCurrent tr₀ := by
  obtain ⟨⟨sepc, regs⟩, calls, notKernel⟩ := waits.again rest made.fits made.executes
  have notUser : tr.scause ≠ irqEcallUser := fun user => notPutc (calls user)
  have image : k₁.image = k.image := handled.image
  have past : (k₁.hist.past k.scheduler.threadCurrent).Repeats k₁.image tr₀ := by
    obtain ⟨k₂, entered, -, -, past⟩ := handled.quiet notUser
    obtain ⟨-, hist, -⟩ := entered.saves
    have last : k₁.hist.past k.scheduler.threadCurrent =
        .trapped tr.scause tr.sepc tr.sstatus tr.regs false := by
      rw [past, hist]
      exact update_self ..
    rw [last]
    refine .trapped ?_ regs
    rw [Past.pc, if_neg fun ecall => ecall.1.elim notUser notKernel, sepc]
  refine ⟨waits.call, waits.here, fun main => waits.user (main.trans handled.main),
    handled.keepsCurrent (enter_inv rest.inv tr) notUser notKernel, past, fun running => ?_⟩
  have noByte : ¬ tr.FindsByte k := fun finds => notUser finds.1.1
  have resumes := trap_resumes frames rest made.spares made.fits noByte made.taken
  rw [← running] at resumes
  exact past.resumes waits.call resumes

/-- A call of `putc` is accepted and has returned, or it waits. -/
theorem putc_step (rest : k.Rest b recs) (frames : k.Frames b k.Parked)
    (made : tr.Made ecall k (leave k₁)) (handled : Handled (enter k tr) b recs k₁ b' recs')
    (rest' : (leave k₁).Rest b' recs') (call : tr.Calls syscallPutc) :
    tr.unreturned k (leave k₁) = none ∧
        (leave k₁).hist.accepted = k.hist.accepted ++ [(k.scheduler.threadCurrent, tr.char)] ∨
      tr.unreturned k (leave k₁) = some tr ∧ (leave k₁).hist.accepted = k.hist.accepted ∧
        (leave k₁).Waits ecall b' k.scheduler.threadCurrent tr := by
  have outputs := handled.outputs rest rest'
  by_cases refuses : k.console.Refuses
  · have refused := outputs.refused call refuses
    have back : ((leave k₁).saved k.scheduler.threadCurrent).sepc ≠ u64 (tr.sepc + 4) := by
      have word := made.spares.pc
      rw [refused.back]
      show u64 tr.sepc ≠ _
      unfold u64
      omega
    have past : ((leave k₁).hist.past k.scheduler.threadCurrent).Repeats (leave k₁).image tr := by
      rw [refused.past]
      refine .trapped ?_ fun _ _ _ => rfl
      rw [Past.pc, if_neg (by simp)]
    refine Or.inr ⟨if_neg back, refused.accepted, call, made.executes.call call.1, fun main => ?_,
      ?_, past, fun running => ?_⟩
    · have mode := rest.supervisor.symm.trans (made.fits.userCall call.1)
      exact of_decide_eq_false mode (main.trans handled.main)
    · obtain ⟨ready, ring, order⟩ := refused.queued _ (rest.places.rings.ring .ready trivial)
      rw [ring.unique (rest'.places.rings.ring .ready trivial)] at order
      have mem : k.scheduler.threadCurrent ∈
          (leave k₁).scheduler.threadCurrent :: b'.queue .ready := by simp [order]
      exact List.mem_cons.mp mem
    · have noByte : ¬ tr.FindsByte k := fun finds =>
        absurd (call.2.symm.trans finds.1.2) (by decide)
      have resumes := trap_resumes frames rest made.spares made.fits noByte made.taken
      rw [← running] at resumes
      exact past.resumes call resumes
  · have accepted := outputs.accepted call refuses
    exact Or.inl ⟨if_pos (congrArg Saved.sepc accepted.behind), accepted.accepted⟩

end

/-! ## Runs -/

section
variable {ecall : Nat → Prop} {k₀ k k' : Kernel} {calls accepted : List (Nat × UInt8)}
  {pending : Nat → Option Trap} {tr : Trap} {t c : Nat} {ch : UInt8}

@[simp] theorem charsOf_nil (t : Nat) : charsOf t [] = [] := rfl

theorem charsOf_self (t : Nat) (l : List (Nat × UInt8)) (ch : UInt8) :
    charsOf t (l ++ [(t, ch)]) = charsOf t l ++ [ch] := by
  simp [charsOf]

theorem charsOf_other (l : List (Nat × UInt8)) (ch : UInt8) (ne : t ≠ c) :
    charsOf t (l ++ [(c, ch)]) = charsOf t l := by
  simp [charsOf, ne.symm]

/-- The calls of each thread are those accepted, and one that has not returned. -/
def Once (calls accepted : List (Nat × UInt8)) (pending : Nat → Option Trap) : Prop :=
  ∀ t, charsOf t calls = charsOf t accepted ++ ((pending t).map Trap.char).toList

/-- A call that was made before, or is made now, is answered. -/
theorem Once.answer {calls' : List (Nat × UInt8)} (once : Once calls accepted pending)
    (mine : charsOf c calls' = charsOf c accepted ++ [tr.char])
    (others : ∀ t ≠ c, charsOf t calls' = charsOf t calls) :
    Once calls' (accepted ++ [(c, tr.char)]) (update pending c none) ∧
      Once calls' accepted (update pending c (some tr)) := by
  refine ⟨fun t => ?_, fun t => ?_⟩
  · by_cases same : t = c
    · subst same
      rw [mine, update_self, charsOf_self]
      simp
    · rw [others t same, update_of_ne same, charsOf_other accepted tr.char same]
      exact once t
  · by_cases same : t = c
    · subst same
      rw [mine, update_self]
      rfl
    · rw [others t same, update_of_ne same]
      exact once t

/-- What holds of a kernel with the calls of its run. -/
structure Kernel.PutsInv (k : Kernel) (ecall : Nat → Prop) (b : Threads) (recs : List Nat)
    (calls : List (Nat × UInt8)) (pending : Nat → Option Trap) : Prop where
  rest : k.Rest b recs
  frames : k.Frames b k.Parked
  waits : ∀ t tr, pending t = some tr → k.Waits ecall b t tr
  once : Once calls k.hist.accepted pending

theorem Kernel.Booted.putsInv {b : Threads} (platform : k₀.Platform) (rest : k.Rest b [])
    (frames : k.Frames b k.Parked) (booted : boot k₀ = .ok k) :
    k.PutsInv ecall b [] [] fun _ => none := by
  obtain ⟨_, p, stackSpace, first⟩ := boot_booted platform booted
  refine ⟨rest, frames, fun _ _ none => (by cases none), fun t => ?_⟩
  rw [first.hist]
  simp [platform.noOutput.2]

section
variable {b : Threads} {recs : List Nat} {calls' : List (Nat × UInt8)}

theorem Kernel.PutsInv.other (inv : k.PutsInv ecall b recs calls pending)
    (made : tr.Made ecall k k') (notPutc : ¬ tr.Calls syscallPutc) :
    ∃ b' recs', k'.PutsInv ecall b' recs' calls pending := by
  obtain ⟨rest, frames, waits, once⟩ := inv
  obtain ⟨k₁, b', recs', rfl, handled, rest'⟩ := trap_rest rest made.fits made.taken
  refine ⟨b', recs', rest', trap_parked frames rest.inv made.spares made.fits handled,
    fun t tr' left => ?_, ?_⟩
  · by_cases same : t = k.scheduler.threadCurrent
    · subst same
      exact (waits _ tr' left).interrupted rest frames made handled notPutc
    · exact (waits t tr' left).other rest frames made handled rest' same
  · rw [((handled.outputs rest rest').other notPutc).2]
    exact once

/-- A `putc`, where `calls'` are the calls with this one. -/
theorem Kernel.PutsInv.putc (inv : k.PutsInv ecall b recs calls pending)
    (made : tr.Made ecall k k') (call : tr.Calls syscallPutc)
    (mine : charsOf k.scheduler.threadCurrent calls' =
      charsOf k.scheduler.threadCurrent k.hist.accepted ++ [tr.char])
    (others : ∀ t ≠ k.scheduler.threadCurrent, charsOf t calls' = charsOf t calls) :
    ∃ b' recs', k'.PutsInv ecall b' recs' calls'
      (update pending k.scheduler.threadCurrent (tr.unreturned k k')) := by
  obtain ⟨rest, frames, waits, once⟩ := inv
  obtain ⟨k₁, b', recs', rfl, handled, rest'⟩ := trap_rest rest made.fits made.taken
  obtain ⟨accepts, refuses⟩ := once.answer mine others
  have step := putc_step rest frames made handled rest' call
  refine ⟨b', recs', rest', trap_parked frames rest.inv made.spares made.fits handled,
    fun t tr' left => ?_, ?_⟩
  · by_cases same : t = k.scheduler.threadCurrent
    · subst same
      rw [update_self] at left
      rcases step with ⟨none, -⟩ | ⟨some, -, waits'⟩
      · rw [none] at left
        cases left
      · obtain rfl := Option.some.inj (some.symm.trans left)
        exact waits'
    · rw [update_of_ne same] at left
      exact (waits t tr' left).other rest frames made handled rest' same
  · rcases step with ⟨none, accepted⟩ | ⟨some, accepted, -⟩
    · rw [none, accepted]
      exact accepts
    · rw [some, accepted]
      exact refuses

end

/-- **Runs.** -/
theorem puts_inv (static : k₀.Static) (puts : Puts ecall k₀ k calls pending) :
    ∃ b recs, k.PutsInv ecall b recs calls pending := by
  induction puts with
  | boot platform booted =>
    obtain ⟨b, rest, frames, -⟩ := boot_frames platform static booted
    exact ⟨b, [], Kernel.Booted.putsInv platform rest frames booted⟩
  | other _ made notPutc ih =>
    obtain ⟨b, recs, inv⟩ := ih
    exact inv.other made notPutc
  | @first k k' calls pending tr _ made call none ih =>
    obtain ⟨b, recs, inv⟩ := ih
    refine inv.putc made call ?_ fun t ne => charsOf_other calls tr.char ne
    have before := inv.once k.scheduler.threadCurrent
    rw [none] at before
    rw [charsOf_self, before]
    simp
  | @again k k' calls pending tr₀ tr _ made call some ih =>
    obtain ⟨b, recs, inv⟩ := ih
    refine inv.putc made call ?_ fun _ _ => rfl
    obtain ⟨⟨-, regs⟩, -⟩ := (inv.waits _ tr₀ some).again inv.rest made.fits made.executes
    have char : tr₀.char = tr.char :=
      congrArg charOf (regs regA1 (by decide) (by decide)).symm
    have before := inv.once k.scheduler.threadCurrent
    rw [some] at before
    rw [before, ← char]
    rfl

/-- Every run has its calls. -/
theorem Run.puts (run : Run (fun k tr => k.Spares tr ∧ tr.Executes ecall k) k₀ k) :
    ∃ calls pending, Puts ecall k₀ k calls pending := by
  induction run with
  | boot platform booted => exact ⟨_, _, .boot platform booted⟩
  | @trap k tr k' _ fits allowed taken ih =>
    obtain ⟨calls, pending, puts⟩ := ih
    have made : tr.Made ecall k k' := ⟨fits, allowed.1, allowed.2, taken⟩
    by_cases call : tr.Calls syscallPutc
    · cases left : pending k.scheduler.threadCurrent with
      | none => exact ⟨_, _, puts.first made call left⟩
      | some tr₀ => exact ⟨_, _, puts.again made call left⟩
    · exact ⟨_, _, puts.other made call⟩

/-- A call of `putc` that has not returned: its thread is ready or runs, and it runs at its
`ecall`, with the registers of the call. -/
structure Kernel.Retries (k : Kernel) (t : Nat) (tr : Trap) : Prop where
  call : tr.Calls syscallPutc
  queued : t ≠ k.scheduler.threadCurrent →
    ∃ ready, IsRing k.links k.scheduler.readyThreads ready ∧ t ∈ ready
  repeats : t = k.scheduler.threadCurrent → (resume k).Repeats tr

/-- **Console output is sent in order**, in any run: each character that is accepted is
sent or waits, `putc` refuses only when nothing can be sent, and a call that was refused is
made again until its character is accepted, once. -/
theorem output_in_order (run : Run anyTrap k₀ k) : k.OutputInOrder ∧
    (∀ tr k', tr.Fits k → trap k tr = .ok k' → tr.Outputs k k') ∧
    ∀ ecall calls pending, k₀.Static → Puts ecall k₀ k calls pending →
      (∀ t, charsOf t calls =
        charsOf t k.hist.accepted ++ ((pending t).map Trap.char).toList) ∧
      ∀ t tr, pending t = some tr → k.Retries t tr := by
  obtain ⟨b, recs, rest, inv⟩ := run_invariant (P := fun k _ _ => k.OutputInOrder)
    (fun platform booted => booted.outputInOrder platform)
    (fun rest _ _ handled _ inv => by
      obtain ⟨new, step⟩ := handled.output rest.sendRoom
      obtain ⟨order, room, inside⟩ := step.keeps ⟨inv.order, inv.room, inv.inside⟩
      exact ⟨order, room, inside⟩) run
  refine ⟨inv, fun tr k' fits taken => ?_, fun ecall calls pending static puts => ?_⟩
  · obtain ⟨k₁, b', recs', rfl, handled, rest'⟩ := trap_rest rest fits taken
    exact handled.outputs rest rest'
  · obtain ⟨b, recs, inv⟩ := puts_inv static puts
    refine ⟨inv.once, fun t tr left => ?_⟩
    have waits := inv.waits t tr left
    exact ⟨waits.call, fun ne => ⟨_, inv.rest.places.rings.ring .ready trivial,
      waits.place.resolve_left ne⟩, waits.running⟩

end

/-- The first user thread of the small machine puts a character, and the calls of the run up
to it. -/
theorem output_in_order_small :
    (∃ k k', Run anyTrap smallKernel k ∧ trap k (userCall k syscallPutc 65 0) = .ok k' ∧
      (userCall k syscallPutc 65 0).Outputs k k' ∧ k'.OutputInOrder) ∧
    ∃ k calls pending, Run anyTrap smallKernel k ∧
      Puts (· = 0x80000500) smallKernel k calls pending ∧ ∀ t, charsOf t calls =
        charsOf t k.hist.accepted ++ ((pending t).map Trap.char).toList := by
  refine ⟨?_, ?_⟩
  · obtain ⟨k, b, p, user, -⟩ := first_user smallKernel_platform anyTrap fun _ _ => trivial
    have code : (userCall k syscallPutc 65 0).regs regA0 = syscallPutc := rfl
    have fits : (userCall k syscallPutc 65 0).Fits k := by
      refine userCall_fits user.mode (by decide) (by decide) (by decide) ⟨?_, ?_, ?_, ?_, ?_, ?_⟩
      all_goals rw [code]
      · decide
      all_goals exact fun h => absurd h (by decide)
    obtain ⟨k', taken⟩ := userCall_returns user.rest (by decide) fits
    exact ⟨k, k', user.run, taken, (output_in_order user.run).2.1 _ k' fits taken,
      (output_in_order (.trap user.run fits trivial taken)).1⟩
  · have noCall : irqEcallKernel ≠ irqEcallUser := by decide
    obtain ⟨-, k, -, -, -, -, run⟩ := small_run
      (fun k tr => k.Spares tr ∧ tr.Executes (· = 0x80000500) k) fun k platform booted => by
        obtain ⟨b, p, stackSpace, first⟩ := boot_booted platform booted
        have mode := first.rest.supervisor.trans (decide_eq_true first.main)
        exact ⟨firstCall_spares platform booted, fun user => absurd user noCall,
          fun user => absurd (mode.symm.trans user) (by decide)⟩
    obtain ⟨calls, pending, puts⟩ := run.puts
    have any : Run anyTrap smallKernel k := run.mono fun _ _ _ => trivial
    exact ⟨k, calls, pending, any, puts,
      ((output_in_order any).2.2 _ calls pending smallKernel_static puts).1⟩

end RiscvKernel
