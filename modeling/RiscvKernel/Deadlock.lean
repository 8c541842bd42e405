import RiscvKernel.BufferRuns
import RiscvKernel.Turns

/-!
# The bounded buffer does not deadlock

* `BufferState.Stuck`: whoever is inside `put` or `get` waits for a semaphore;
* `Inv.stuck_full`: then they wait for space in a full buffer, or for a value in an empty one;
* `BufferSystem.Present`: whoever is inside goes on, or waits for the buffer;
* `buffer_never_deadlocks`: while there is something to do, somebody can do it.
-/

namespace RiscvKernel
open Function Intrusive Placement Counting RoundRobin RoundRobin.Server

namespace BufferState

/-- Nobody gets on. -/
def Stuck {α : Type} (σ : BufferState α) : Prop :=
  ∀ t, σ.call t ≠ none → ∃ m, t ∈ (σ.sems m).queue

section
variable {α : Type} [DecidableEq α] {σ : BufferState α} {c : Nat} {busy : Finset α} {t : α}
  {call : Call}

omit [DecidableEq α] in
/-- Whoever is in a queue waits for one of the two semaphores. -/
theorem Inv.waiting (inv : σ.Inv c busy) (stuck : σ.Stuck) (here : σ.call t = some call) :
    t ∈ (σ.sems (.available call.side)).queue ∧ call.line = .waitMutex ∨
      t ∈ (σ.sems (.mutex call.side)).queue ∧ call.line = .loadIndex := by
  obtain ⟨m, queued⟩ := stuck t (by simp [here])
  obtain ⟨call', called, waited⟩ := inv.queued m t queued
  obtain rfl : call = call' := Option.some.inj (here.symm.trans called)
  cases m with
  | available side =>
    obtain ⟨rfl, line⟩ := waitedFor_available waited
    exact Or.inl ⟨queued, line⟩
  | mutex side =>
    obtain ⟨rfl, line⟩ := waitedFor_mutex waited
    exact Or.inr ⟨queued, line⟩

/-- Some thread of a crowd is not in the queue of a semaphore that the crowd outnumbers. -/
theorem Inv.outnumbered (inv : σ.Inv c busy) {m : BufferSem} {side : Side} {φ : Line → Bool}
    (more : -(σ.sems m).val < σ.count busy side φ) (pos : 0 < σ.count busy side φ) :
    ∃ t call, σ.call t = some call ∧ call.side = side ∧ φ call.line = true ∧
      t ∉ (σ.sems m).queue := by
  by_contra all
  have inside : σ.count busy side φ ≤ (σ.sems m).queue.length := by
    apply crowd_le_length
    intro t _ seen
    cases here : σ.call t with
    | none => simp [here, onLine] at seen
    | some call =>
      rw [here, onLine_some, Bool.and_eq_true, decide_eq_true_iff] at seen
      by_contra out
      exact all ⟨t, call, here, seen.1, seen.2, out⟩
  have balanced : (σ.sems m).queue.length = (-(σ.sems m).val).toNat := inv.balanced m
  omega

/-- A stuck buffer has nobody inside its mutexes. -/
theorem Inv.stuck_outside (inv : σ.Inv c busy) (stuck : σ.Stuck) (side : Side) :
    σ.count busy side Line.inside = 0 := by
  by_contra inside
  have val := inv.mutex side
  obtain ⟨t, call, here, rfl, line, out⟩ :=
    inv.outnumbered (m := .mutex side) (by omega) (Nat.pos_of_ne_zero inside)
  rcases inv.waiting stuck here with ⟨-, first⟩ | ⟨queued, -⟩
  · rw [first] at line
    cases line
  · exact out queued

theorem Inv.stuck_line (inv : σ.Inv c busy) (stuck : σ.Stuck) (here : σ.call t = some call) :
    call.line = .waitMutex := by
  rcases inv.waiting stuck here with ⟨-, line⟩ | ⟨-, line⟩
  · exact line
  · have inside : 1 ≤ σ.count busy call.side Line.inside := by
      apply length_le_crowd (List.nodup_singleton t)
      intro x hx
      obtain rfl := List.mem_singleton.mp hx
      exact ⟨inv.mem here, by simp [here, onLine_some, line, Line.inside]⟩
    have none := inv.stuck_outside stuck call.side
    omega

/-- **Stuck.** Those who put wait for a full buffer, and those who get for an empty one. -/
theorem Inv.stuck_full (inv : σ.Inv c busy) (stuck : σ.Stuck) (here : σ.call t = some call) :
    ((σ.members.done call.side).length : Int) =
      units c (.available call.side) + (σ.members.done call.side.other).length := by
  have mem := inv.mem here
  have before : 1 ≤ σ.count busy call.side Line.before := by
    apply length_le_crowd (List.nodup_singleton t)
    intro x hx
    obtain rfl := List.mem_singleton.mp hx
    exact ⟨mem, by simp [here, onLine_some, inv.stuck_line stuck here, Line.before]⟩
  have after : σ.count busy call.side.other Line.after = 0 := by
    by_contra some
    obtain ⟨x, -, seen⟩ := exists_of_crowd_pos (Nat.pos_of_ne_zero some)
    cases there : σ.call x with
    | none => simp [there, onLine] at seen
    | some call' => simp [there, onLine_some, inv.stuck_line stuck there, Line.after] at seen
  have val := inv.available call.side
  -- nobody but those in the queue holds a unit, and the queue is as long as the count is low
  have low : (σ.count busy call.side Line.before : Int) ≤
      -(σ.sems (.available call.side)).val := by
    by_contra more
    obtain ⟨x, call', there, same, -, out⟩ :=
      inv.outnumbered (m := .available call.side) (by omega) before
    rcases inv.waiting stuck there with ⟨queued, -⟩ | ⟨-, line⟩
    · exact out (same ▸ queued)
    · rw [inv.stuck_line stuck there] at line
      cases line
  have behind := inv.behind
  have within := inv.within
  cases side : call.side
  all_goals
    rw [side] at val low after
    simp only [units, Side.other] at *
    omega

omit [DecidableEq α] in
/-- As many values are stored as were put and not got. -/
theorem Inv.unread_card (inv : σ.Inv c busy) : (σ.members.unread.card : Int) =
    (σ.members.done .put).length - (σ.members.done .get).length := by
  have behind := inv.behind
  have within := inv.within
  rw [inv.unread, Finset.card_image_of_injOn, Nat.card_Ico]
  · omega
  · intro i hi j hj same
    have bounds_i := Finset.mem_Ico.mp (Finset.mem_coe.mp hi)
    have bounds_j := Finset.mem_Ico.mp (Finset.mem_coe.mp hj)
    rcases Nat.lt_trichotomy i j with lt | eq | gt
    · exact absurd same (slot_ne lt (by omega))
    · exact eq
    · exact absurd same.symm (slot_ne gt (by omega))

end

end BufferState

namespace BufferSystem

/-- The thread `t` waits for a semaphore of the buffer. -/
def Waits (s : BufferSystem) (h : BufferSem → Nat) (t : Nat) : Prop :=
  ∃ m ts, IsRing s.kernel.links (s.kernel.sem (h m)).waitingThreads ts ∧ t ∈ ts

/-- The thread `t` runs, is ready, or is `kernel_main`, which gets the hart when nobody is ready. -/
def GoesOn (s : BufferSystem) (t : Nat) : Prop :=
  t = s.running ∨ t = s.kernel.scheduler.kernelMain ∨
    ∃ ts, IsRing s.kernel.links s.kernel.scheduler.readyThreads ts ∧ t ∈ ts

/-- Whoever is inside `put` or `get` goes on, or waits for the buffer. -/
def Present (s : BufferSystem) (h : BufferSem → Nat) : Prop :=
  ∀ t, s.call t ≠ none → s.GoesOn t ∨ s.Waits h t

section
variable {k₀ : Kernel} {s s' : BufferSystem} {h : BufferSem → Nat} {c t : Nat} {b b' : Threads}
  {recs recs' : List Nat} {busy : Finset Nat} {tr : Trap} {k₁ : Kernel} {m : BufferSem}

theorem Inv.waits_iff (inv : s.Inv h c b recs busy) :
    s.Waits h t ↔ ∃ m, t ∈ b.queue (.sem (h m)) := by
  constructor
  · rintro ⟨m, ts, ring, mem⟩
    have same := ring.unique (inv.rest.places.rings.ring (.sem (h m)) (inv.opened m))
    exact ⟨m, show t ∈ b.queue (.sem (h m)) from same ▸ mem⟩
  · rintro ⟨m, mem⟩
    exact ⟨m, _, inv.rest.places.rings.ring (.sem (h m)) (inv.opened m), mem⟩

/-- Whoever waits for the buffer goes on waiting, or is woken. -/
theorem Inv.stays (inv : s.Inv h c b recs busy) (small : c < 2 ^ 31 - 1)
    (handled : Handled (enter s.kernel tr) b recs k₁ b' recs') (inv' : k₁.Inv b' recs')
    (noClose : tr.Calls syscallSemClose → tr.regs regA1 ≠ h m)
    (waits : t ∈ b.queue (.sem (h m))) : t ∈ b'.queue (.sem (h m)) ∨ t ∈ b'.queue .ready := by
  by_cases wait : tr.Calls syscallSemWait ∧ tr.regs regA1 = h m
  · apply Or.inl
    have effect := inv.waitsOn small handled inv' wait.1 wait.2
    by_cases below : (k₁.sem (h m)).val < 0
    · rw [← inv'.queues_eq (effect.blocks below).1, update_self]
      exact List.mem_append_left _ waits
    · rwa [← inv'.queues_eq (effect.passes below).1]
  by_cases signal : tr.Calls syscallSemSignal ∧ tr.regs regA1 = h m
  · have effect := inv.signalsOn small handled inv' signal.1 signal.2
    cases first : b.queue (.sem (h m)) with
    | nil =>
      rw [first] at waits
      cases waits
    | cons w ws =>
      have queues := inv'.queues_eq (effect.heard w ws first).1
      rw [first] at waits
      rcases List.mem_cons.mp waits with rfl | later
      · apply Or.inr
        rw [← queues, update_self]
        exact List.mem_append_right _ (List.mem_singleton_self _)
      · apply Or.inl
        rwa [← queues, update_of_ne (by simp), update_self]
  · have same := (handled.unnamed inv.rest.inv (inv.opened m) fun code mem call arg => by
      simp only [List.mem_cons, List.not_mem_nil, or_false] at mem
      rcases mem with rfl | rfl | rfl
      · exact noClose call arg
      · exact wait ⟨call, arg⟩
      · exact signal ⟨call, arg⟩).2
    have queue : b'.queue (.sem (h m)) = b.queue (.sem (h m)) := congrArg Semaphore.queue same
    exact Or.inl (queue ▸ waits)

/-- Whoever runs or is ready does so after a trap, unless its own call blocks. -/
theorem goesOn_trap {k k' : Kernel} (rest : k.Rest b recs) (fits : tr.Fits k)
    (taken : trap k tr = .ok k') (rest' : k'.Rest b' recs')
    (here : t = k.scheduler.threadCurrent ∨ t ∈ b.queue .ready)
    (own : tr.scause = irqEcallUser → t = k.scheduler.threadCurrent →
      ¬ k.Blocks (tr.regs regA0) (tr.regs regA1)) :
    t = k'.scheduler.threadCurrent ∨ t = k'.scheduler.kernelMain ∨ t ∈ b'.queue .ready := by
  obtain ⟨e, ready', signals, ring, new, -, turned⟩ := trap_turned rest fits taken
  obtain rfl := ring.unique (rest'.places.rings.ring .ready trivial)
  by_cases leaves : e = .leave ∧ t = k.scheduler.threadCurrent
  · obtain ⟨rfl, rfl⟩ := leaves
    unfold Trap.Signals at signals
    split at signals
    · obtain ⟨new, eq⟩ := signals
      cases eq
    split at signals
    · next user => exact absurd signals (own user rfl)
    split at signals
    · next call =>
      -- `kernel_main` gives way
      have mode := fits.kernelCall call.1
      rw [rest.supervisor] at mode
      obtain ⟨k₁, b₁, recs₁, rfl, handled, -⟩ := trap_rest rest fits taken
      exact Or.inr (Or.inl ((of_decide_eq_true mode).trans handled.main.symm))
    · obtain ⟨new, eq⟩ := signals
      cases eq
  · obtain ⟨served', turned⟩ := turned [] []
    have present : (k.server (b.queue .ready) [] []).Present t := here
    have present' := turned ▸ @Server.step_present _ _ k.scheduler.kernelMain defaultTimeSlice _ _ _
      present fun leave running => leaves ⟨leave, running⟩
    exact present'.imp_right Or.inr

/-- A trap whose caller stays inside `put` or `get`. -/
theorem Inv.trap_present (inv : s.Inv h c b recs busy) (small : c < 2 ^ 31 - 1) {k' : Kernel}
    {call' : Nat → Option Call} (fits : tr.Fits s.kernel) (taken : trap s.kernel tr = .ok k')
    (noClose : ∀ m, tr.Calls syscallSemClose → tr.regs regA1 ≠ h m)
    (own : tr.scause = irqEcallUser → t = s.running →
      ¬ s.kernel.Blocks (tr.regs regA0) (tr.regs regA1) ∨
        tr.Calls syscallSemWait ∧ ∃ m, tr.regs regA1 = h m)
    (here : s.GoesOn t ∨ s.Waits h t) :
    GoesOn { s with kernel := k', call := call' } t ∨
      Waits { s with kernel := k', call := call' } h t := by
  obtain ⟨k₁, b', recs', rfl, handled, rest'⟩ := trap_rest inv.rest fits taken
  have inv₁ : k₁.Inv b' recs' := rest'.inv.congr rfl rfl
  have ready := rest'.places.rings.ring .ready trivial
  have queued {m} (mem : t ∈ b'.queue (.sem (h m))) :
      Waits { s with kernel := leave k₁, call := call' } h t :=
    ⟨m, _, rest'.places.rings.ring (.sem (h m))
      (handled.staysOpen inv.rest.inv (noClose m) (inv.opened m)), mem⟩
  rw [inv.waits_iff] at here
  rcases here with (running | main | ⟨ts, ring, mem⟩) | ⟨m, waits⟩
  · by_cases blocks : tr.Calls syscallSemWait ∧ ∃ m, tr.regs regA1 = h m
    · obtain ⟨call, m, arg⟩ := blocks
      have effect := inv.waitsOn small handled inv₁ call arg
      by_cases below : (k₁.sem (h m)).val < 0
      · refine Or.inr (queued (m := m) ?_)
        rw [← inv₁.queues_eq (effect.blocks below).1, update_self]
        exact List.mem_append_right _ (List.mem_singleton.mpr running)
      · exact Or.inl (Or.inl (running.trans (effect.passes below).2.1.symm))
    · have goes := goesOn_trap inv.rest fits taken rest' (Or.inl running) fun user running =>
        (own user running).resolve_right blocks
      exact Or.inl (goes.imp_right (Or.imp_right fun mem => ⟨_, ready, mem⟩))
  · exact Or.inl (Or.inr (Or.inl (main.trans handled.main.symm)))
  · obtain rfl := ring.unique (inv.rest.places.rings.ring .ready trivial)
    have goes := goesOn_trap inv.rest fits taken rest' (Or.inr mem) fun _ running =>
      absurd running (inv.rest.inv.notRunning (i := .ready) mem)
    exact Or.inl (goes.imp_right (Or.imp_right fun mem => ⟨_, ready, mem⟩))
  · rcases inv.stays small handled inv₁ (noClose m) waits with still | woken
    · exact Or.inr (queued still)
    · exact Or.inl (Or.inr (Or.inr ⟨_, ready, woken⟩))

theorem step_present (inv : s.Inv h c b recs busy) (small : c < 2 ^ 31 - 1)
    (present : s.Present h) (step : Step h (c + 1) s s') : s'.Present h := by
  -- a call that goes on was under way before
  have under {call call' : Option Call} {t : Nat} (here : s.call s.running = call)
      (some : call ≠ none) (inside : update s.call s.running call' t ≠ none) :
      s.call t ≠ none := by
    by_cases running : t = s.running
    · rw [running, here]
      exact some
    · rwa [update_of_ne running] at inside
  cases step with
  | start side v idle =>
    intro t inside
    by_cases running : t = s.running
    · exact Or.inl (Or.inl running)
    · exact present t (by simpa [update_of_ne running] using inside)
  | moves here moves => exact fun t inside => present t (under here (by simp) inside)
  | wait here waits fits call arg taken =>
    exact fun t inside => inv.trap_present small fits taken
      (fun m close => absurd close (other_call call (by decide)))
      (fun _ _ => Or.inr ⟨call, _, arg⟩) (present t (under here (by simp) inside))
  | signal here signals fits call arg taken =>
    refine fun t inside => inv.trap_present small fits taken
      (fun m close => absurd close (other_call call (by decide)))
      (fun _ _ => Or.inl ?_) (present t (under here (by simp) inside))
    rw [call.2]
    simp [Kernel.Blocks]
  | other fits taken outside apart =>
    refine fun t inside => inv.trap_present small fits taken
      (fun m close => apart _ (by simp) close m) (fun user running => ?_) (present t inside)
    exact absurd (outside user) (running ▸ inside)

theorem reached_present (small : c < 2 ^ 31 - 1) (reached : Reached k₀ h c s) : s.Present h := by
  induction reached with
  | built run built => exact fun t inside => absurd (built.idle t) inside
  | step reached step ih =>
    obtain ⟨b, recs, busy, inv⟩ := reached_inv small reached
    exact step_present inv small ih step

end

/-- There is something to do for a `put` or a `get`. -/
def Room (s : BufferSystem) (c : Nat) : Side → Prop
  | .put => s.members.unread.card < c
  | .get => s.members.unread ≠ ∅

/-- **No deadlock.** In every run, while a `put` is under way and there is space, or a `get` is
and there is a value, somebody who is inside `put` or `get` waits for nothing and goes on. -/
theorem buffer_never_deadlocks {k₀ : Kernel} {h : BufferSem → Nat} {c t : Nat} {call : Call}
    {s : BufferSystem} (small : c < 2 ^ 31 - 1) (reached : Reached k₀ h c s)
    (here : s.call t = some call) (room : s.Room c call.side) :
    ∃ t', s.call t' ≠ none ∧ ¬ s.Waits h t' ∧ s.GoesOn t' := by
  obtain ⟨b, recs, busy, inv⟩ := reached_inv small reached
  by_contra all
  have stuck : (s.buffer h b).Stuck := by
    intro t' called
    refine inv.waits_iff.mp ?_
    by_contra out
    exact all ⟨t', called, out, (reached_present small reached t' called).resolve_right out⟩
  have full := inv.buffer.stuck_full stuck here
  have card := inv.buffer.unread_card
  cases side : call.side with
  | put =>
    rw [side] at full room
    have less : s.members.unread.card < c := room
    change ((s.members.done .put).length : Int) = c + (s.members.done .get).length at full
    change (s.members.unread.card : Int) =
      (s.members.done .put).length - (s.members.done .get).length at card
    omega
  | get =>
    rw [side] at full room
    have some : 0 < s.members.unread.card := Finset.card_pos.mpr (Finset.nonempty_of_ne_empty room)
    change ((s.members.done .get).length : Int) = 0 + (s.members.done .put).length at full
    change (s.members.unread.card : Int) =
      (s.members.done .put).length - (s.members.done .get).length at card
    omega

/-- Somebody gets the second of two values, and is inside. -/
theorem buffer_never_deadlocks_small : ∃ s h p, Reached smallKernel h 5 s ∧
    s.members.unread = {1} ∧ s.call p = some ⟨.get, .access, 1, 0⟩ ∧
    ∃ t', s.call t' ≠ none ∧ ¬ s.Waits h t' ∧ s.GoesOn t' := by
  obtain ⟨s, h, p, alone⟩ := small_alone
  obtain ⟨s₁, alone₁⟩ := alone.put (by decide) (by decide) 7
  obtain ⟨s₂, alone₂⟩ := alone₁.put (by decide) (by decide) 8
  obtain ⟨s₃, alone₃⟩ := alone₂.get (by decide) (by decide)
  obtain ⟨s₄, alone₄⟩ := alone₃.enters .get 0 (by decide) (by decide)
  have unread : s₄.members.unread = {1} := by
    rw [alone₄.members]
    decide
  refine ⟨s₄, h, p, alone₄.reached, unread, alone₄.call, ?_⟩
  refine buffer_never_deadlocks (by decide) alone₄.reached alone₄.call ?_
  show s₄.members.unread ≠ ∅
  rw [unread]
  decide

end BufferSystem

end RiscvKernel
