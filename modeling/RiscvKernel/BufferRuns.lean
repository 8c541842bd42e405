import RiscvKernel.Buffer
import RiscvKernel.Counts

/-!
# The bounded buffer on the kernel

Threads of the kernel take the steps of `Buffer::put` and `Buffer::get` between its traps,
and its semaphores are those of the buffer.

* `BufferSystem.Step`: one instruction of the running thread, or one trap;
* `BufferSystem.Inv`: the kernel is between two traps, and the buffer keeps `BufferState.Inv`;
* `bounded_buffer`: no run loses, repeats or reorders a value.
-/

namespace RiscvKernel
open Function Intrusive Placement Counting

/-- The kernel, the calls that its threads have under way, and the buffer. -/
structure BufferSystem where
  kernel : Kernel
  call : Nat → Option Call
  members : Buffer.Members

namespace BufferSystem

def running (s : BufferSystem) : Nat := s.kernel.scheduler.threadCurrent

/-- A step of a machine whose threads use the buffer for `cap - 1` values with the semaphores `h`.
A thread makes no other system call inside `put` and `get`, and nobody else touches the
semaphores. -/
inductive Step (h : BufferSem → Nat) (cap : Int) (s : BufferSystem) : BufferSystem → Prop
  | start (side v) (idle : s.call s.running = none) :
      Step h cap s { s with
        call := update s.call s.running (some ⟨side, .waitAvailable, 0, v⟩) }
  | moves {c c' members'} (here : s.call s.running = some c)
      (moves : Call.Moves cap c s.members c' members') :
      Step h cap s { s with call := update s.call s.running (some c'), members := members' }
  | wait {c m tr k'} (here : s.call s.running = some c) (waits : c.waitsFor = some m)
      (fits : tr.Fits s.kernel) (call : tr.Calls syscallSemWait) (arg : tr.regs regA1 = h m)
      (taken : trap s.kernel tr = .ok k') :
      Step h cap s { s with kernel := k', call := update s.call s.running c.next }
  | signal {c m tr k'} (here : s.call s.running = some c) (signals : c.signalsTo = some m)
      (fits : tr.Fits s.kernel) (call : tr.Calls syscallSemSignal) (arg : tr.regs regA1 = h m)
      (taken : trap s.kernel tr = .ok k') :
      Step h cap s { s with kernel := k', call := update s.call s.running c.next }
  | other {tr k'} (fits : tr.Fits s.kernel) (taken : trap s.kernel tr = .ok k')
      (inside : tr.scause = irqEcallUser → s.call s.running = none)
      (apart : ∀ code ∈ [syscallSemClose, syscallSemWait, syscallSemSignal], tr.Calls code →
        ∀ m, tr.regs regA1 ≠ h m) :
      Step h cap s { s with kernel := k' }

/-- The buffer is just built: the semaphores `h` are open with their units, and nobody uses it. -/
structure Built (h : BufferSem → Nat) (c : Nat) (s : BufferSystem) : Prop where
  apart : Injective h
  opened : ∀ m, h m ∈ s.kernel.hist.opened
  val : ∀ m, (s.kernel.sem (h m)).val = BufferState.units c m
  nobody : ∀ m, (s.kernel.sem (h m)).waitingThreads = 0
  idle : ∀ t, s.call t = none
  index : ∀ side, s.members.index side = 0
  done : ∀ side, s.members.done side = []
  unread : s.members.unread = ∅

/-- The runs of a kernel on which somebody builds a buffer for `c` values. -/
inductive Reached (k₀ : Kernel) (h : BufferSem → Nat) (c : Nat) : BufferSystem → Prop
  | built {s} (run : Run anyTrap k₀ s.kernel) (built : Built h c s) : Reached k₀ h c s
  | step {s s'} (reached : Reached k₀ h c s) (step : Step h (c + 1) s s') : Reached k₀ h c s'

/-- At most `c` values are stored, the values that were read are the first of those that
were stored, and the running thread stores where nothing is left to read and reads where
something is. -/
structure Safe (s : BufferSystem) (c : Nat) : Prop where
  few : s.members.unread.card ≤ c
  order : s.members.done .get <+: s.members.done .put
  free : ∀ r v, s.call s.running = some ⟨.put, .access, r, v⟩ → r ∉ s.members.unread
  stored : ∀ r v, s.call s.running = some ⟨.get, .access, r, v⟩ → r ∈ s.members.unread

/-- The buffer of the system; the queues are those of `b`. -/
def buffer (s : BufferSystem) (h : BufferSem → Nat) (b : Threads) : BufferState Nat where
  sems m := (s.kernel.account b (h m)).toSemaphore
  call := s.call
  members := s.members

structure Inv (s : BufferSystem) (h : BufferSem → Nat) (c : Nat) (b : Threads) (recs : List Nat)
    (busy : Finset Nat) : Prop extends rest : s.kernel.Rest b recs where
  apart : Injective h
  opened : ∀ m, h m ∈ s.kernel.hist.opened
  buffer : (s.buffer h b).Inv c busy

end BufferSystem

/-! ## Traps and the semaphores of the buffer -/

section
variable {k k₁ : Kernel} {tr : Trap} {b b' : Threads} {recs recs' : List Nat} {s : Nat}
  {h : BufferSem → Nat}

/-- A wait on `s`, as a wait on its count and queue. -/
theorem Kernel.WaitsOn.semaphore {k' : Kernel} {context : Nat}
    (waits : k.WaitsOn s context b.queue k')
    (inv' : k'.Inv b' recs') : (k'.account b' s).toSemaphore =
      (k.account b s).toSemaphore.wait k.scheduler.threadCurrent := by
  have val : (k'.sem s).val = (k.sem s).val - 1 := waits.val
  show Semaphore.mk (k'.sem s).val (b'.queue (.sem s)) = ⟨(k.sem s).val - 1,
    if (k.sem s).val - 1 < 0 then b.queue (.sem s) ++ [_] else b.queue (.sem s)⟩
  rw [← val]
  congr 1
  split
  · next below => rw [← inv'.queues_eq (waits.blocks below).1, update_self]
  · next above => rw [← inv'.queues_eq (waits.passes above).1]

/-- A signal on `s`, as a signal on its count and queue. -/
theorem Kernel.SignalsOn.semaphore {k' : Kernel} {context : Nat}
    (signals : k.SignalsOn s context b.queue k') (inv' : k'.Inv b' recs')
    (balanced : (k.account b s).Balanced) :
    (k'.account b' s).toSemaphore = (k.account b s).toSemaphore.signal := by
  have val : (k'.sem s).val = (k.sem s).val + 1 := signals.val
  have queue : b'.queue (.sem s) = (k.account b s).toSemaphore.signal.queue := by
    rw [balanced.signal_queue]
    show _ = (b.queue (.sem s)).tail
    cases first : b.queue (.sem s) with
    | nil => rw [← inv'.queues_eq (signals.unheard first).1, first, List.tail_nil]
    | cons w ws =>
      rw [← inv'.queues_eq (signals.heard w ws first).1, update_of_ne (by simp), update_self,
        List.tail_cons]
  show Semaphore.mk (k'.sem s).val (b'.queue (.sem s)) = ⟨(k.sem s).val + 1, _⟩
  rw [val, queue]
  rfl

/-- A semaphore that is open and that the trap does not name keeps its count and queue. -/
theorem Handled.unnamed (handled : Handled (enter k tr) b recs k₁ b' recs') (inv : k.Inv b recs)
    (opened : s ∈ k.hist.opened)
    (apart : ∀ code ∈ [syscallSemClose, syscallSemWait, syscallSemSignal], tr.Calls code →
      tr.regs regA1 ≠ s) :
    s ∈ (leave k₁).hist.opened ∧
      ((leave k₁).account b' s).toSemaphore = (k.account b s).toSemaphore := by
  cases handled.sem inv s with
  | kept same still => exact ⟨still.mpr opened, congrArg Account.toSemaphore same⟩
  | opened _ fresh => exact absurd opened fresh
  | closed call arg => exact absurd arg (apart _ (by simp) call)
  | waited call arg => exact absurd arg (apart _ (by simp) call)
  | signalled call arg => exact absurd arg (apart _ (by simp) call)

end

namespace BufferSystem

section
variable {k₀ : Kernel} {s s' : BufferSystem} {h : BufferSem → Nat} {c : Nat} {b : Threads}
  {recs : List Nat} {busy : Finset Nat}

theorem Inv.runs (inv : s.Inv h c b recs busy) (m : BufferSem) :
    s.running ∉ ((s.buffer h b).sems m).queue := fun queued =>
  inv.rest.inv.notRunning (i := .sem (h m)) queued rfl

/-- A step that is no trap is a step of the buffer. -/
theorem Inv.step (inv : s.Inv h c b recs busy) (small : c < 2 ^ 31 - 1)
    (kernel : s'.kernel = s.kernel)
    (step : BufferStep (c + 1) s.running (s.buffer h b) (s'.buffer h b)) :
    ∃ busy', s'.Inv h c b recs busy' := by
  obtain ⟨busy', buffer⟩ := BufferState.step_inv inv.buffer small step
  exact ⟨busy', kernel ▸ inv.rest, inv.apart, kernel ▸ inv.opened, buffer⟩

/-- No more threads can wait than there are blocks. -/
theorem Inv.low (inv : s.Inv h c b recs busy) (m : BufferSem) :
    -2 ^ 31 < (s.kernel.sem (h m)).val := by
  have balanced : (b.queue (.sem (h m))).length = (-(s.kernel.sem (h m)).val).toNat :=
    inv.buffer.balanced m
  have le := inv.rest.inv.queue_length_le (s := h m)
  have bound := inv.rest.inv.owns.ok.bound
  omega

/-- A trap that names the semaphore `m` of the buffer changes it, and nothing else. -/
theorem Inv.named (inv : s.Inv h c b recs busy) (small : c < 2 ^ 31 - 1) {k₁ : Kernel}
    {b' : Threads} {recs' : List Nat} {tr : Trap} {m : BufferSem} {sem : Semaphore Nat}
    {call' : Option Call} (rest' : (leave k₁).Rest b' recs')
    (handled : Handled (enter s.kernel tr) b recs k₁ b' recs') (arg : tr.regs regA1 = h m)
    (noClose : ¬ tr.Calls syscallSemClose)
    (here : ((leave k₁).account b' (h m)).toSemaphore = sem)
    (step : BufferStep (c + 1) s.running (s.buffer h b) { s.buffer h b with
      sems := update (s.buffer h b).sems m sem, call := update s.call s.running call' }) :
    ∃ b' recs' busy', Inv { s with kernel := leave k₁, call := update s.call s.running call' }
      h c b' recs' busy' := by
  have sems : (fun m' => ((leave k₁).account b' (h m')).toSemaphore) =
      update (s.buffer h b).sems m sem := by
    funext m'
    by_cases same : m' = m
    · subst same
      rw [update_self, here]
    · have unnamed := handled.unnamed inv.rest.inv (inv.opened m') fun _ _ _ named =>
        same (inv.apart (named.symm.trans arg))
      rw [update_of_ne same, unnamed.2]
      rfl
  obtain ⟨busy', kept⟩ := BufferState.step_inv inv.buffer small step
  refine ⟨b', recs', busy', rest', inv.apart,
    fun m' => handled.staysOpen inv.rest.inv (absurd · noClose) (inv.opened m'), ?_⟩
  unfold BufferSystem.buffer
  dsimp only
  rw [sems]
  exact kept

theorem other_call {tr : Trap} {code : Nat} (call : tr.Calls code) (ne : code ≠ syscallSemClose) :
    ¬ tr.Calls syscallSemClose := fun close => ne (call.2.symm.trans close.2)

section
variable {m : BufferSem} {tr : Trap} {k₁ : Kernel} {b' : Threads} {recs' : List Nat}

/-- What a wait on a semaphore of the buffer does to the threads. -/
theorem Inv.waitsOn (inv : s.Inv h c b recs busy) (small : c < 2 ^ 31 - 1)
    (handled : Handled (enter s.kernel tr) b recs k₁ b' recs') (inv' : k₁.Inv b' recs')
    (calls : tr.Calls syscallSemWait) (arg : tr.regs regA1 = h m) :
    (bumpSepc (enter s.kernel tr) 4).WaitsOn (h m) tr.frame b.queue k₁ := by
  have low := inv.low m
  have high : (s.kernel.sem (h m)).val ≤ max (c : Int) 1 := inv.buffer.val_le m
  exact (handled.call calls).waitsOn inv' (called_arg.trans arg)
    (toI32_eq (x := (s.kernel.sem (h m)).val - 1) (by omega) (by omega))

theorem Inv.signalsOn (inv : s.Inv h c b recs busy) (small : c < 2 ^ 31 - 1)
    (handled : Handled (enter s.kernel tr) b recs k₁ b' recs') (inv' : k₁.Inv b' recs')
    (calls : tr.Calls syscallSemSignal) (arg : tr.regs regA1 = h m) :
    (bumpSepc (enter s.kernel tr) 4).SignalsOn (h m) tr.frame b.queue k₁ := by
  have low := inv.low m
  have high : (s.kernel.sem (h m)).val ≤ max (c : Int) 1 := inv.buffer.val_le m
  exact (handled.call calls).signalsOn ((enter_inv inv.rest.inv tr).congr rfl rfl) inv'
    (called_arg.trans arg) (toI32_eq (x := (s.kernel.sem (h m)).val + 1) (by omega) (by omega))
    (inv.buffer.balanced m)

end

/-- A wait on a semaphore of the buffer. -/
theorem Inv.wait (inv : s.Inv h c b recs busy) (small : c < 2 ^ 31 - 1) {call : Call}
    {m : BufferSem} {tr : Trap} {k' : Kernel} (here : s.call s.running = some call)
    (waits : call.waitsFor = some m) (fits : tr.Fits s.kernel) (calls : tr.Calls syscallSemWait)
    (arg : tr.regs regA1 = h m) (taken : trap s.kernel tr = .ok k') : ∃ b' recs' busy',
      Inv { s with kernel := k', call := update s.call s.running call.next }
        h c b' recs' busy' := by
  obtain ⟨k₁, b', recs', rfl, handled, rest'⟩ := trap_rest inv.rest fits taken
  have inv₁ : k₁.Inv b' recs' := rest'.inv.congr rfl rfl
  have effect := inv.waitsOn small handled inv₁ calls arg
  exact inv.named small rest' handled arg (other_call calls (by decide)) (effect.semaphore inv₁)
    (.wait inv.runs here waits)

/-- A signal on a semaphore of the buffer. -/
theorem Inv.signal (inv : s.Inv h c b recs busy) (small : c < 2 ^ 31 - 1) {call : Call}
    {m : BufferSem} {tr : Trap} {k' : Kernel} (here : s.call s.running = some call)
    (signals : call.signalsTo = some m) (fits : tr.Fits s.kernel)
    (calls : tr.Calls syscallSemSignal) (arg : tr.regs regA1 = h m)
    (taken : trap s.kernel tr = .ok k') : ∃ b' recs' busy',
      Inv { s with kernel := k', call := update s.call s.running call.next }
        h c b' recs' busy' := by
  obtain ⟨k₁, b', recs', rfl, handled, rest'⟩ := trap_rest inv.rest fits taken
  have inv₁ : k₁.Inv b' recs' := rest'.inv.congr rfl rfl
  have effect := inv.signalsOn small handled inv₁ calls arg
  exact inv.named small rest' handled arg (other_call calls (by decide))
    (effect.semaphore inv₁ (inv.buffer.balanced m)) (.signal inv.runs here signals)

/-- **Steps.** -/
theorem step_inv (inv : s.Inv h c b recs busy) (small : c < 2 ^ 31 - 1)
    (step : Step h (c + 1) s s') : ∃ b' recs' busy', s'.Inv h c b' recs' busy' := by
  cases step with
  | start side v idle =>
    exact ⟨b, recs, inv.step small rfl (.start side v inv.runs idle)⟩
  | moves here moves => exact ⟨b, recs, inv.step small rfl (.moves inv.runs here moves)⟩
  | wait here waits fits call arg taken => exact inv.wait small here waits fits call arg taken
  | signal here signals fits call arg taken =>
    exact inv.signal small here signals fits call arg taken
  | other fits taken _ apart =>
    obtain ⟨k₁, b', recs', rfl, handled, rest'⟩ := trap_rest inv.rest fits taken
    have unnamed := fun m => handled.unnamed inv.rest.inv (inv.opened m) fun code mem call =>
      apart code mem call m
    refine ⟨b', recs', busy, rest', inv.apart, fun m => (unnamed m).1, ?_⟩
    unfold buffer
    dsimp only
    rw [funext fun m => (unnamed m).2]
    exact inv.buffer

/-- A buffer that is just built. -/
theorem Built.inv (built : s.Built h c) (rest : s.kernel.Rest b recs) : s.Inv h c b recs ∅ := by
  have queue : ∀ m, b.queue (.sem (h m)) = [] := fun m => by
    have ring : IsRing s.kernel.links (s.kernel.sem (h m)).waitingThreads (b.queue (.sem (h m))) :=
      rest.places.rings.ring (.sem (h m)) (built.opened m)
    rw [built.nobody m] at ring
    exact ring.unique rfl
  exact ⟨rest, built.apart, built.opened, BufferState.inv_built built.val queue built.idle
    built.index built.done built.unread⟩

theorem reached_inv (small : c < 2 ^ 31 - 1) (reached : Reached k₀ h c s) :
    ∃ b recs busy, s.Inv h c b recs busy := by
  induction reached with
  | built run built =>
    obtain ⟨b, recs, rest⟩ := run_rest run
    exact ⟨b, recs, ∅, built.inv rest⟩
  | step _ step ih =>
    obtain ⟨b, recs, busy, inv⟩ := ih
    exact step_inv inv small step

end

/-- **The bounded buffer.** In every run of a kernel whose threads use the buffer, no slot is
overwritten before it is read or read before it is written, at most `c` values are stored, and
the values come out in the order in which they went in. -/
theorem bounded_buffer {k₀ : Kernel} {h : BufferSem → Nat} {c : Nat} {s : BufferSystem}
    (small : c < 2 ^ 31 - 1) (reached : Reached k₀ h c s) : s.Safe c := by
  obtain ⟨b, recs, busy, inv⟩ := reached_inv small reached
  obtain ⟨few, order, free, stored⟩ := inv.buffer.safe
  exact ⟨few, order, fun r v => free s.running r v inv.runs,
    fun r v => stored s.running r v inv.runs⟩

/-- The first user thread of the small machine opens semaphores with these units, the last first. -/
theorem small_opened (units : List Nat) (few : units.length ≤ 20)
    (small : ∀ n ∈ units, n < 2 ^ 31) :
    ∃ k b p, FirstUser smallKernel k b p ∧
      k.hist.opened.map (fun s => (k.sem s).val) = units.map Nat.cast := by
  induction units with
  | nil =>
    obtain ⟨k, b, p, user, opened, -⟩ := first_user smallKernel_platform anyTrap fun _ _ => trivial
    exact ⟨k, b, p, user, by rw [opened]; rfl⟩
  | cons n units ih =>
    obtain ⟨k, b, p, user, vals⟩ := ih (Nat.le_of_succ_le few) fun m hm =>
      small m (List.mem_cons_of_mem n hm)
    have lt : n < 2 ^ 31 := small n List.mem_cons_self
    have len : k.hist.opened.length = units.length := by
      rw [← List.length_map (f := fun s => (k.sem s).val), vals, List.length_map]
    have room : k.heap.HasRoom (sizeInBlocks 16) := small_room user.rest.inv user.start user.stop
      user.live user.userBlocks (by
        rw [List.length_cons] at few
        simp only [List.length_nil]
        omega)
    obtain ⟨k', s, user', opened, same, val, -⟩ := user.opens user.run room
      (show n < 2 ^ 64 by omega) trivial
    have word : toI32 (n % 2 ^ 32 : Nat) = n := by rw [toI32_eq] <;> omega
    refine ⟨k', b, p, user', ?_⟩
    rw [opened, List.map_cons, List.map_cons, val, word, ← vals]
    exact congrArg _ (List.map_congr_left fun s' hs' => by rw [same s' hs'])

/-- The first user thread of the small machine builds a buffer. -/
theorem small_built (c : Nat) (small : c < 2 ^ 31) : ∃ s h b p,
    FirstUser smallKernel s.kernel b p ∧ Built h c s ∧
      s.members = ⟨fun _ => 0, fun _ => 0, fun _ => [], ∅⟩ := by
  obtain ⟨k, b, p, user, vals⟩ := small_opened [1, 1, c, 0] (by simp) (by simp; omega)
  have nodup : k.hist.opened.Nodup := (owned_nodup user.rest.inv.owns).2.2
  simp only [List.map_cons, List.map_nil, List.map_eq_cons_iff, List.map_eq_nil_iff] at vals
  -- the last semaphore that was opened comes first
  obtain ⟨tail, _, opened, val₁, head, _, rfl, val₂, space, _, rfl, val₃, item, _, rfl, val₄,
    rfl⟩ :=
    vals
  rw [opened] at nodup
  let h : BufferSem → Nat
    | .available .put => space
    | .available .get => item
    | .mutex .put => tail
    | .mutex .get => head
  have mem : ∀ m, h m ∈ k.hist.opened := by
    rintro ((_ | _) | (_ | _)) <;> simp [opened, h]
  refine ⟨⟨k, fun _ => none, fun _ => 0, fun _ => 0, fun _ => [], ∅⟩, h, b, p, user,
    ⟨?_, mem, ?_, fun m => ?_, fun _ => rfl, fun _ => rfl, fun _ => rfl, rfl⟩, rfl⟩
  · simp only [List.nodup_cons, List.mem_cons, List.not_mem_nil, not_or] at nodup
    rintro ((_ | _) | (_ | _)) ((_ | _) | (_ | _)) same <;> simp_all [h]
  · rintro ((_ | _) | (_ | _))
    · exact val₃
    · exact val₄
    · exact val₁
    · exact val₂
  · have ring := user.rest.places.rings.ring (.sem (h m)) (mem m)
    rw [user.idle] at ring
    exact ring

/-- Only the first user thread `p` of the small machine uses the buffer for 5 values: its call is
`c`, and the semaphores have the values `v`. -/
structure Alone (s : BufferSystem) (h : BufferSem → Nat) (p : Nat) (v : BufferSem → Int)
    (c : Option Call) (ms : Buffer.Members) : Prop where
  reached : Reached smallKernel h 5 s
  user : ∃ b, FirstUser smallKernel s.kernel b p
  opened : ∀ m, h m ∈ s.kernel.hist.opened
  apart : Injective h
  val : ∀ m, (s.kernel.sem (h m)).val = v m
  call : s.call p = c
  members : s.members = ms

section
variable {s : BufferSystem} {h : BufferSem → Nat} {p : Nat} {v : BufferSem → Int}
  {c : Option Call} {call : Call} {ms : Buffer.Members} {m : BufferSem} {x : Int}

theorem Alone.running (alone : s.Alone h p v c ms) : s.running = p := by
  obtain ⟨b, user⟩ := alone.user
  exact user.current

theorem Alone.start (alone : s.Alone h p v none ms) (side : Side) (x : Int) :
    ∃ s', Alone s' h p v (some ⟨side, .waitAvailable, 0, x⟩) ms := by
  have idle : s.call s.running = none := alone.running ▸ alone.call
  refine ⟨_, .step alone.reached (.start side x idle), alone.user, alone.opened, alone.apart,
    alone.val, ?_, alone.members⟩
  show update s.call s.running _ p = _
  rw [alone.running, update_self]

theorem Alone.moves (alone : s.Alone h p v (some call) ms) {call' : Call} {ms' : Buffer.Members}
    (moves : Call.Moves ((5 : Nat) + 1) call ms call' ms') :
    ∃ s', Alone s' h p v (some call') ms' := by
  have here : s.call s.running = some call := alone.running ▸ alone.call
  refine ⟨_, .step alone.reached (.moves here (alone.members.symm ▸ moves)), alone.user,
    alone.opened, alone.apart, alone.val, ?_, rfl⟩
  show update s.call s.running _ p = _
  rw [alone.running, update_self]

/-- A trap that only changes the semaphore `m`. -/
theorem Alone.trap (alone : s.Alone h p v (some call) ms) {k' : Kernel} {b : Threads}
    (step : Step h ((5 : Nat) + 1) s
      { s with kernel := k', call := update s.call s.running call.next })
    (user : FirstUser smallKernel k' b p) (opened : k'.hist.opened = s.kernel.hist.opened)
    (sem : k'.sem = update s.kernel.sem (h m) { s.kernel.sem (h m) with val := x }) :
    ∃ s', Alone s' h p (update v m x) call.next ms := by
  refine ⟨_, .step alone.reached step, ⟨b, user⟩, fun m => opened ▸ alone.opened m, alone.apart,
    fun m' => ?_, ?_, alone.members⟩
  · show (k'.sem (h m')).val = _
    rw [sem]
    by_cases same : m' = m
    · rw [same, update_self, update_self]
    · rw [update_of_ne (alone.apart.ne same), update_of_ne same, alone.val]
  · show update s.call s.running _ p = _
    rw [alone.running, update_self]

theorem Alone.wait (alone : s.Alone h p v (some call) ms) (waits : call.waitsFor = some m)
    (units : 0 < v m) (range : v m < 2 ^ 31) :
    ∃ s', Alone s' h p (update v m (v m - 1)) call.next ms := by
  obtain ⟨b, user⟩ := alone.user
  have here : s.call s.running = some call := alone.running ▸ alone.call
  rw [← alone.val] at units range ⊢
  obtain ⟨k', fits, taken, user', opened, sem⟩ := user.waits (alone.opened m) units range
  exact alone.trap (.wait here waits fits ⟨rfl, rfl⟩ rfl taken) user' opened sem

theorem Alone.signal (alone : s.Alone h p v (some call) ms) (signals : call.signalsTo = some m)
    (units : 0 ≤ v m) (range : v m < 2 ^ 31 - 1) :
    ∃ s', Alone s' h p (update v m (v m + 1)) call.next ms := by
  obtain ⟨b, user⟩ := alone.user
  have here : s.call s.running = some call := alone.running ▸ alone.call
  rw [← alone.val] at units range ⊢
  obtain ⟨k', fits, taken, user', opened, sem⟩ := user.signals (alone.opened m) units range
  exact alone.trap (.signal here signals fits ⟨rfl, rfl⟩ rfl taken) user' opened sem

/-- The units of the semaphores when `n` values are stored and nobody uses the buffer. -/
def unitsWith (n : Int) : BufferSem → Int
  | .available .put => 5 - n
  | .available .get => n
  | .mutex _ => 1

/-- The units while somebody is between the two waits and the two signals. -/
def unitsInside (n : Int) (side : Side) : BufferSem → Int :=
  update (update (unitsWith n) (.available side) (unitsWith n (.available side) - 1))
    (.mutex side) 0

/-- How many values are stored after a call, when `n` were. -/
def storedAfter (n : Int) : Side → Int
  | .put => n + 1
  | .get => n - 1

theorem unitsInside_leaves (n : Int) (side : Side) :
    update (update (unitsInside n side) (.mutex side) 1) (.available side.other)
      (unitsWith n (.available side.other) + 1) = unitsWith (storedAfter n side) := by
  funext m
  rcases m with (_ | _) | (_ | _) <;> cases side
  all_goals simp [unitsInside, unitsWith, storedAfter, Side.other]
  all_goals omega

theorem Alone.enters {n : Int} (alone : s.Alone h p (unitsWith n) none ms) (side : Side) (x : Int)
    (units : 0 < unitsWith n (.available side)) (few : unitsWith n (.available side) < 2 ^ 31) :
    ∃ s', Alone s' h p (unitsInside n side) (some ⟨side, .access, ms.index side, x⟩) ms := by
  obtain ⟨s₁, alone₁⟩ := alone.start side x
  obtain ⟨s₂, alone₂⟩ := alone₁.wait rfl units few
  have mutex : update (unitsWith n) (.available side) (unitsWith n (.available side) - 1)
      (.mutex side) = 1 := update_of_ne (by simp) _ _
  obtain ⟨s₃, alone₃⟩ := alone₂.wait (m := .mutex side) rfl (by rw [mutex]; decide)
    (by rw [mutex]; decide)
  rw [mutex] at alone₃
  exact alone₃.moves (.loadIndex ..)

theorem Alone.leaves {n r : Int} {side : Side}
    (alone : s.Alone h p (unitsInside n side) (some ⟨side, .reload, r, x⟩) ms)
    (low : 0 ≤ unitsWith n (.available side.other))
    (few : unitsWith n (.available side.other) < 2 ^ 31 - 1) :
    ∃ s', Alone s' h p (unitsWith (storedAfter n side)) none
      { ms with index := update ms.index side (nextIndex ((5 : Nat) + 1) (ms.index side)) } := by
  obtain ⟨s₁, alone₁⟩ := alone.moves (.reload ..)
  obtain ⟨s₂, alone₂⟩ := alone₁.moves (.advance ..)
  have mutex : unitsInside n side (.mutex side) = 0 := update_self ..
  obtain ⟨s₃, alone₃⟩ := alone₂.signal (m := .mutex side) rfl (by rw [mutex])
    (by rw [mutex]; decide)
  have other : update (unitsInside n side) (.mutex side) (unitsInside n side (.mutex side) + 1)
      (.available side.other) = unitsWith n (.available side.other) := by
    cases side <;> rfl
  obtain ⟨s₄, alone₄⟩ := alone₃.signal (m := .available side.other) rfl (by rw [other]; exact low)
    (by rw [other]; exact few)
  rw [other, mutex, show (0 : Int) + 1 = 1 from rfl, unitsInside_leaves] at alone₄
  exact ⟨s₄, alone₄⟩

theorem Alone.put {n : Int} (alone : s.Alone h p (unitsWith n) none ms) (low : 0 ≤ n) (few : n < 5)
    (x : Int) : ∃ s', Alone s' h p (unitsWith (n + 1)) none { ms with
      index := update ms.index .put (nextIndex ((5 : Nat) + 1) (ms.index .put))
      slots := update ms.slots (ms.index .put) x
      done := update ms.done .put (ms.done .put ++ [x])
      unread := insert (ms.index .put) ms.unread } := by
  obtain ⟨s₁, alone₁⟩ := alone.enters .put x (show (0 : Int) < 5 - n by omega)
    (show 5 - n < 2 ^ 31 by omega)
  obtain ⟨s₂, alone₂⟩ := alone₁.moves (.store ..)
  exact alone₂.leaves (show 0 ≤ n from low) (show n < 2 ^ 31 - 1 by omega)

theorem Alone.get {n : Int} (alone : s.Alone h p (unitsWith n) none ms) (some : 0 < n)
    (few : n ≤ 5) :
    ∃ s', Alone s' h p (unitsWith (n - 1)) none { ms with
      index := update ms.index .get (nextIndex ((5 : Nat) + 1) (ms.index .get))
      done := update ms.done .get (ms.done .get ++ [ms.slots (ms.index .get)])
      unread := ms.unread.erase (ms.index .get) } := by
  obtain ⟨s₁, alone₁⟩ := alone.enters .get 0 (show 0 < n from some) (show n < 2 ^ 31 by omega)
  obtain ⟨s₂, alone₂⟩ := alone₁.moves (.read ..)
  exact alone₂.leaves (show 0 ≤ 5 - n by omega) (show 5 - n < 2 ^ 31 - 1 by omega)

end

/-- The first user thread of the small machine has just built a buffer. -/
theorem small_alone : ∃ s h p, Alone s h p (unitsWith 0) none
    ⟨fun _ => 0, fun _ => 0, fun _ => [], ∅⟩ := by
  obtain ⟨s, h, b, p, user, built, members⟩ := small_built 5 (by decide)
  refine ⟨s, h, p, .built user.run built, ⟨b, user⟩, built.opened, built.apart, fun m => ?_,
    built.idle p, members⟩
  rw [built.val]
  rcases m with (_ | _) | _ <;> rfl

/-- Two whole calls of `put` and one of `get`. -/
theorem bounded_buffer_small : ∃ s h, Reached smallKernel h 5 s ∧ s.members.done .put = [7, 8] ∧
    s.members.done .get = [7] ∧ s.members.unread = {1} ∧ s.Safe 5 := by
  obtain ⟨s, h, p, alone⟩ := small_alone
  obtain ⟨s₁, alone₁⟩ := alone.put (by decide) (by decide) 7
  obtain ⟨s₂, alone₂⟩ := alone₁.put (by decide) (by decide) 8
  obtain ⟨s₃, alone₃⟩ := alone₂.get (by decide) (by decide)
  refine ⟨s₃, h, alone₃.reached, ?_, ?_, ?_, bounded_buffer (by decide) alone₃.reached⟩
  all_goals
    rw [alone₃.members]
    decide

end BufferSystem

end RiscvKernel
