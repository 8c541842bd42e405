import RiscvKernel.Runs

/-!
# Time slices

* `Handled.sliced`: the threads that get a new time slice are those that enter
  the ready queue, and the timer shortens the current one;
* `slices_in_range`: in every run time slices stay in range, and the timer
  takes the hart from a thread in time.
-/

namespace RiscvKernel
open Function Intrusive Placement

/-- The threads `ts` get a new time slice; they are in the ready queue then, and
with threads that were there before. -/
structure Kernel.Sliced (k k' : Kernel) (b b' : Threads) (ts : List Nat) : Prop where
  slices : ∀ t, k'.slice t = if t ∈ ts then defaultTimeSlice else k.slice t
  ready : ∀ t ∈ b'.queue .ready, t ∈ b.queue .ready ∨ t ∈ ts
  queued : b.queue .ready ≠ [] → ∀ t ∈ ts, t ∈ b'.queue .ready

section
variable {k k' : Kernel} {context code : Nat} {b b' : Threads} {recs recs' : List Nat}

theorem sliced_none (slice : k'.slice = k.slice)
    (queue : b'.queue .ready = b.queue .ready ∨ b'.queue .ready = (b.queue .ready).tail) :
    k.Sliced k' b b' [] := by
  refine ⟨fun t => by simp [slice], fun t ht => Or.inl ?_, by simp⟩
  rcases queue with same | tail
  · rwa [same] at ht
  · rw [tail] at ht
    exact List.mem_of_mem_tail ht

theorem sliced_append {ts : List Nat}
    (slice : ∀ t, k'.slice t = if t ∈ ts then defaultTimeSlice else k.slice t)
    (queue : b'.queue .ready = b.queue .ready ++ ts) : k.Sliced k' b b' ts := by
  refine ⟨slice, fun t ht => ?_, fun _ t ht => ?_⟩
  · rwa [queue, List.mem_append] at ht
  · rw [queue]
    exact List.mem_append_right _ ht

/-- The same when the first thread of the queue leaves it. -/
theorem sliced_rotate {ts : List Nat}
    (slice : ∀ t, k'.slice t = if t ∈ ts then defaultTimeSlice else k.slice t)
    (queue : b'.queue .ready = (b.queue .ready ++ ts).tail) : k.Sliced k' b b' ts := by
  refine ⟨slice, fun t ht => ?_, fun nonempty t ht => ?_⟩
  · rw [queue] at ht
    exact List.mem_append.mp (List.mem_of_mem_tail ht)
  · rw [queue, List.tail_append_of_ne_nil nonempty]
    exact List.mem_append_right _ ht

theorem slice_one {p : Nat} (slice : k'.slice = update k.slice p defaultTimeSlice) (t : Nat) :
    k'.slice t = if t ∈ [p] then defaultTimeSlice else k.slice t := by
  rw [slice, update_apply]
  simp

theorem putcRefused_slice (k : Kernel) (ch : UInt8) : (k.putcRefused ch).slice = k.slice := by
  funext t
  show (update k.thread k.scheduler.threadCurrent _ t).timeLeft = _
  rw [update_apply]
  split
  · next h => rw [h]; rfl
  · rfl

theorem Called.sliced (called : Called k context b recs code k' b' recs') :
    ∃ ts, k.Sliced k' b b' ts := by
  cases called with
  | memAlloc p heap =>
    refine ⟨[], sliced_none ?_ (Or.inl rfl)⟩
    unfold Kernel.memAlloced
    split <;> rfl
  | getcBlocked none queue => exact ⟨[], sliced_none (switch_slice k) (by simp [queue])⟩
  | putcRefused _ queue =>
    refine ⟨[k.scheduler.threadCurrent], sliced_rotate (slice_one ?_) (by simp [queue])⟩
    rw [dispatch_slice, putcRefused_slice]
    rfl
  | @created p b' heap _ _ _ queue =>
    refine ⟨[p], sliced_append (slice_one ?_) (by simp [queue])⟩
    rw [setContext_slice, threadCreated_slice]
  | exited heap queue =>
    exact ⟨[], sliced_none (switch_slice ((schedulerUserThreadDecrement k).note fun h =>
      { h with live := h.live.erase k.scheduler.threadCurrent })) (by simp [queue])⟩
  | dispatched queue =>
    exact ⟨[k.scheduler.threadCurrent], sliced_rotate (slice_one (dispatch_slice k))
      (by simp [queue])⟩
  | @closed s b' arg heap queue =>
    exact ⟨b.queue (.sem s), sliced_append
      (pushAll_slice (k.note fun h => { h with opened := h.opened.erase s }) _) (by simp [queue])⟩
  | @blocked s b' arg blocks queue =>
    exact ⟨[], sliced_none (switch_slice (k.waited s)) (by simp [queue])⟩
  | @woke s w ws b' arg below first queue =>
    refine ⟨[w], sliced_append (slice_one ?_) (by simp [queue])⟩
    rw [setContext_slice]
    exact schedulerPush_slice _ w
  | @slept k₁ p front back b' put queue =>
    refine ⟨[], sliced_none ((switch_slice k₁).trans ?_) (by simp [queue])⟩
    rw [put.frame]
    rfl
  | _ => exact ⟨[], sliced_none rfl (Or.inl rfl)⟩

theorem ticked_slice {k k₁ : Kernel} {gone left : List Nat} (ticked : k.Ticked k₁ recs gone left)
    (t : Nat) : k₁.slice t = if t ∈ gone.map (fun r => (k.sleeping r).thread) then
      defaultTimeSlice else k.slice t := by
  have slice := pushAll_slice { k with sleeping := k₁.sleeping }
    (gone.map fun r => (k.sleeping r).thread) t
  rw [ticked.frame]
  exact slice

/-- **Time slices.** The timer takes a tick from the current thread, which is
queued with a new time slice when none is left. -/
theorem Handled.sliced (handled : Handled k b recs k' b' recs') :
    (∃ ts, k.Sliced k' b b' ts ∧
      (k.hart.scause = irqTimer → k.scheduler.threadCurrent ∈ ts)) ∨
    k.hart.scause = irqTimer ∧ ∃ k₁ ts, k' = k₁.spend ∧
      k₁.scheduler.threadCurrent = k.scheduler.threadCurrent ∧ k.Sliced k₁ b b' ts := by
  have user : irqEcallUser ≠ irqTimer := by decide
  have kernel : irqEcallKernel ≠ irqTimer := by decide
  have hw : irqHw ≠ irqTimer := by decide
  cases handled with
  | ignored _ _ timer =>
    exact Or.inl ⟨[], sliced_none rfl (Or.inl rfl), fun h => absurd h timer⟩
  | @console ws rest input bytes b' cause _ _ delivered queue =>
    exact Or.inl ⟨ws, sliced_append delivered.slices (by simp [queue]),
      fun h => absurd (cause.symm.trans h) hw⟩
  | @ticked k₁ gone left b' cause ticked queue =>
    exact Or.inr ⟨cause, k₁, _, rfl, ticked_current ticked,
      sliced_append (ticked_slice ticked) (by simp [queue])⟩
  | @preempted k₁ gone left b' cause ticked queue =>
    have current := ticked_current ticked
    refine Or.inl ⟨gone.map (fun r => (k.sleeping r).thread) ++ [k.scheduler.threadCurrent],
      sliced_rotate (fun t => ?_) (by simp [queue]), fun _ => by simp⟩
    rw [dispatch_slice, update_apply, current, ticked_slice ticked]
    by_cases h : t = k.scheduler.threadCurrent <;> simp [h]
  | called cause called =>
    obtain ⟨ts, sliced⟩ := called.sliced
    exact Or.inl ⟨ts, ⟨sliced.slices, sliced.ready, sliced.queued⟩,
      fun h => absurd (cause.symm.trans h) user⟩
  | mainIgnored cause =>
    exact Or.inl ⟨[], sliced_none rfl (Or.inl rfl), fun h => absurd (cause.symm.trans h) kernel⟩
  | mainDispatched cause queue =>
    exact Or.inl ⟨[], sliced_none (switch_slice _) (by simp [queue]),
      fun h => absurd (cause.symm.trans h) kernel⟩

/-- A thread that keeps the hart while another one is ready pays for its ticks. -/
theorem Handled.stays (handled : Handled k b recs k' b' recs') (inv' : k'.Inv b' recs')
    (slice : 1 ≤ k.slice k.scheduler.threadCurrent) (range : k.slice k.scheduler.threadCurrent ≤ 2)
    (ready : b.queue .ready ≠ [])
    (same : k'.scheduler.threadCurrent = k.scheduler.threadCurrent) :
    k'.slice k.scheduler.threadCurrent + (if k.hart.scause = irqTimer then 1 else 0) =
      k.slice k.scheduler.threadCurrent := by
  have out : k.scheduler.threadCurrent ∉ b'.queue .ready := by
    intro queued
    have running := inv'.running.mpr same.symm
    exact absurd ((b'.mem_queue.mp queued).symm.trans running) (by simp)
  rcases handled.sliced with ⟨ts, sliced, timer⟩ | ⟨timer, k₁, ts, rfl, current, sliced⟩
  · have notIn : k.scheduler.threadCurrent ∉ ts := fun h => out (sliced.queued ready _ h)
    rw [if_neg fun h => notIn (timer h), sliced.slices, if_neg notIn]
    rfl
  · have notIn : k.scheduler.threadCurrent ∉ ts := fun h => out (sliced.queued ready _ h)
    have before : k₁.slice k.scheduler.threadCurrent = k.slice k.scheduler.threadCurrent := by
      rw [sliced.slices, if_neg notIn]
    have spent : k₁.spend.slice k.scheduler.threadCurrent =
        u64 (k₁.slice k.scheduler.threadCurrent - 1) := by
      rw [spend_slice, current, update_self]
    rw [if_pos timer, spent, before, u64_eq] <;> omega

/-- Every thread of the ready queue has a whole time slice. -/
def Kernel.Full (k : Kernel) (b : Threads) : Prop :=
  ∀ t ∈ b.queue .ready, k.slice t = defaultTimeSlice

theorem Kernel.Sliced.full {ts : List Nat} (sliced : k.Sliced k' b b' ts) (full : k.Full b) :
    k'.Full b' := by
  intro t ht
  rw [sliced.slices]
  split
  · rfl
  · next out => exact full t ((sliced.ready t ht).resolve_right out)

theorem Handled.full (handled : Handled k b recs k' b' recs') (inv' : k'.Inv b' recs')
    (full : k.Full b) : k'.Full b' := by
  rcases handled.sliced with ⟨ts, sliced, -⟩ | ⟨-, k₁, ts, rfl, current, sliced⟩
  · exact sliced.full full
  · intro t ht
    have ne : t ≠ k₁.scheduler.threadCurrent := by
      rintro rfl
      have running := inv'.running.mpr rfl
      exact absurd ((b'.mem_queue.mp ht).symm.trans running) (by simp)
    rw [spend_slice, update_of_ne ne]
    exact sliced.full full t ht

end

/-! ## Runs -/

/-- Time slices between two traps, and in the handlers that read them. -/
structure Kernel.SlicesInRange (k : Kernel) : Prop where
  current : 1 ≤ k.slice k.scheduler.threadCurrent ∧
    k.slice k.scheduler.threadCurrent ≤ defaultTimeSlice
  ready : ∀ ts, IsRing k.links k.scheduler.readyThreads ts → ∀ t ∈ ts,
    k.slice t = defaultTimeSlice
  others : ∀ t, k.view.Thread t → 1 ≤ k.slice t
  decrement : ∀ tr k₁, schedulerTick (enter k tr) = .ok k₁ →
    1 ≤ k₁.slice k.scheduler.threadCurrent
  waiter : ∀ tr s, s ∈ k.hist.opened → (k.sem s).waitingThreads ≠ 0 →
    let k₁ := (bumpSepc (enter k tr) 4).signalled s
    ((semNext k₁ s).2.thread (semNext k₁ s).1).timeLeft ≠ 0

/-- The traps from `k` to `k'`, `n` of them timer interrupts, leave the hart to
the thread `t` while another one is ready. -/
inductive Kernel.Keeps (t : Nat) (k : Kernel) : Nat → Kernel → Prop where
  | start (current : k.scheduler.threadCurrent = t) : k.Keeps t 0 k
  | trap {n k' tr k''} (before : k.Keeps t n k') (ready : k'.scheduler.readyThreads ≠ 0)
      (fits : tr.Fits k') (taken : trap k' tr = .ok k'')
      (current : k''.scheduler.threadCurrent = t) :
      k.Keeps t (n + if tr.scause = irqTimer then 1 else 0) k''

theorem Kernel.Keeps.from_current {k k' : Kernel} {t n : Nat} (keeps : k.Keeps t n k') :
    k.scheduler.threadCurrent = t := by
  induction keeps with
  | start current => exact current
  | trap _ _ _ _ _ ih => exact ih

theorem Kernel.Booted.full {k₀ k : Kernel} {b : Threads} {p stackSpace : Nat}
    (booted : k₀.Booted k b p stackSpace) : k.Full b := by
  intro t ht
  rw [booted.queue, update_self] at ht
  rw [List.mem_singleton.mp ht]
  exact booted.slice

section
variable {k : Kernel} {b : Threads} {recs : List Nat}

theorem Kernel.Inv.slice_range (inv : k.Inv b recs) {t : Nat} (thread : k.view.Thread t) :
    1 ≤ k.slice t ∧ k.slice t ≤ 2 := by
  have slice : k.slice t = 1 ∨ k.slice t = 2 := inv.places.slices thread
  omega

theorem Kernel.Rest.slicesInRange (rest : k.Rest b recs) (full : k.Full b) : k.SlicesInRange where
  current := rest.inv.slice_range rest.current_thread
  ready ts ring t ht := by
    rw [ring.unique (rest.places.rings.ring .ready trivial)] at ht
    exact full t ht
  others t thread := (rest.inv.slice_range thread).1
  decrement tr k₁ ticked := by
    obtain ⟨k', gone, left, b', eq, ticked', inv', -⟩ := tick_inv (enter_inv rest.inv tr)
    obtain rfl := Except.ok.inj (ticked.symm.trans eq)
    have current : k₁.scheduler.threadCurrent = k.scheduler.threadCurrent := by
      rw [ticked'.frame]
      exact pushAll_current ..
    rw [← current]
    exact (inv'.slice_range inv'.current_thread).1
  waiter tr s opened waiting := by
    have ring := rest.places.rings.ring (.sem s) opened
    have head : k.view.head (.sem s) = (k.sem s).waitingThreads := rfl
    have queued : (k.sem s).waitingThreads ∈ b.queue (.sem s) := by
      have ne : b.queue (.sem s) ≠ [] := fun none => waiting (ring.head_null.mpr none)
      obtain ⟨w, ws, hq⟩ := List.exists_cons_of_ne_nil ne
      rw [hq] at ring ⊢
      rw [← head, ring.head_eq]
      exact List.mem_cons_self
    have thread := rest.places.known (t := (k.sem s).waitingThreads)
      (by rw [b.mem_queue.mp queued]; simp)
    have slice := (rest.inv.slice_range thread).1
    have first : (semNext ((bumpSepc (enter k tr) 4).signalled s) s).1 =
        (k.sem s).waitingThreads := by
      show (update k.sem s _ s).waitingThreads = _
      rw [update_self]
      rfl
    show ((semNext _ s).2.thread (semNext _ s).1).timeLeft ≠ 0
    rw [first]
    exact Nat.pos_iff_ne_zero.mp slice

theorem keeps_slice {k k' : Kernel} {t n : Nat} (rest : k.Rest b recs) (keeps : k.Keeps t n k') :
    (∃ b' recs', k'.Rest b' recs') ∧ k'.scheduler.threadCurrent = t ∧
      k'.slice t + n = k.slice t := by
  induction keeps with
  | start current => exact ⟨⟨b, recs, rest⟩, current, rfl⟩
  | @trap n k' tr k'' before ready fits taken current ih =>
    obtain ⟨⟨b₁, recs₁, rest₁⟩, current₁, slice⟩ := ih
    obtain ⟨k₁, b₂, recs₂, rfl, handled, rest₂⟩ := trap_rest rest₁ fits taken
    have nonempty : b₁.queue .ready ≠ [] :=
      fun none => ready ((rest₁.places.rings.ring .ready trivial).head_null.mpr none)
    have range := rest₁.inv.slice_range rest₁.current_thread
    have step := handled.stays (k := enter k' tr) (rest₂.inv.congr rfl rfl) range.1 range.2 nonempty
      (current.trans current₁.symm)
    refine ⟨⟨b₂, recs₂, rest₂⟩, current, ?_⟩
    have cause : (enter k' tr).hart.scause = tr.scause := rfl
    have same : (enter k' tr).scheduler.threadCurrent = t := current₁
    rw [same, cause] at step
    have after : k₁.slice t = (leave k₁).slice t := rfl
    have before : (enter k' tr).slice t = k'.slice t := rfl
    omega

end

/-- Ready threads have whole time slices, in every run. -/
theorem run_full {k₀ k : Kernel} (run : Run anyTrap k₀ k) : ∃ b recs, k.Rest b recs ∧ k.Full b :=
  run_invariant (P := fun k b _ => k.Full b) (fun _ booted => booted.full)
    (fun _ _ _ handled rest' => handled.full (rest'.inv.congr rfl rfl)) run

/-- **Time slices never run out of range**, in any run, and a thread keeps the
hart for less than `DEFAULT_TIME_SLICE` timer interrupts while another is ready. -/
theorem slices_in_range {k₀ k : Kernel} (run : Run anyTrap k₀ k) : k.SlicesInRange ∧
    ∀ t n k', k.Keeps t n k' → n < defaultTimeSlice := by
  obtain ⟨b, recs, rest, full⟩ := run_full run
  refine ⟨rest.slicesInRange full, fun t n k' keeps => ?_⟩
  have current := keeps.from_current
  obtain ⟨⟨b', recs', rest'⟩, current', slice⟩ := keeps_slice rest keeps
  have before := rest.inv.slice_range rest.current_thread
  have after := rest'.inv.slice_range rest'.current_thread
  rw [current] at before
  rw [current'] at after
  show n < 2
  omega

/-- A timer interrupt leaves the hart to a thread with a whole time slice. -/
theorem timerTrap_spends {k : Kernel} {b : Threads} (rest : k.Rest b [])
    (whole : k.slice k.scheduler.threadCurrent = defaultTimeSlice) :
    ∃ k', trap k (timerTrap k) = .ok k' ∧
      k'.scheduler.threadCurrent = k.scheduler.threadCurrent := by
  obtain ⟨k₁, gone, left, b₁, tick, ticked, -, -⟩ := tick_inv (enter_inv rest.inv (timerTrap k))
  obtain ⟨rfl, rfl⟩ := List.append_eq_nil_iff.mp ticked.split.symm
  have current := ticked_current ticked
  have slice : k₁.slice k₁.scheduler.threadCurrent = defaultTimeSlice := by
    rw [ticked_slice ticked, current]
    exact whole
  refine ⟨leave k₁.spend, trap_timer rfl ?_, current⟩
  rw [handleTimer_ticked tick, slice]
  rfl

/-- The thread `q` runs with a whole time slice, and the thread `p` is ready. -/
theorem whole_slice : ∃ k b p q, Run anyTrap roomyKernel k ∧ k.Rest b [] ∧ q ≠ p ∧
    k.scheduler.threadCurrent = q ∧ IsRing k.links k.scheduler.readyThreads [p] ∧
    k.slice k.scheduler.threadCurrent = defaultTimeSlice := by
  obtain ⟨k₀, b₀, p, q, s, two, run₀⟩ := two_users anyTrap fun _ _ _ => trivial
  obtain ⟨b₁, recs₁, rest₁, full⟩ := run_full run₀
  have whole : k₀.slice q = defaultTimeSlice := by
    apply full
    rw [(rest₁.places.rings.ring .ready trivial).unique
      (two.rest.places.rings.ring .ready trivial), two.queue, update_self]
    exact List.mem_singleton_self q
  obtain ⟨fits, k, b, taken, rest, current, queue, slice⟩ := two.dispatches
  have ring : IsRing k.links k.scheduler.readyThreads (b.queue .ready) :=
    rest.places.rings.ring .ready trivial
  rw [queue, update_self] at ring
  exact ⟨k, b, p, q, run₀.trap fits trivial taken, rest, two.ne, current, ring,
    by rw [current, slice, whole]⟩

/-- The timer ticks while one thread runs and another one is ready. -/
theorem slices_in_range_small : ∃ k k' p q, Run anyTrap roomyKernel k ∧
    IsRing k.links k.scheduler.readyThreads [p] ∧ k.Keeps q 1 k' ∧ 1 < defaultTimeSlice ∧
    k'.SlicesInRange := by
  obtain ⟨k, b, p, q, run, rest, -, current, ring, whole⟩ := whole_slice
  obtain ⟨k', taken, still⟩ := timerTrap_spends rest whole
  have keeps : k.Keeps q (0 + if (timerTrap k).scause = irqTimer then 1 else 0) k' :=
    .trap (.start current) (fun zero => ring.not_null (by simp [← ring.head_eq, zero]))
      (timerTrap_fits k) taken (still.trans current)
  exact ⟨k, k', p, q, run, ring, keeps, (slices_in_range run).2 q 1 k' keeps,
    (slices_in_range (run.trap (timerTrap_fits k) trivial taken)).1⟩

end RiscvKernel
