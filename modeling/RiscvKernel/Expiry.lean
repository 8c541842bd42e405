import RiscvKernel.Timers

/-!
# The end of a timed wait

`__sem_remove_thread` looks for the thread from the node of the first waiting
thread, so it always unlinks that one; `waiting_threads` keeps pointing at it,
and a thread that waits alone is never told of its timeout.

* `expiry_never_exact`: a tick in which a timed wait ends is never as it should be.
-/

namespace RiscvKernel
open Function Intrusive Placement DeltaList

/-- The frames of the threads in the sleeping list are apart, and nobody in a
timed wait has been told of a timeout. -/
structure Kernel.Unanswered (k : Kernel) (recs : List Nat) : Prop where
  apart : (recs.map fun r => k.sp (k.sleeping r).thread).Nodup
  a0 : ∀ r ∈ recs, (k.sleeping r).semaphore ≠ 0 →
    k.context (k.sp (k.sleeping r).thread) regA0 ≠ u64 semWaitTimeout

/-- The next tick takes exactly the timed waiters whose alarm is due off their
rings, in the order of the others, adds one to `val` for each of them, tells them
of the timeout and makes them ready. -/
def Kernel.ExpiresExactly (k : Kernel) (b : Threads) (recs : List Nat) : Prop :=
  ∃ k', schedulerTick k = .ok k' ∧ ∀ r ∈ k.expiring recs, ∀ s, (k.sleeping r).semaphore = s →
    s ≠ 0 →
    let expired := ((k.expiring recs).filter fun r => (k.sleeping r).semaphore = s).map
      fun r => (k.sleeping r).thread
    IsRing k'.links (k'.sem s).waitingThreads ((b.queue (.sem s)).filter (· ∉ expired)) ∧
      (k'.sem s).val = (k.sem s).val + expired.length ∧
      k'.context (k.sp (k.sleeping r).thread) regA0 = u64 semWaitTimeout ∧
      ∃ ready, IsRing k'.links k'.scheduler.readyThreads ready ∧
        ready.count (k.sleeping r).thread = 1

/-! ## Who is told of a timeout -/

section
variable {k k' : Kernel} {r : Nat}

theorem wakeSleeper_context {c : Nat} (woken : wakeSleeper k r = .ok k')
    (other : c ≠ k.sp (k.sleeping r).thread) : k'.context c regA0 = k.context c regA0 := by
  rw [wakeSleeper_eq] at woken
  split at woken
  · cases woken
    rfl
  · split at woken
    · cases woken
    · split at woken
      · cases woken
        rfl
      · cases woken
        exact update_of_ne (slot_inj.not.mpr other) ..

theorem wakeAll_context {c : Nat} (rs : List Nat) : ∀ {k k' : Kernel}, wakeAll k rs = .ok k' →
    (∀ r ∈ rs, c ≠ k.sp (k.sleeping r).thread) → k'.context c regA0 = k.context c regA0 := by
  induction rs with
  | nil =>
    intro k k' ran _
    cases ran
    rfl
  | cons r rs ih =>
    intro k k' ran others
    rw [wakeAll_cons] at ran
    obtain ⟨k₁, woken, ran⟩ := ok_bind ran
    rw [ih ran fun r' hr => ?_, wakeSleeper_context woken (others r List.mem_cons_self)]
    rw [(wakeSleeper_woke woken).sp, (wakeSleeper_sleepers woken).1]
    exact others r' (List.mem_cons_of_mem r hr)

/-- The wake-up that unlinks the first waiting thread. -/
def Kernel.headWoken (k : Kernel) (r : Nat) : Kernel :=
  schedulerPush (if (k.sleeping r).semaphore = 0 then k
    else k.headRemoved (k.sleeping r).semaphore (k.sleeping r).thread) (k.sleeping r).thread

/-- A thread that is told of its timeout did not wait alone. -/
theorem wakeSleeper_answered (woken : wakeSleeper k r = .ok k')
    (before : (k.sleeping r).semaphore ≠ 0 →
      k.context (k.sp (k.sleeping r).thread) regA0 ≠ u64 semWaitTimeout)
    (after : (k.sleeping r).semaphore ≠ 0 →
      k'.context (k.sp (k.sleeping r).thread) regA0 = u64 semWaitTimeout) :
    k' = k.headWoken r ∧ ((k.sleeping r).semaphore ≠ 0 →
      k.links.next (k.sem (k.sleeping r).semaphore).waitingThreads ≠
        (k.sem (k.sleeping r).semaphore).waitingThreads) := by
  unfold Kernel.headWoken
  rw [wakeSleeper_eq] at woken
  split at woken
  · next untimed =>
    rw [if_pos untimed]
    cases woken
    exact ⟨rfl, fun timed => absurd untimed timed⟩
  · next timed =>
    rw [if_neg timed]
    split at woken
    · cases woken
    · split at woken
      · cases woken
        exact absurd (after timed) (before timed)
      · next several =>
        cases woken
        exact ⟨rfl, fun _ => Ne.symm several⟩

theorem wakeAll_answered (rs : List Nat) : ∀ {k k' : Kernel}, wakeAll k rs = .ok k' →
    k.Unanswered rs → (∀ r ∈ rs, (k.sleeping r).semaphore ≠ 0 →
      k'.context (k.sp (k.sleeping r).thread) regA0 = u64 semWaitTimeout) →
    k' = rs.foldl Kernel.headWoken k := by
  induction rs with
  | nil =>
    intro k k' ran _ _
    cases ran
    rfl
  | cons r rs ih =>
    intro k k' ran unanswered answered
    obtain ⟨out, apart⟩ := List.nodup_cons.mp unanswered.apart
    have others : ∀ r' ∈ rs, k.sp (k.sleeping r).thread ≠ k.sp (k.sleeping r').thread :=
      fun r' hr e => out (List.mem_map.mpr ⟨r', hr, e.symm⟩)
    rw [wakeAll_cons] at ran
    obtain ⟨k₁, woken, ran⟩ := ok_bind ran
    have sp := (wakeSleeper_woke woken).sp
    have sleeping := (wakeSleeper_sleepers woken).1
    have kept : k'.context (k.sp (k.sleeping r).thread) regA0 =
        k₁.context (k.sp (k.sleeping r).thread) regA0 :=
      wakeAll_context rs ran fun r' hr => by
        rw [sp, sleeping]
        exact others r' hr
    obtain ⟨rfl, -⟩ := wakeSleeper_answered woken (unanswered.a0 r List.mem_cons_self)
      fun timed => kept.symm.trans (answered r List.mem_cons_self timed)
    refine ih ran ⟨by rwa [sp, sleeping], fun r' hr => ?_⟩ fun r' hr => ?_
    · rw [sp, sleeping, wakeSleeper_context woken (others r' hr).symm]
      exact unanswered.a0 r' (List.mem_cons_of_mem r hr)
    · rw [sp, sleeping]
      exact answered r' (List.mem_cons_of_mem r hr)

/-! ## Where the ring is left -/

variable {A : Nat → Prop} {h t s : Nat}

/-- No node of `A` is linked to `h`, and `h` is not the first ready thread. -/
structure Kernel.Avoids (k : Kernel) (A : Nat → Prop) (h : Nat) : Prop where
  ready : k.scheduler.readyThreads ≠ h
  next : ∀ x, A x → k.links.next x ≠ h

theorem Kernel.Avoids.push (avoids : k.Avoids A h) (other : t ≠ h) :
    (schedulerPush k t).Avoids A h := by
  have written : ∀ x, (k.links.push k.scheduler.readyThreads t).1.next x = k.links.next x ∨
      (k.links.push k.scheduler.readyThreads t).1.next x = t ∨
      (k.links.push k.scheduler.readyThreads t).1.next x = k.scheduler.readyThreads := by
    intro x
    unfold Links.push
    split
    · simp only [Links.setNext, Links.setPrev, update_apply]
      split <;> simp
    · obtain ⟨z, insert⟩ : ∃ z, (k.links.insert k.scheduler.readyThreads t).next =
          update (update k.links.next t k.scheduler.readyThreads) z t := ⟨_, rfl⟩
      simp only [insert, update_apply]
      split
      · exact Or.inr (Or.inl rfl)
      · split
        · exact Or.inr (Or.inr rfl)
        · exact Or.inl rfl
  have head : (k.links.push k.scheduler.readyThreads t).2 = t ∨
      (k.links.push k.scheduler.readyThreads t).2 = k.scheduler.readyThreads := by
    unfold Links.push
    split <;> simp
  constructor
  · show (k.links.push k.scheduler.readyThreads t).2 ≠ h
    rcases head with e | e <;> rw [e]
    · exact other
    · exact avoids.ready
  · intro x hx
    show (k.links.push k.scheduler.readyThreads t).1.next x ≠ h
    rcases written x with e | e | e <;> rw [e]
    · exact avoids.next x hx
    · exact other
    · exact avoids.ready

theorem Kernel.Avoids.headRemoved (avoids : k.Avoids A h) (first : A (k.sem s).waitingThreads)
    (t : Nat) : (k.headRemoved s t).Avoids A h := by
  refine ⟨avoids.ready, fun x hx => ?_⟩
  show update k.links.next (k.links.prev (k.sem s).waitingThreads)
    (k.links.next (k.sem s).waitingThreads) x ≠ h
  rw [update_apply]
  split
  · exact avoids.next _ first
  · exact avoids.next x hx

theorem headRemoved_head (k : Kernel) (s t s' : Nat) :
    ((k.headRemoved s t).sem s').waitingThreads = (k.sem s').waitingThreads := by
  show (update k.sem s { k.sem s with val := toI32 ((k.sem s).val + 1) } s').waitingThreads = _
  rw [update_apply]
  split
  · next e => rw [e]
  · rfl

theorem headWoken_head (k : Kernel) (r s : Nat) :
    ((k.headWoken r).sem s).waitingThreads = (k.sem s).waitingThreads := by
  unfold Kernel.headWoken
  split
  · rfl
  · exact headRemoved_head k _ (k.sleeping r).thread s

theorem headWoken_sleeping (k : Kernel) (r : Nat) : (k.headWoken r).sleeping = k.sleeping := by
  unfold Kernel.headWoken
  split <;> rfl

theorem Kernel.Avoids.headWoken (avoids : k.Avoids A h) (other : (k.sleeping r).thread ≠ h)
    (first : (k.sleeping r).semaphore ≠ 0 → A (k.sem (k.sleeping r).semaphore).waitingThreads) :
    (k.headWoken r).Avoids A h := by
  unfold Kernel.headWoken
  split
  · exact avoids.push other
  · next timed => exact (avoids.headRemoved (first timed) _).push other

/-- The wake-ups that unlink first threads move no head pointer, and link none of
their nodes to `h`. -/
theorem foldl_headWoken (rs : List Nat) : ∀ k : Kernel,
    (∀ s, ((rs.foldl Kernel.headWoken k).sem s).waitingThreads = (k.sem s).waitingThreads) ∧
      (k.Avoids A h → (∀ r ∈ rs, (k.sleeping r).thread ≠ h) →
        (∀ r ∈ rs, (k.sleeping r).semaphore ≠ 0 →
          A (k.sem (k.sleeping r).semaphore).waitingThreads) →
        (rs.foldl Kernel.headWoken k).Avoids A h) := by
  induction rs with
  | nil => exact fun _ => ⟨fun _ => rfl, fun avoids _ _ => avoids⟩
  | cons r rs ih =>
    intro k
    obtain ⟨heads, avoids'⟩ := ih (k.headWoken r)
    rw [List.foldl_cons]
    refine ⟨fun s => (heads s).trans (headWoken_head k r s), fun avoids other first => ?_⟩
    refine avoids' (avoids.headWoken (other r List.mem_cons_self) (first r List.mem_cons_self))
      (fun r' hr => ?_) fun r' hr => ?_
    · rw [headWoken_sleeping]
      exact other r' (List.mem_cons_of_mem r hr)
    · rw [headWoken_sleeping, headWoken_head]
      exact first r' (List.mem_cons_of_mem r hr)

/-! ## The first timed waiter -/

variable {b : Threads}

/-- The places of the threads of the records `rs`. -/
structure Kernel.Sleepers (k : Kernel) (b : Threads) (rs : List Nat) : Prop where
  once : (rs.map fun r => (k.sleeping r).thread).Nodup
  nonzero : ∀ r ∈ rs, (k.sleeping r).thread ≠ 0
  asleep : ∀ r ∈ rs, (k.sleeping r).semaphore = 0 →
    b.loc (k.sleeping r).thread = some (.spot (.asleep r))
  waiting : ∀ r ∈ rs, (k.sleeping r).semaphore ≠ 0 →
    b.loc (k.sleeping r).thread = some (.queue (.sem (k.sleeping r).semaphore))

theorem Kernel.Sleepers.rest {rs : List Nat} (h : k.Sleepers b (r :: rs)) {k₁ : Kernel}
    (sleeping : k₁.sleeping = k.sleeping) : k₁.Sleepers (readied b (k.sleeping r).thread) rs := by
  obtain ⟨out, once⟩ := List.nodup_cons.mp h.once
  have others : ∀ r' ∈ rs, (readied b (k.sleeping r).thread).loc (k.sleeping r').thread =
      b.loc (k.sleeping r').thread := fun r' hr => by
    rw [readied_loc, if_neg fun e => out (List.mem_map.mpr ⟨r', hr, e⟩)]
  refine ⟨by rwa [sleeping], ?_, ?_, ?_⟩
  · rw [sleeping]
    exact fun r' hr => h.nonzero r' (List.mem_cons_of_mem r hr)
  · rw [sleeping]
    exact fun r' hr untimed =>
      (others r' hr).trans (h.asleep r' (List.mem_cons_of_mem r hr) untimed)
  · rw [sleeping]
    exact fun r' hr timed => (others r' hr).trans (h.waiting r' (List.mem_cons_of_mem r hr) timed)

/-- After the first timed waiter is told of its timeout, the head pointer of its
semaphore stays at a node that no waiter is linked to. -/
theorem first_answered {rs : List Nat} {ts : List Nat} (rings : k.Rings b)
    (sleepers : k.Sleepers b (r :: rs)) (timed : (k.sleeping r).semaphore ≠ 0)
    (ran : wakeAll k (r :: rs) = .ok k') (unanswered : k.Unanswered (r :: rs))
    (answered : ∀ r' ∈ r :: rs, (k.sleeping r').semaphore ≠ 0 →
      k'.context (k.sp (k.sleeping r').thread) regA0 = u64 semWaitTimeout)
    (gone : ∀ r' ∈ r :: rs, (k.sleeping r').thread ∈ ts) :
    ¬ IsRing k'.links (k'.sem (k.sleeping r).semaphore).waitingThreads
      ((b.queue (.sem (k.sleeping r).semaphore)).filter (· ∉ ts)) := by
  intro left
  have folded := wakeAll_answered (r :: rs) ran unanswered answered
  have active : ∀ {s}, b.queue (.sem s) ≠ [] → k.view.Active (.sem s) := fun h => by
    by_contra idle
    exact h (rings.idle _ idle)
  -- the ring of every semaphore that a record has
  have ring : ∀ r' ∈ r :: rs, (k.sleeping r').semaphore ≠ 0 →
      IsRing k.links (k.sem (k.sleeping r').semaphore).waitingThreads
        (b.queue (.sem (k.sleeping r').semaphore)) ∧
      (k.sem (k.sleeping r').semaphore).waitingThreads ∈
        b.queue (.sem (k.sleeping r').semaphore) := by
    intro r' hr waits
    have mem := b.mem_queue.mpr (sleepers.waiting r' hr waits)
    have nonempty := List.ne_nil_of_mem mem
    have ring : IsRing k.links (k.sem (k.sleeping r').semaphore).waitingThreads _ :=
      rings.ring _ (active nonempty)
    refine ⟨ring, ?_⟩
    cases hq : b.queue (.sem (k.sleeping r').semaphore) with
    | nil => exact absurd hq nonempty
    | cons x xs =>
      rw [hq] at ring
      exact ring.head_eq ▸ List.mem_cons_self
  obtain ⟨first, here⟩ := ring r List.mem_cons_self timed
  generalize headOf : (k.sem (k.sleeping r).semaphore).waitingThreads = h₀ at first here
  have heads := fun s => (foldl_headWoken (A := fun _ => True) (h := 0) (r :: rs) k).1 s
  rw [folded, heads, headOf, ← folded] at left
  -- so the first waiting thread of the semaphore did not time out
  have stays : h₀ ∈ (b.queue (.sem (k.sleeping r).semaphore)).filter (· ∉ ts) := by
    cases hq : (b.queue (.sem (k.sleeping r).semaphore)).filter (· ∉ ts) with
    | nil =>
      rw [hq] at left
      exact absurd (left ▸ here : 0 ∈ _) first.not_null
    | cons x xs =>
      rw [hq] at left
      exact left.head_eq ▸ List.mem_cons_self
  have other : ∀ r' ∈ r :: rs, (k.sleeping r').thread ≠ h₀ := by
    rintro r' hr rfl
    simpa [gone r' hr] using (List.mem_filter.mp stays).2
  -- it is unlinked, so no waiter is linked to it any more
  obtain ⟨k₁, woken, rest⟩ := ok_bind ((wakeAll_cons k r rs).symm.trans ran)
  obtain ⟨out, -⟩ := List.nodup_cons.mp unanswered.apart
  have kept : k'.context (k.sp (k.sleeping r).thread) regA0 =
      k₁.context (k.sp (k.sleeping r).thread) regA0 :=
    wakeAll_context rs rest fun r' hr e => by
      rw [(wakeSleeper_woke woken).sp, (wakeSleeper_sleepers woken).1] at e
      exact out (List.mem_map.mpr ⟨r', hr, e.symm⟩)
  obtain ⟨rfl, several⟩ := wakeSleeper_answered woken (unanswered.a0 r List.mem_cons_self)
    fun timed => kept.symm.trans (answered r List.mem_cons_self timed)
  have several := several timed
  rw [headOf] at several
  let A : Nat → Prop := fun x => ∃ s, x ∈ b.queue (.sem s)
  have unlinked : (k.headRemoved (k.sleeping r).semaphore (k.sleeping r).thread).Avoids A h₀ := by
    constructor
    · intro e
      have ready : IsRing k.links k.scheduler.readyThreads (b.queue .ready) :=
        rings.ring .ready trivial
      have e : k.scheduler.readyThreads = h₀ := e
      rw [e] at ready
      cases hq : b.queue .ready with
      | nil =>
        rw [hq] at ready
        exact absurd (ready ▸ here : 0 ∈ _) first.not_null
      | cons x xs =>
        rw [hq] at ready
        have mem : h₀ ∈ b.queue .ready := by
          rw [hq]
          exact ready.head_eq ▸ List.mem_cons_self
        exact absurd (b.apart mem here) (by simp)
    · rintro x ⟨s, mem⟩
      show update k.links.next (k.links.prev (k.sem _).waitingThreads)
        (k.links.next (k.sem _).waitingThreads) x ≠ h₀
      rw [headOf, update_apply]
      split
      · exact several
      · next apart =>
        intro e
        have ring : IsRing k.links _ _ := rings.ring _ (active (List.ne_nil_of_mem mem))
        have back := ring.prev_next mem
        rw [e] at back
        exact apart back.symm
  have woken' : (k.headWoken r).Avoids A h₀ := by
    unfold Kernel.headWoken
    rw [if_neg timed]
    exact unlinked.push (other r List.mem_cons_self)
  have last := (foldl_headWoken (A := A) (h := h₀) rs (k.headWoken r)).2 woken'
    (fun r' hr => by
      rw [headWoken_sleeping]
      exact other r' (List.mem_cons_of_mem r hr))
    (fun r' hr waits => by
      rw [headWoken_sleeping] at waits ⊢
      rw [headWoken_head]
      exact ⟨_, (ring r' (List.mem_cons_of_mem r hr) waits).2⟩)
  rw [← List.foldl_cons, ← folded] at last
  obtain ⟨mem, linked⟩ := left.last (List.ne_nil_of_mem stays)
  exact last.next _ ⟨_, (List.mem_filter.mp mem).1⟩ linked

theorem nobody_answered (ts rs : List Nat) : ∀ {k : Kernel} {b : Threads},
    k.Rings b → k.Sleepers b rs → wakeAll k rs = .ok k' → k.Unanswered rs →
    (∀ r ∈ rs, (k.sleeping r).semaphore ≠ 0 →
      k'.context (k.sp (k.sleeping r).thread) regA0 = u64 semWaitTimeout) →
    (∀ r ∈ rs, (k.sleeping r).thread ∈ ts) →
    (∀ r ∈ rs, (k.sleeping r).semaphore ≠ 0 →
      IsRing k'.links (k'.sem (k.sleeping r).semaphore).waitingThreads
        ((b.queue (.sem (k.sleeping r).semaphore)).filter (· ∉ ts))) →
    ∀ r ∈ rs, (k.sleeping r).semaphore = 0 := by
  induction rs with
  | nil => exact fun _ _ _ _ _ _ _ r hr => absurd hr List.not_mem_nil
  | cons r rs ih =>
    intro k b rings sleepers ran unanswered answered gone left
    by_cases timed : (k.sleeping r).semaphore ≠ 0
    · exact absurd (left r List.mem_cons_self timed)
        (first_answered rings sleepers timed ran unanswered answered gone)
    · -- a sleeper is pushed and changes no ring of waiters
      have untimed := not_not.mp timed
      have here := sleepers.asleep r List.mem_cons_self untimed
      obtain ⟨k₁, woken, rings₁⟩ := wakeSleeper_rings rings (r := r)
        ⟨sleepers.nonzero r List.mem_cons_self, by rwa [if_pos untimed]⟩
      have rest : wakeAll k₁ rs = .ok k' := by
        rw [wakeAll_cons, woken] at ran
        exact ran
      obtain ⟨sleeping, -⟩ := wakeSleeper_sleepers woken
      have sp := (wakeSleeper_woke woken).sp
      obtain ⟨out, apart⟩ := List.nodup_cons.mp unanswered.apart
      have others := ih rings₁ (sleepers.rest sleeping) rest
        ⟨by rwa [sp, sleeping], fun r' hr => by
          rw [sp, sleeping, wakeSleeper_context woken fun e => out (List.mem_map.mpr ⟨r', hr, e⟩)]
          exact unanswered.a0 r' (List.mem_cons_of_mem r hr)⟩
        (fun r' hr => by
          rw [sp, sleeping]
          exact answered r' (List.mem_cons_of_mem r hr))
        (fun r' hr => by
          rw [sleeping]
          exact gone r' (List.mem_cons_of_mem r hr))
        (fun r' hr => by
          rw [sleeping, readied_other _ _ (by simp), List.filter_filter]
          intro waits
          have same : ∀ x : Nat, (decide (x ∉ ts) && decide (x ≠ (k.sleeping r).thread)) =
              decide (x ∉ ts) := by
            intro x
            by_cases e : x = (k.sleeping r).thread
            · simp [e, gone r List.mem_cons_self]
            · simp [e]
          simp only [same]
          exact left r' (List.mem_cons_of_mem r hr) waits)
      rw [sleeping] at others
      exact List.forall_mem_cons.mpr ⟨untimed, others⟩

end

/-- What a tick that returns has done. -/
theorem tick_woken {k k' : Kernel} {b : Threads} {recs : List Nat} {live : Multiset (Nat × Nat)}
    (timed : k.Timed b recs live) (tick : schedulerTick k = .ok k') :
    ∃ k₁ h l x, wakeAll { k with sleeping := k.countedDown } (k.expiring recs) = .ok k₁ ∧
      k' = k₁.setSleepers h l x := by
  obtain ⟨h, l, x, run, -⟩ := schedulerTick_run timed.alarms timed.holds
    (records_length_le timed.holds)
  have run : _ = (wakeAll _ (k.expiring recs)).map _ := run
  rw [tick] at run
  cases woken : wakeAll { k with sleeping := k.countedDown } (k.expiring recs) with
  | error e =>
    rw [woken] at run
    cases run
  | ok k₁ =>
    rw [woken] at run
    exact ⟨k₁, h, l, x, rfl, Except.ok.inj run⟩

/-- **No timed wait ends as it should.** -/
theorem expiry_never_exact {k : Kernel} {b : Threads} {recs : List Nat}
    {live : Multiset (Nat × Nat)} (timed : k.Timed b recs live) (unanswered : k.Unanswered recs)
    {r : Nat} (due : r ∈ k.expiring recs) (waits : (k.sleeping r).semaphore ≠ 0) :
    ¬ k.ExpiresExactly b recs := by
  rintro ⟨k', tick, exact⟩
  have same := countedDown_others k
  have split := expiring_append_remaining k recs
  have mem : ∀ r ∈ k.expiring recs, r ∈ recs := fun r hr => by
    rw [split]
    exact List.mem_append_left _ hr
  obtain ⟨k₁, h, l, x, woken, rfl⟩ := tick_woken timed tick
  have threads : ∀ {α : Type} (f : Nat → α), ((k.expiring recs).map fun r =>
      f (k.countedDown r).thread) = (k.expiring recs).map fun r => f (k.sleeping r).thread :=
    fun f => List.map_congr_left fun r _ => by rw [(same r).1]
  have sub : (k.expiring recs).Sublist recs := List.takeWhile_sublist _
  have none := nobody_answered ((k.expiring recs).map fun r => (k.sleeping r).thread)
    (k.expiring recs) (timed.rings.congr { k with sleeping := k.countedDown } rfl rfl rfl)
    ⟨(threads id).symm ▸ timed.once.sublist (sub.map _), fun r hr => ?_, fun r hr => ?_,
      fun r hr => ?_⟩
    woken ⟨(threads k.sp).symm ▸ unanswered.apart.sublist (sub.map _), fun r hr => ?_⟩
    (fun r hr => ?_) (fun r hr => ?_) (fun r hr => ?_)
  · have := none r due
    rw [(same r).2] at this
    exact waits this
  · show (k.countedDown r).thread ≠ 0
    rw [(same r).1]
    exact timed.nonzero r (mem r hr)
  · show (k.countedDown r).semaphore = 0 → b.loc (k.countedDown r).thread = _
    rw [(same r).1, (same r).2]
    exact timed.asleep r (mem r hr)
  · show (k.countedDown r).semaphore ≠ 0 → b.loc (k.countedDown r).thread =
      some (.queue (.sem (k.countedDown r).semaphore))
    rw [(same r).1, (same r).2]
    exact timed.waiting r (mem r hr)
  · show (k.countedDown r).semaphore ≠ 0 → k.context (k.sp (k.countedDown r).thread) regA0 ≠ _
    rw [(same r).1, (same r).2]
    exact unanswered.a0 r (mem r hr)
  · show (k.countedDown r).semaphore ≠ 0 → k₁.context (k.sp (k.countedDown r).thread) regA0 = _
    rw [(same r).1, (same r).2]
    exact fun waits => (exact r hr _ rfl waits).2.2.1
  · show (k.countedDown r).thread ∈ _
    rw [(same r).1]
    exact List.mem_map_of_mem hr
  · show (k.countedDown r).semaphore ≠ 0 → IsRing k₁.links
      (k₁.sem (k.countedDown r).semaphore).waitingThreads
      ((b.queue (.sem (k.countedDown r).semaphore)).filter _)
    rw [(same r).2]
    intro waits
    obtain ⟨ring, -⟩ := exact r hr _ rfl waits
    -- only the waiters of a semaphore are in its ring
    have only : (b.queue (.sem (k.sleeping r).semaphore)).filter
        (· ∉ (k.expiring recs).map fun r => (k.sleeping r).thread) =
        (b.queue (.sem (k.sleeping r).semaphore)).filter
          (· ∉ ((k.expiring recs).filter fun r' => (k.sleeping r').semaphore =
            (k.sleeping r).semaphore).map fun r => (k.sleeping r).thread) := by
      refine List.filter_congr fun x hx => ?_
      have here := b.mem_queue.mp hx
      simp only [List.mem_map, List.mem_filter, decide_eq_true_eq, decide_eq_decide, not_iff_not]
      constructor
      · rintro ⟨r', hr', rfl⟩
        refine ⟨r', ⟨hr', ?_⟩, rfl⟩
        by_cases untimed : (k.sleeping r').semaphore = 0
        · rw [timed.asleep r' (mem r' hr') untimed] at here
          simp at here
        · rw [timed.waiting r' (mem r' hr') untimed] at here
          simpa using here
      · rintro ⟨r', ⟨hr', -⟩, rfl⟩
        exact ⟨r', hr', rfl⟩
    rw [only]
    exact ring

/-- The first timed wait of a run lasts one tick. -/
theorem small_expiring : ∃ k b p s k' b' r, SmallCall k b p s ∧
    trap k (timedWaitCall k s 1) = .ok k' ∧
    k'.Timers b' [r] (timedCall k s 1).view.kept ∧ k'.Unanswered [r] ∧ r ∈ k'.expiring [r] ∧
    (k'.sleeping r).thread = p ∧ (k'.sleeping r).semaphore = s ∧ b'.queue (.sem s) = [p] := by
  obtain ⟨k, b, p, s, small⟩ := small_call
  obtain ⟨k', b', r, ran, timers, alarm, queue, a0⟩ :=
    small_timed_wait 1 small (by decide) (by decide)
  obtain ⟨x, hx, thread, semaphore⟩ := timers.expires alarm
  obtain rfl : x = r := by
    have sub : (k'.expiring [r]).Sublist [r] := List.takeWhile_sublist _
    simpa using sub.subset hx
  refine ⟨k, b, p, s, leave k', b', x, small, trap_timedWait ran,
    timers.congr ⟨rfl, rfl, rfl, rfl⟩ rfl rfl rfl rfl rfl rfl, ⟨by simp, fun y hy _ => ?_⟩, hx,
    thread, semaphore, queue⟩
  show k'.context (k'.sp (k'.sleeping y).thread) regA0 ≠ _
  rw [List.mem_singleton.mp hy, thread, a0]
  decide

theorem expiry_never_exact_small : ∃ k b p s k' b' r, SmallCall k b p s ∧
    trap k (timedWaitCall k s 1) = .ok k' ∧ ¬ k'.ExpiresExactly b' [r] := by
  obtain ⟨k, b, p, s, k', b', r, small, taken, timers, unanswered, due, -, semaphore, -⟩ :=
    small_expiring
  exact ⟨k, b, p, s, k', b', r, small, taken,
    expiry_never_exact timers.timed unanswered due (by rw [semaphore]; exact small.nonzero)⟩

/-- The only waiting thread is not told of its timeout. -/
theorem expiry_not_exact : ∃ k b p s k' b' r live, SmallCall k b p s ∧
    trap k (timedWaitCall k s 1) = .ok k' ∧ k'.Timed b' [r] live ∧ b'.queue (.sem s) = [p] ∧
    r ∈ k'.expiring [r] ∧ (k'.sleeping r).thread = p ∧ ¬ k'.ExpiresExactly b' [r] := by
  obtain ⟨k, b, p, s, k', b', r, small, taken, timers, unanswered, due, thread, semaphore, queue⟩ :=
    small_expiring
  have nonzero := small.nonzero
  refine ⟨k, b, p, s, k', b', r, _, small, taken, timers.timed, queue, due, thread, ?_⟩
  rintro ⟨k₂, tick, exact⟩
  obtain ⟨-, -, told, -⟩ := exact r due s semaphore nonzero
  -- the tick wakes the one record
  have only : k'.expiring [r] = [r] := by
    have sub : (k'.expiring [r]).Sublist [r] := List.takeWhile_sublist _
    rcases List.sublist_singleton.mp sub with e | e
    · simp [e] at due
    · exact e
  obtain ⟨k₁, h, l, x, woken, rfl⟩ := tick_woken timers.timed tick
  rw [only, wakeAll_cons] at woken
  obtain ⟨k₂, first, rest⟩ := ok_bind woken
  obtain rfl : k₂ = k₁ := Except.ok.inj rest
  have same := countedDown_others k' r
  obtain ⟨-, several⟩ := wakeSleeper_answered first
    (by
      show (k'.countedDown r).semaphore ≠ 0 → k'.context (k'.sp (k'.countedDown r).thread) regA0 ≠ _
      rw [same.1, same.2]
      exact unanswered.a0 r (List.mem_singleton_self r))
    (by
      show (k'.countedDown r).semaphore ≠ 0 → k₂.context (k'.sp (k'.countedDown r).thread) regA0 = _
      rw [same.1]
      exact fun _ => told)
  obtain ⟨head, next, -⟩ := timers.rings.alone queue
  refine several (by rw [same.2, semaphore]; exact nonzero) ?_
  show k'.links.next (k'.sem (k'.countedDown r).semaphore).waitingThreads =
    (k'.sem (k'.countedDown r).semaphore).waitingThreads
  rw [same.2, semaphore, head, next]

end RiscvKernel
