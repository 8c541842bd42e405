import RiscvKernel.Runs

/-!
# Every thread is in one place

`every_thread_in_one_place`: between any two traps of a run, each live user
thread is at exactly one of the places of `Kernel.At`, and each ring holds it
at most once.
-/

namespace RiscvKernel
open Function Intrusive Placement

/-- The thread `t` is at the place `p`, as the memory shows it. -/
def Kernel.At (k : Kernel) (t : Nat) : Place QueueId Spot → Prop
  | .queue i => k.view.Active i ∧ ∃ ts, IsRing k.links (k.head i) ts ∧ t ∈ ts
  | .spot .running => t = k.scheduler.threadCurrent
  | .spot (.asleep r) => ∃ rs, IsRing k.sleepLinks k.scheduler.sleepingThreads rs ∧ r ∈ rs ∧
      (k.sleeping r).thread = t

/-- Each thread is in one place, and `kernel_main` is not where user threads wait. -/
structure Kernel.OnePlace (k : Kernel) : Prop where
  rings : ∀ i, k.view.Active i → ∃ ts, IsRing k.links (k.head i) ts ∧ ts.Nodup
  sleepers : ∃ rs, IsRing k.sleepLinks k.scheduler.sleepingThreads rs ∧ rs.Nodup
  user : ∀ t ∈ k.hist.live, ∃! p, k.At t p
  main : ∀ p, k.At k.scheduler.kernelMain p → p = .queue .ready ∨ p = .spot .running
  mainOnce : ¬ (k.At k.scheduler.kernelMain (.queue .ready) ∧
    k.At k.scheduler.kernelMain (.spot .running))
  exited : ∀ t, t ∉ k.hist.live → t ≠ k.scheduler.kernelMain → ∀ p, ¬ k.At t p
  count : k.scheduler.userThreadCount = k.hist.live.length
  countPos : k.scheduler.threadCurrent ≠ k.scheduler.kernelMain →
    0 < k.scheduler.userThreadCount
  finished : k.scheduler.userThreadCount = 0 ↔ k.hist.live = []

section
variable {k : Kernel} {b : Threads} {recs : List Nat}

theorem Kernel.Inv.at_iff (inv : k.Inv b recs) {t : Nat} {p : Place QueueId Spot} :
    k.At t p ↔ b.loc t = some p := by
  match p with
  | .queue i =>
    rw [← b.mem_queue]
    constructor
    · rintro ⟨active, ts, ring, mem⟩
      rwa [ring.unique (inv.places.rings.ring i active)] at mem
    · intro mem
      have active : k.view.Active i := by
        by_contra idle
        simp [inv.places.rings.idle i idle] at mem
      exact ⟨active, b.queue i, inv.places.rings.ring i active, mem⟩
  | .spot .running => exact inv.running.symm
  | .spot (.asleep r) =>
    rw [inv.places.asleep]
    constructor
    · rintro ⟨rs, ring, mem, thread⟩
      rw [ring.unique inv.places.sleepers] at mem
      exact ⟨mem, thread⟩
    · rintro ⟨mem, thread⟩
      exact ⟨recs, inv.places.sleepers, mem, thread⟩

theorem Kernel.Inv.onePlace (inv : k.Inv b recs) : k.OnePlace where
  rings i active := ⟨_, inv.places.rings.ring i active, b.nodup i⟩
  sleepers := ⟨recs, inv.places.sleepers, inv.places.sleepers.nodup⟩
  user t live := by
    obtain ⟨p, loc⟩ := Option.ne_none_iff_exists'.mp (inv.placed live)
    refine ⟨p, inv.at_iff.mpr loc, fun q there => ?_⟩
    have loc' := inv.at_iff.mp there
    rw [loc] at loc'
    exact (Option.some.inj loc').symm
  main p there := inv.places.main (inv.at_iff.mp there)
  mainOnce := by
    rintro ⟨ready, running⟩
    have ready := inv.at_iff.mp ready
    rw [inv.at_iff.mp running] at ready
    cases ready
  exited t notLive notMain p there := by
    have thread : k.view.Thread t := inv.places.known (by rw [inv.at_iff.mp there]; simp)
    exact thread.elim notLive notMain
  count := inv.places.count
  countPos notMain := by
    have live : k.scheduler.threadCurrent ∈ k.hist.live := inv.current_thread.resolve_right notMain
    have count : k.scheduler.userThreadCount = k.hist.live.length := inv.places.count
    rw [count]
    exact List.length_pos_of_mem live
  finished := by
    have count : k.scheduler.userThreadCount = k.hist.live.length := inv.places.count
    rw [count, List.length_eq_zero_iff]

end

/-- **Every thread is in exactly one place**, between any two traps of any run. -/
theorem every_thread_in_one_place {k₀ k : Kernel} (run : Run anyTrap k₀ k) : k.OnePlace := by
  obtain ⟨b, recs, rest⟩ := run_rest run
  exact rest.inv.onePlace

/-- One thread waits for a semaphore, and another one sleeps. -/
theorem every_thread_in_one_place_small : ∃ k p q s r, Run anyTrap roomyKernel k ∧
    k.At p (.queue (.sem s)) ∧ k.At q (.spot (.asleep r)) ∧
    k.At k.scheduler.kernelMain (.spot .running) ∧ k.OnePlace := by
  obtain ⟨k, b, p, q, s, r, sleeps, run⟩ := one_sleeps
  have inv := sleeps.rest.inv
  refine ⟨k, p, q, s, r, run, inv.at_iff.mpr (b.mem_queue.mp ?_), inv.at_iff.mpr ?_,
    sleeps.current.symm, every_thread_in_one_place run⟩
  · simp [sleeps.queue]
  · exact inv.places.asleep.mpr ⟨List.mem_singleton_self r, sleeps.thread⟩

end RiscvKernel
