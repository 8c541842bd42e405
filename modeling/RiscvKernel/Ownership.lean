import RiscvKernel.Runs

/-!
# Nothing leaks

`kernel_blocks_exact`: between any two traps of a run the heap holds exactly the
blocks of `Kernel.blocks`, and the next trap does not fail to free one of them.
-/

namespace RiscvKernel
open Function Intrusive Placement

/-- The blocks in use, with the records `recs` of the sleeping list. -/
def Kernel.blocks (k : Kernel) (recs : List Nat) : List (Nat × Nat) :=
  k.bootBlocks ++ k.hist.userBlocks ++
    k.hist.live.map (fun t => (t, sizeInBlocks 56)) ++
    k.hist.live.map (fun t => ((k.thread t).bp, sizeInBlocks defaultStackSize)) ++
    k.hist.opened.map (fun s => (s, sizeInBlocks 16)) ++
    recs.map fun r => (r, sizeInBlocks 40)

/-- The heap holds what is in use, and nothing else. -/
structure Kernel.NoLeak (k : Kernel) : Prop where
  exact : ∃ recs, IsRing k.sleepLinks k.scheduler.sleepingThreads recs ∧
    (recs.map fun r => (k.sleeping r).thread).Nodup ∧
    (∀ r ∈ recs, (k.sleeping r).thread ∈ k.hist.live) ∧
    k.heap.Holds (k.blocks recs)
  freed : ∀ tr : Trap, tr.Fits k → tr.scause ∉ illegalCauses →
    (tr.scause = irqEcallUser → tr.regs regA0 = syscallThreadExit →
      (k.thread k.scheduler.threadCurrent).bp ≤ tr.frame) →
    ∃ k', trap k tr = .ok k'
  restored : k.hist.live = [] → k.hist.opened = [] → ∀ h₀ h : Heap, h₀.Fresh →
    h₀.heapStart = k.heap.heapStart → h₀.heapEnd = k.heap.heapEnd →
    HeapRun h₀ h (k.bootBlocks ++ k.hist.userBlocks) →
    ∀ i < k.heap.nMemBlocks, k.heap.memIndex i = h.memIndex i

section
variable {k : Kernel} {b : Threads} {recs : List Nat}

theorem owned_blocks (k : Kernel) (recs : List Nat) :
    (k.view.owned recs) = (k.blocks recs : Multiset (Nat × Nat)) := by
  rw [View.owned, Multiset.add_comm]
  simp only [Kernel.blocks, ← Multiset.coe_add, ← Multiset.map_coe]
  rfl

theorem Kernel.Inv.sleeper_live (inv : k.Inv b recs) {r : Nat} (hr : r ∈ recs) :
    (k.sleeping r).thread ∈ k.hist.live := by
  have loc : b.loc (k.sleeping r).thread = some (.spot (.asleep r)) := inv.places.sleeper hr
  refine (inv.places.known (t := (k.sleeping r).thread) (by rw [loc]; simp)).resolve_right
    fun main => ?_
  have main : (k.sleeping r).thread = k.view.kernelMain := main
  rw [main] at loc
  rcases inv.places.main loc with h | h <;> cases h

theorem Kernel.Inv.sleepers_nodup (inv : k.Inv b recs) :
    (recs.map fun r => (k.sleeping r).thread).Nodup := by
  refine List.Nodup.map_on (fun r hr r' hr' same => ?_) inv.places.sleepers.nodup
  have h : b.loc (k.sleeping r).thread = some (.spot (.asleep r)) := inv.places.sleeper hr
  have h' : b.loc (k.sleeping r').thread = some (.spot (.asleep r')) := inv.places.sleeper hr'
  rw [same, h'] at h
  simpa using h.symm

theorem Kernel.Rest.noLeak (rest : k.Rest b recs) : k.NoLeak where
  exact := by
    refine ⟨recs, rest.places.sleepers, rest.inv.sleepers_nodup,
      fun r hr => rest.inv.sleeper_live hr, ?_⟩
    rw [← owned_blocks]
    exact rest.owns
  freed tr fits legal noOverflow := by
    rcases rest.handled fits with ⟨k₁, -, -, eq, -⟩ | ⟨illegal | ⟨user, exits, low⟩, -⟩
    · refine ⟨leave k₁, ?_⟩
      unfold trap
      rw [eq]
      rfl
    · exact absurd illegal legal
    · have := noOverflow user exits
      omega
  restored noThreads noSems h₀ h fresh start end_ run := by
    obtain ⟨holds, -, start', end_'⟩ := run.holds fresh
    have none : recs = [] := by
      refine List.eq_nil_iff_forall_not_mem.mpr fun r hr => ?_
      have live := rest.inv.sleeper_live hr
      rw [noThreads] at live
      exact absurd live List.not_mem_nil
    refine rest.owns.cells_eq holds ?_ fun a => ?_
    · exact rest.owns.ok.same_geometry holds.ok (start'.trans start) (end_'.trans end_)
    · rw [owned_blocks, none]
      simp [Kernel.blocks, noThreads, noSems]

end

/-- **Nothing leaks and nothing is freed twice**, in any run. -/
theorem kernel_blocks_exact {k₀ k : Kernel} (run : Run anyTrap k₀ k) : k.NoLeak := by
  obtain ⟨b, recs, rest⟩ := run_rest run
  exact rest.noLeak

/-- One thread waits for a semaphore, another one sleeps, and the timer ticks. -/
theorem kernel_blocks_exact_small : ∃ k k' p q s r, Run anyTrap roomyKernel k ∧
    k.hist.live = [q, p] ∧ k.hist.opened = [s] ∧
    IsRing k.sleepLinks k.scheduler.sleepingThreads [r] ∧ k.NoLeak ∧
    trap k (timerTrap k) = .ok k' ∧ k'.NoLeak := by
  obtain ⟨k, b, p, q, s, r, sleeps, run⟩ := one_sleeps
  have noLeak := kernel_blocks_exact run
  have fits := timerTrap_fits k
  obtain ⟨k', taken⟩ := noLeak.freed _ fits (show irqTimer ∉ illegalCauses by decide)
    fun user => absurd user (show irqTimer ≠ irqEcallUser by decide)
  exact ⟨k, k', p, q, s, r, run, sleeps.live, sleeps.opened, sleeps.rest.places.sleepers, noLeak,
    taken, kernel_blocks_exact (run.trap fits trivial taken)⟩

end RiscvKernel
