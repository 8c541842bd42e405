import RiscvKernel.Cancel

/-!
# Closing a semaphore with timed waiters

`__sem_close` walks the waiting ring and never looks at the sleeping list.

* `close_complete_iff`: when it ends the timed waits of its waiters.
-/

namespace RiscvKernel
open Function Intrusive DeltaList

/-- An open semaphore `s` with the waiting threads `ws`; `rs` is the ready queue,
`recs` the sleeping list, and the heap holds what is `live` besides. -/
structure Kernel.Open (k : Kernel) (s : Nat) (rs ws recs : List Nat)
    (live : Multiset (Nat × Nat)) : Prop where
  ready : IsRing k.links k.scheduler.readyThreads rs
  waiting : IsRing k.links (k.sem s).waitingThreads ws
  apart : ∀ w ∈ ws, w ∉ rs
  alarms : k.Alarms recs
  threads : ∀ w ∈ ws, (w, sizeInBlocks 56) ∈ live
  holds : k.heap.Holds ((s, sizeInBlocks 16) ::ₘ (recordBlocks recs + live))

/-- Closing `s` makes every waiting thread ready once, with -1 as the result of
its wait, and leaves no record of the semaphore or of one of these threads; the
other sleepers keep their times. -/
def Kernel.ClosesCompletely (k : Kernel) (s : Nat) (rs ws recs : List Nat) : Prop :=
  ∃ k', semClose k s = .ok (0, k') ∧
    IsRing k'.links k'.scheduler.readyThreads (rs ++ ws) ∧
    (∀ w ∈ ws, k'.context (k.thread w).sp regA0 = u64 semClosedExternally) ∧
    ∃ left, IsRing k'.sleepLinks k'.scheduler.sleepingThreads left ∧
      (∀ r ∈ left, (k'.sleeping r).semaphore ≠ s ∧ (k'.sleeping r).thread ∉ ws) ∧
      times 0 (entries k'.sleeping left) =
        (times 0 (entries k.sleeping recs)).filter (·.1 ∉ ws)

theorem pushAll_ring (ws : List Nat) : ∀ (k : Kernel) (rs : List Nat),
    IsRing k.links k.scheduler.readyThreads rs → (∀ w ∈ ws, w ∉ rs ∧ w ≠ 0) → ws.Nodup →
    IsRing (pushAll k ws).links (pushAll k ws).scheduler.readyThreads (rs ++ ws) := by
  induction ws with
  | nil =>
    intro k rs ring _ _
    rwa [List.append_nil]
  | cons w ws ih =>
    intro k rs ring apart nodup
    obtain ⟨out, nodup'⟩ := List.nodup_cons.mp nodup
    obtain ⟨notReady, nonzero⟩ := apart w List.mem_cons_self
    have pushed := (ring_push ring notReady nonzero).1
    have all := ih (schedulerPush k w) (rs ++ [w]) pushed (fun x hx => by
      have ne : x ≠ w := fun e => out (e ▸ hx)
      simpa [ne] using apart x (List.mem_cons_of_mem w hx)) nodup'
    simpa using all

section
variable {k : Kernel} {s : Nat} {rs ws recs : List Nat} {live : Multiset (Nat × Nat)}

theorem Kernel.Open.fits (h : k.Open s rs ws recs live) : ws.length ≤ k.heap.nMemBlocks := by
  have nodup : (ws.map fun w => (w, sizeInBlocks 56)).Nodup :=
    h.waiting.nodup.map fun _ _ e => congrArg Prod.fst e
  have sub : (↑(ws.map fun w => (w, sizeInBlocks 56)) : Multiset (Nat × Nat)) ≤ live :=
    (Multiset.le_iff_subset (Multiset.coe_nodup.mpr nodup)).mpr fun a ha => by
      obtain ⟨w, hw, rfl⟩ := List.mem_map.mp ha
      exact h.threads w hw
  have few := Multiset.card_le_card sub
  have card := h.holds.card_le
  simp only [Multiset.card_cons, Multiset.card_add, Multiset.coe_card, List.length_map] at few card
  omega

/-- The sleeping list is as it was. -/
theorem semClosed_sleepers (k : Kernel) (s : Nat) (ws : List Nat) (heap : Heap) :
    (k.semClosed s ws heap).sleepLinks = k.sleepLinks ∧
      (k.semClosed s ws heap).scheduler.sleepingThreads = k.scheduler.sleepingThreads ∧
      (k.semClosed s ws heap).sleeping = k.sleeping := by
  have pushed : ∀ (ws : List Nat) (k : Kernel), (pushAll k ws).sleepLinks = k.sleepLinks ∧
      (pushAll k ws).scheduler.sleepingThreads = k.scheduler.sleepingThreads ∧
      (pushAll k ws).sleeping = k.sleeping := by
    intro ws
    induction ws with
    | nil => exact fun _ => ⟨rfl, rfl, rfl⟩
    | cons w ws ih => exact fun k => ih (schedulerPush k w)
  exact pushed ws _

/-- A record that names the semaphore or one of its threads stays. -/
theorem close_keeps_records (h : k.Open s rs ws recs live)
    (closes : k.ClosesCompletely s rs ws recs) {r : Nat} (mem : r ∈ recs) :
    (k.sleeping r).semaphore ≠ s ∧ (k.sleeping r).thread ∉ ws := by
  obtain ⟨k', eq, -, -, left, ring, clean, -⟩ := closes
  obtain ⟨h', eq', -⟩ := semClose_run h.ready h.waiting h.apart h.fits h.holds
  obtain rfl : _ = k' := congrArg Prod.snd (Except.ok.inj (eq'.symm.trans eq))
  obtain ⟨links, head, sleeping⟩ := semClosed_sleepers k s ws h'
  rw [links, head] at ring
  obtain rfl := ring.unique h.alarms.ring
  rw [sleeping] at clean
  exact clean r mem

end

/-- **When closing ends all timed waits.** -/
theorem close_complete_iff {k : Kernel} {s : Nat} {rs ws recs : List Nat}
    {live : Multiset (Nat × Nat)} (h : k.Open s rs ws recs live) :
    k.ClosesCompletely s rs ws recs ↔
      ∀ r ∈ recs, (k.sleeping r).semaphore ≠ s ∧ (k.sleeping r).thread ∉ ws := by
  constructor
  · exact fun closes r mem => close_keeps_records h closes mem
  · intro clean
    obtain ⟨h', eq, -⟩ := semClose_run h.ready h.waiting h.apart h.fits h.holds
    obtain ⟨links, head, sleeping⟩ := semClosed_sleepers k s ws h'
    refine ⟨_, eq, ?_, fun w hw => ?_, recs, ?_, ?_, ?_⟩
    · exact pushAll_ring ws _ rs h.ready
        (fun w hw => ⟨h.apart w hw, fun e => h.waiting.not_null (e ▸ hw)⟩) h.waiting.nodup
    · obtain ⟨front, back, rfl⟩ := List.append_of_mem hw
      show answers k.sp _ k.mem (slot (k.sp w) regA0) = _
      rw [List.map_append, List.map_cons]
      refine answers_last (fun y hy _ => ?_) k.mem
      obtain ⟨x, -, rfl⟩ := List.mem_map.mp hy
      rfl
    · rw [links, head]
      exact h.alarms.ring
    · rw [sleeping]
      exact clean
    · rw [sleeping]
      refine (List.filter_eq_self.mpr fun x hx => ?_).symm
      have mem : x.1 ∈ (times 0 (entries k.sleeping recs)).map Prod.fst := List.mem_map_of_mem hx
      rw [times_fst] at mem
      obtain ⟨y, hy, e⟩ := List.mem_map.mp mem
      obtain ⟨r, hr, rfl⟩ := List.mem_map.mp hy
      rw [← e]
      simpa using (clean r hr).2

/-- A kernel in which thread `w` waits on every semaphore, and the only sleeping
record, at `p`, is one of thread `t` for the semaphore `x`. -/
def closingKernel (h : Heap) (w p t x : Nat) : Kernel :=
  { quietKernel h with
    links := ⟨fun _ => w, fun _ => w⟩
    sleeping := fun _ => ⟨t, x, 5⟩
    sleepLinks := ⟨fun _ => p, fun _ => p⟩
    sem := fun _ => ⟨-1, 0, w⟩
    scheduler := ⟨0, 0, p, 0, 0⟩ }

theorem closing_run : ∃ h s w p, HeapRun smallHeap h [(s, 1), (p, 1), (w, 1)] := by
  obtain ⟨w, h, run⟩ := small_more (.init rfl) (by decide)
  obtain ⟨p, h', run'⟩ := small_more run (by simp)
  obtain ⟨s, h'', run''⟩ := small_more run' (by simp)
  exact ⟨h'', s, w, p, run''⟩

theorem closing_open {h : Heap} {s w p : Nat}
    (run : HeapRun smallHeap h [(s, 1), (p, 1), (w, 1)]) (t x : Nat) :
    (closingKernel h w p t x).Open s [] [w] [p] {(w, 1)} := by
  obtain ⟨holds, -⟩ := run.holds smallHeap_fresh
  have pos := holds.starts.2
  have w₀ := pos (w, 1) (by simp)
  have p₀ := pos (p, 1) (by simp)
  refine ⟨rfl, ⟨rfl, ⟨rfl, rfl⟩, by simp, by simpa using w₀.ne⟩, by simp,
    ⟨⟨rfl, ⟨rfl, rfl⟩, by simp, by simpa using p₀.ne⟩, ?_⟩, by simp [sizeInBlocks, memBlockSize],
      ?_⟩
  · simp [closingKernel, times]
  · exact holds

/-- The record is one of thread 8, which sleeps. -/
theorem close_complete_iff_small : ∃ h s w p, w ≠ 8 ∧
    HeapRun smallHeap h [(s, 1), (p, 1), (w, 1)] ∧
    (closingKernel h w p 8 0).ClosesCompletely s [] [w] [p] := by
  obtain ⟨h, s, w, p, run⟩ := closing_run
  obtain ⟨holds, -, start, -⟩ := run.holds smallHeap_fresh
  have bounds := holds.bounds (a := (w, 1)) (by simp)
  have s₀ := holds.starts.2 (s, 1) (by simp)
  have base : smallHeap.heapStart = 4096 := rfl
  have other : w ≠ 8 := by
    simp only at bounds
    omega
  refine ⟨h, s, w, p, other, run, (close_complete_iff (closing_open run 8 0)).mpr fun r _ => ?_⟩
  exact ⟨s₀.ne, by simpa [closingKernel] using other.symm⟩

/-- The record is the one of the timed wait of `w` itself. -/
theorem close_leaves_record : ∃ h s w p, HeapRun smallHeap h [(s, 1), (p, 1), (w, 1)] ∧
    (closingKernel h w p w s).Open s [] [w] [p] {(w, 1)} ∧
    ¬ (closingKernel h w p w s).ClosesCompletely s [] [w] [p] := by
  obtain ⟨h, s, w, p, run⟩ := closing_run
  have opened := closing_open run w s
  exact ⟨h, s, w, p, run, opened, fun closes =>
    (close_keeps_records opened closes List.mem_cons_self).1 rfl⟩

end RiscvKernel
