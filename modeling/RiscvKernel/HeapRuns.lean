import RiscvKernel.Heap
import Mathlib.Algebra.BigOperators.Group.Multiset.Basic

/-!
# Runs of the allocator

Any run from `__mem_init` of allocations that fit and frees of live
allocations keeps `mem_index` a tiling (`heap_run_wellFormed`), and the array
depends on the live allocations only (`index_determined_by_live`).
-/

namespace RiscvKernel
open Tiling

/-- The runs from `__mem_init` on the platform `h₀`, with the allocations made
and not freed, as pairs of pointer and number of blocks. -/
inductive HeapRun (h₀ : Heap) : Heap → List (Nat × Nat) → Prop
  | init {h : Heap} : memInit h₀ = .ok ((), h) → HeapRun h₀ h []
  | alloc {h h' : Heap} {live : List (Nat × Nat)} {nblocks p : Nat} : HeapRun h₀ h live →
      0 < nblocks → h.HasRoom nblocks → memAlloc nblocks h = .ok (p, h') →
      HeapRun h₀ h' ((p, nblocks) :: live)
  | free {h h' : Heap} {live : List (Nat × Nat)} {p nblocks : Nat} {r : Int} : HeapRun h₀ h live →
      (p, nblocks) ∈ live → memFree p h = .ok (r, h') → HeapRun h₀ h' (live.erase (p, nblocks))

/-- The index is a boundary-tag tiling of the heap for the allocations `live`. -/
structure Heap.WellFormed (h : Heap) (live : List (Nat × Nat)) : Prop where
  tiled : ∃ cs, Tiles h.memIndex 0 cs h.nMemBlocks ∧ Coalesced cs ∧
    cs.head? = some ⟨h.memIndexLenInBlocks, true⟩ ∧
    h.runs cs = (h.blockAddr 0, h.memIndexLenInBlocks) ::ₘ (live : Multiset (Nat × Nat))
  disjoint : live.Pairwise fun a b =>
    a.1 + a.2 * memBlockSize ≤ b.1 ∨ b.1 + b.2 * memBlockSize ≤ a.1
  inside : ∀ a ∈ live, h.heapStart + h.memIndexLenInBlocks * memBlockSize ≤ a.1 ∧
    a.1 + a.2 * memBlockSize ≤ h.heapStart + h.nMemBlocks * memBlockSize
  accesses : h.reach ≤ h.nMemBlocks
  blocks : h.nMemBlocks = (h.heapEnd - h.heapStart) / memBlockSize
  index : 4 * h.nMemBlocks ≤ h.memIndexLenInBlocks * memBlockSize

/-- The used runs do not overlap, as ranges of bytes. -/
theorem Heap.Holds.disjoint {h : Heap} {live : List (Nat × Nat)} (inv : h.Holds live) :
    ((h.blockAddr 0, h.memIndexLenInBlocks) :: live).Pairwise fun a b =>
      a.1 + a.2 * memBlockSize ≤ b.1 ∨ b.1 + b.2 * memBlockSize ≤ a.1 := by
  obtain ⟨ok, cs, tiles, -, runs⟩ := inv
  have perm : ((allocs 0 cs).map fun a => (h.blockAddr a.1, a.2)).Perm
      ((h.blockAddr 0, h.memIndexLenInBlocks) :: live) := Quotient.exact runs
  refine (perm.pairwise_iff fun {a b} => Or.symm).mp ?_
  rw [List.pairwise_map]
  refine tiles.allocs_pairwise.imp_of_mem ?_
  rintro ⟨i, n⟩ ⟨j, k⟩ hi hj le
  have := (tiles.alloc_bounds hi).2.2
  have := (tiles.alloc_bounds hj).2.2
  dsimp only at le
  rw [ok.blockAddr_eq (by omega), ok.blockAddr_eq (by omega)]
  simp only [memBlockSize]
  omega

theorem Heap.Holds.bounds {h : Heap} {live : Multiset (Nat × Nat)} (inv : h.Holds live)
    {a : Nat × Nat} (ha : a ∈ live) : 0 < a.2 ∧ h.heapStart ≤ a.1 ∧
      a.1 + a.2 * memBlockSize ≤ h.heapStart + h.nMemBlocks * memBlockSize := by
  obtain ⟨ok, cs, tiles, -, runs⟩ := inv
  have mem : a ∈ h.runs cs := by
    rw [runs]
    exact Multiset.mem_cons_of_mem ha
  obtain ⟨⟨i, n⟩, hi, rfl⟩ := by
    simpa only [Geometry.runs, Multiset.mem_map, Multiset.mem_coe] using mem
  have := tiles.alloc_bounds hi
  dsimp only
  rw [ok.blockAddr_eq (by omega)]
  simp only [memBlockSize]
  omega

/-- Live allocations start at different addresses, and none of them at 0. -/
theorem Heap.Holds.starts {h : Heap} {live : Multiset (Nat × Nat)} (inv : h.Holds live) :
    (live.map Prod.fst).Nodup ∧ ∀ a ∈ live, 0 < a.1 := by
  obtain ⟨l, rfl⟩ := Quot.exists_rep live
  have disjoint := List.pairwise_cons.mp inv.disjoint
  have bounds := fun a (ha : a ∈ l) => inv.bounds (Multiset.mem_coe.mpr ha)
  constructor
  · show (l.map Prod.fst).Nodup
    refine List.pairwise_map.mpr (disjoint.2.imp_of_mem ?_)
    intro a b ha hb apart
    have := bounds a ha
    have := bounds b hb
    simp only [memBlockSize] at apart
    omega
  · intro a ha
    have := bounds a ha
    have := disjoint.1 a ha
    have := inv.ok.indexLen_bounds
    have := inv.ok.blockAddr_eq (Nat.zero_le _)
    simp only [memBlockSize] at *
    omega

theorem Heap.Holds.card_le {h : Heap} {live : Multiset (Nat × Nat)} (inv : h.Holds live) :
    live.card ≤ h.nMemBlocks := by
  obtain ⟨-, cs, tiles, -, runs⟩ := inv
  have count := congrArg Multiset.card runs
  have := allocs_length_le 0 cs
  have := tiles.length_le
  simp only [Geometry.runs, Multiset.card_map, Multiset.coe_card, Multiset.card_cons] at count
  omega

/-- A block is free when the allocations are smaller than the heap. -/
theorem Heap.Holds.room_one {h : Heap} {live : Multiset (Nat × Nat)} (inv : h.Holds live)
    (lt : h.memIndexLenInBlocks + (live.map Prod.snd).sum < h.nMemBlocks) : h.HasRoom 1 := by
  obtain ⟨-, cs, tiles, -, runs⟩ := inv
  by_contra full
  have used : ∀ c ∈ cs, c.used = true := by
    intro c hc
    by_contra free
    obtain ⟨pre, post, rfl⟩ := List.append_of_mem hc
    exact full ⟨_, tiles, c, hc, by simpa using free, tiles.at_of_split.pos⟩
  have sizes := congrArg (fun m => (m.map Prod.snd).sum) runs
  simp only [Geometry.runs, Multiset.map_map, Function.comp_def, Multiset.map_cons,
    Multiset.sum_cons] at sizes
  have all : ((allocs 0 cs).map Prod.snd).sum = total cs := allocs_sizes 0 used
  have close := tiles.end_eq
  have covered : (Multiset.map (fun a : Nat × Nat => a.2) (allocs 0 cs)).sum = total cs := by
    simpa using all
  omega

/-- The index stays at the start of the heap. -/
theorem Heap.Holds.index_first {h : Heap} {live : Multiset (Nat × Nat)} (inv : h.Holds live)
    {cs : List Chunk} (tiles : Tiles h.memIndex 0 cs h.nMemBlocks) :
    cs.head? = some ⟨h.memIndexLenInBlocks, true⟩ := by
  obtain ⟨ok, cs', tiles', -, runs⟩ := inv
  obtain rfl := tiles.det tiles'
  have mem : (h.blockAddr 0, h.memIndexLenInBlocks) ∈ h.runs cs := by simp [runs]
  obtain ⟨⟨i, n⟩, hi, same⟩ := by
    simpa only [Geometry.runs, Multiset.mem_map, Multiset.mem_coe] using mem
  obtain ⟨addr, rfl⟩ := Prod.mk.injEq .. ▸ same
  have bounds := tiles.alloc_bounds hi
  obtain rfl : i = 0 := ok.blockAddr_inj (by omega) (by omega) addr
  cases cs with
  | nil => simp [allocs] at hi
  | cons c cs => rw [tiles.head_alloc.mp hi, List.head?_cons]

theorem Heap.Holds.wellFormed {h : Heap} {live : List (Nat × Nat)} (inv : h.Holds live)
    (accesses : h.reach ≤ h.nMemBlocks) : h.WellFormed live := by
  have disjoint := List.pairwise_cons.mp inv.disjoint
  refine ⟨?_, disjoint.2, fun a ha => ?_, accesses, inv.ok.blocks, ?_⟩
  · obtain ⟨cs, tiles, coalesced, runs⟩ := inv.tiled
    exact ⟨cs, tiles, coalesced, inv.index_first tiles, runs⟩
  · have bounds := inv.bounds (Multiset.mem_coe.mpr ha)
    have apart := disjoint.1 a ha
    have start := inv.ok.blockAddr_eq (i := 0) (Nat.zero_le _)
    have len := inv.ok.indexLen_bounds
    simp only [memBlockSize] at *
    omega
  · have len := inv.ok.indexLen
    simp only [memBlockSize] at *
    omega

theorem HeapRun.holds {h₀ h : Heap} {live : List (Nat × Nat)} (fresh : h₀.Fresh)
    (run : HeapRun h₀ h live) : h.Holds live ∧ h.reach ≤ h.nMemBlocks ∧
      h.heapStart = h₀.heapStart ∧ h.heapEnd = h₀.heapEnd := by
  induction run with
  | init eq =>
    obtain ⟨h, eq', inv, start, end_, reach, -⟩ := memInit_spec fresh
    obtain rfl : h = _ := by simpa [eq] using eq'.symm
    exact ⟨inv, reach, start, end_⟩
  | @alloc h h' live nblocks p _ pos room eq ih =>
    obtain ⟨inv, reach, start, end_⟩ := ih
    obtain ⟨p', h₁, eq', within, inv'⟩ := memAlloc_spec inv pos room
    obtain ⟨rfl, rfl⟩ : p' = p ∧ h₁ = h' := by simpa [eq] using eq'.symm
    have geometry := within.geometry
    have := within.reach
    refine ⟨by simpa using inv', ?_, ?_, ?_⟩
    · rw [geometry]
      omega
    · rw [geometry, start]
    · rw [geometry, end_]
  | @free h h' live p nblocks r _ mem eq ih =>
    obtain ⟨inv, reach, start, end_⟩ := ih
    have split : (live : Multiset (Nat × Nat)) = (p, nblocks) ::ₘ ↑(live.erase (p, nblocks)) :=
      Quotient.sound (List.perm_cons_erase mem)
    rw [split] at inv
    obtain ⟨h₁, eq', within, inv'⟩ := memFree_spec inv
    obtain ⟨-, rfl⟩ : 0 = r ∧ h₁ = h' := by simpa [eq] using eq'.symm
    have geometry := within.geometry
    have := within.reach
    refine ⟨inv', ?_, ?_, ?_⟩
    · rw [geometry]
      omega
    · rw [geometry, start]
    · rw [geometry, end_]

theorem HeapRun.wellFormed {h₀ h : Heap} {live : List (Nat × Nat)} (fresh : h₀.Fresh)
    (run : HeapRun h₀ h live) : h.WellFormed live :=
  (run.holds fresh).1.wellFormed (run.holds fresh).2.1

theorem HeapRun.free_ok {h₀ h : Heap} {live : List (Nat × Nat)} {a : Nat × Nat}
    (fresh : h₀.Fresh) (run : HeapRun h₀ h live) (ha : a ∈ live) :
    ∃ h', memFree a.1 h = .ok (0, h') ∧ HeapRun h₀ h' (live.erase a) := by
  have inv := (run.holds fresh).1
  have split : (live : Multiset (Nat × Nat)) = a ::ₘ ↑(live.erase a) :=
    Quotient.sound (List.perm_cons_erase ha)
  rw [split] at inv
  obtain ⟨h', eq, -, -⟩ := memFree_spec inv
  exact ⟨h', eq, run.free ha eq⟩

/-- **The allocator invariant.** Whatever the order of the operations, the
index stays a well-formed tiling for the allocations made and not freed, every
further request that fits is served, and every further free of a live
allocation returns 0. -/
theorem heap_run_wellFormed {h₀ h : Heap} {live : List (Nat × Nat)} (fresh : h₀.Fresh)
    (run : HeapRun h₀ h live) :
    h.WellFormed live ∧
    (∀ nblocks, 0 < nblocks → h.HasRoom nblocks →
      ∃ p h', memAlloc nblocks h = .ok (p, h') ∧ h'.WellFormed ((p, nblocks) :: live)) ∧
    ∀ a ∈ live, ∃ h', memFree a.1 h = .ok (0, h') ∧ h'.WellFormed (live.erase a) := by
  refine ⟨run.wellFormed fresh, fun nblocks pos room => ?_, fun a ha => ?_⟩
  · obtain ⟨p, h', eq, -, -⟩ := memAlloc_spec (run.holds fresh).1 pos room
    exact ⟨p, h', eq, (run.alloc pos room eq).wellFormed fresh⟩
  · obtain ⟨h', eq, run'⟩ := run.free_ok fresh ha
    exact ⟨h', eq, run'.wellFormed fresh⟩

/-- A heap of four blocks, before `__mem_init`. -/
def smallHeap : Heap where
  heapStart := 4096
  heapEnd := 4352
  nMemBlocks := 0
  memIndexLenInBlocks := 0
  memIndex := fun _ => 7
  reach := 0

theorem smallHeap_fresh : smallHeap.Fresh := by
  constructor <;> decide

/-- The heap that a finished operation leaves. -/
def heapAfter {α : Type} (r : Except Halt (α × Heap)) (h : Heap) : Heap :=
  match r with
  | .ok (_, h') => h'
  | .error _ => h

abbrev smallInit : Heap := heapAfter (memInit smallHeap) smallHeap
abbrev smallAlloc : Heap := heapAfter (memAlloc 2 smallInit) smallInit

theorem smallInit_room : smallInit.HasRoom 2 := by
  refine ⟨[⟨1, true⟩, ⟨3, false⟩], ⟨?_, ?_, rfl⟩, ⟨3, false⟩, by simp, rfl, by decide⟩
  · exact ⟨by decide, by decide, by decide, fun j h h' => absurd h (by dsimp only at h'; omega)⟩
  · refine ⟨by decide, by decide, by decide, fun j h h' => ?_⟩
    obtain rfl : j = 2 := by
      dsimp only at h h'
      omega
    decide

theorem smallAlloc_run : HeapRun smallHeap smallAlloc [(4160, 2)] :=
  .alloc (.init rfl) (by decide) smallInit_room rfl

/-- The small heap has three free blocks. -/
theorem small_more {h : Heap} {live : List (Nat × Nat)} (run : HeapRun smallHeap h live)
    (few : (live.map Prod.snd).sum < 3) : ∃ p h', HeapRun smallHeap h' ((p, 1) :: live) := by
  obtain ⟨holds, -, start, stop⟩ := run.holds smallHeap_fresh
  have blocks : h.nMemBlocks = 4 := by
    rw [holds.ok.blocks, start, stop]
    rfl
  have len : h.memIndexLenInBlocks = 1 := by
    rw [holds.ok.indexLen, blocks]
    rfl
  have room : h.HasRoom 1 := holds.room_one (by simp; omega)
  obtain ⟨p, h', eq, -, -⟩ := memAlloc_spec holds (by decide) room
  exact ⟨p, h', .alloc run (by decide) room eq⟩

theorem heap_run_wellFormed_small :
    smallAlloc.WellFormed [(4160, 2)] ∧ ∃ h, memFree 4160 smallAlloc = .ok (0, h) := by
  obtain ⟨wellFormed, -, frees⟩ := heap_run_wellFormed smallHeap_fresh smallAlloc_run
  obtain ⟨h, eq, -⟩ := frees (4160, 2) List.mem_cons_self
  exact ⟨wellFormed, h, eq⟩

/-! ## The array depends on the live allocations only -/

theorem Geometry.mem_runs {g : Geometry} (ok : g.Ok) {m : Nat → Int} {cs : List Chunk} {i n : Nat}
    (tiles : Tiles m 0 cs g.nMemBlocks) (hi : i ≤ g.nMemBlocks) :
    (g.blockAddr i, n) ∈ g.runs cs ↔ (i, n) ∈ allocs 0 cs := by
  simp only [Geometry.runs, Multiset.mem_map, Multiset.mem_coe, Prod.exists, Prod.mk.injEq]
  constructor
  · rintro ⟨j, k, hj, addr, rfl⟩
    have := tiles.alloc_bounds hj
    rwa [← ok.blockAddr_inj (by omega) hi addr]
  · intro h
    exact ⟨i, n, h, rfl, rfl⟩

theorem Heap.Holds.cells_eq {h h' : Heap} {live live' : Multiset (Nat × Nat)} (inv : h.Holds live)
    (inv' : h'.Holds live') (geometry : h'.toGeometry = h.toGeometry)
    (same : ∀ a, a ∈ live ↔ a ∈ live') : ∀ i, i < h.nMemBlocks → h.memIndex i = h'.memIndex i := by
  obtain ⟨ok, cs, tiles, coalesced, runs⟩ := inv
  obtain ⟨-, ds, tiles', coalesced', runs'⟩ := inv'
  rw [geometry] at tiles' runs'
  have equal : cs = ds := by
    refine tiles.unique tiles' coalesced coalesced' ?_
    rintro ⟨i, n⟩
    by_cases hi : i ≤ h.nMemBlocks
    · rw [← Geometry.mem_runs ok tiles hi, ← Geometry.mem_runs ok tiles' hi, runs, runs',
        Multiset.mem_cons, Multiset.mem_cons, same]
    · constructor <;> intro hp
      · have := tiles.alloc_bounds hp
        omega
      · have := tiles'.alloc_bounds hp
        omega
  subst equal
  exact fun i hi => tiles.cells_eq tiles' i (Nat.zero_le i) hi

/-- The bounds of the heap determine the rest of its geometry. -/
theorem Geometry.Ok.same_geometry {g g' : Geometry} (ok : g.Ok) (ok' : g'.Ok)
    (start : g'.heapStart = g.heapStart) (end_ : g'.heapEnd = g.heapEnd) : g' = g := by
  have blocks : g'.nMemBlocks = g.nMemBlocks := by
    rw [ok.blocks, ok'.blocks, start, end_]
  have len : g'.memIndexLenInBlocks = g.memIndexLenInBlocks := by
    rw [ok.indexLen, ok'.indexLen, blocks]
  cases g
  cases g'
  simp_all

theorem HeapRun.cells_eq {h₀ h₀' h h' : Heap} {live live' : List (Nat × Nat)} (fresh : h₀.Fresh)
    (fresh' : h₀'.Fresh) (start : h₀'.heapStart = h₀.heapStart) (end_ : h₀'.heapEnd = h₀.heapEnd)
    (run : HeapRun h₀ h live) (run' : HeapRun h₀' h' live') (same : ∀ a, a ∈ live ↔ a ∈ live') :
    ∀ i, i < h.nMemBlocks → h.memIndex i = h'.memIndex i := by
  obtain ⟨inv, -, s, e⟩ := run.holds fresh
  obtain ⟨inv', -, s', e'⟩ := run'.holds fresh'
  have geometry := inv.ok.same_geometry inv'.ok (by rw [s, s', start]) (by rw [e, e', end_])
  exact inv.cells_eq inv' geometry fun a => by simpa using same a

theorem HeapRun.blocks {h₀ h : Heap} {live : List (Nat × Nat)} (fresh : h₀.Fresh)
    (run : HeapRun h₀ h live) :
    h.nMemBlocks = (h₀.heapEnd - h₀.heapStart) / memBlockSize := by
  obtain ⟨inv, -, start, end_⟩ := run.holds fresh
  rw [inv.ok.blocks, start, end_]

/-- Free the pointers one after the other. -/
def freeAll : List Nat → IndexM Unit
  | [] => pure ()
  | p :: ps => do
    let _ ← memFree p
    freeAll ps

theorem HeapRun.freeAll_ok {h₀ h : Heap} {live : List (Nat × Nat)} (fresh : h₀.Fresh)
    (run : HeapRun h₀ h live) {xs : List (Nat × Nat)} (sub : xs.Subperm live) :
    ∃ h' rest, freeAll (xs.map Prod.fst) h = .ok ((), h') ∧ HeapRun h₀ h' rest ∧
      (xs ++ rest).Perm live := by
  induction xs generalizing h live with
  | nil => exact ⟨h, live, rfl, run, List.Perm.refl _⟩
  | cons a xs ih =>
    have ha : a ∈ live := sub.subset List.mem_cons_self
    obtain ⟨h₁, eq, run₁⟩ := run.free_ok fresh ha
    have perm := List.perm_cons_erase ha
    obtain ⟨h', rest, eq', run', perm'⟩ := ih run₁
      ((List.subperm_cons a).mp (sub.trans perm.subperm))
    refine ⟨h', rest, ?_, run', (perm'.cons a).trans perm.symm⟩
    simp only [List.map_cons, freeAll]
    rw [bind_run eq, eq']

/-- **The index depends only on what is live.** Two runs that end with the same
live allocations end with the same array; so frees commute, freeing an
allocation just made undoes it, and freeing everything restores the array that
`__mem_init` produced. -/
theorem index_determined_by_live {h₀ h : Heap} {live : List (Nat × Nat)} (fresh : h₀.Fresh)
    (run : HeapRun h₀ h live) :
    (∀ h₀' h' live', h₀'.Fresh → h₀'.heapStart = h₀.heapStart → h₀'.heapEnd = h₀.heapEnd →
      HeapRun h₀' h' live' → (∀ a, a ∈ live ↔ a ∈ live') →
      ∀ i, i < h.nMemBlocks → h.memIndex i = h'.memIndex i) ∧
    (∀ xs ys : List (Nat × Nat), xs.Subperm live → ys.Perm xs →
      ∃ h₁ h₂, freeAll (xs.map Prod.fst) h = .ok ((), h₁) ∧
        freeAll (ys.map Prod.fst) h = .ok ((), h₂) ∧
        ∀ i, i < h.nMemBlocks → h₁.memIndex i = h₂.memIndex i) ∧
    (∀ nblocks, 0 < nblocks → h.HasRoom nblocks →
      ∃ p h₁ h₂, memAlloc nblocks h = .ok (p, h₁) ∧ memFree p h₁ = .ok (0, h₂) ∧
        ∀ i, i < h.nMemBlocks → h₂.memIndex i = h.memIndex i) ∧
    ∀ xs : List (Nat × Nat), xs.Perm live →
      ∃ h₁ hᵢ, freeAll (xs.map Prod.fst) h = .ok ((), h₁) ∧ memInit h₀ = .ok ((), hᵢ) ∧
        ∀ i, i < h.nMemBlocks → h₁.memIndex i = hᵢ.memIndex i := by
  have blocks := run.blocks fresh
  -- two runs on this platform with the same live allocations
  have agree : ∀ {h₁ h₂ : Heap} {l₁ l₂ : List (Nat × Nat)}, HeapRun h₀ h₁ l₁ → HeapRun h₀ h₂ l₂ →
      l₁.Perm l₂ → ∀ i, i < h.nMemBlocks → h₁.memIndex i = h₂.memIndex i := by
    intro h₁ h₂ l₁ l₂ run₁ run₂ perm i hi
    exact run₁.cells_eq fresh fresh rfl rfl run₂ (fun _ => perm.mem_iff) i
      (by rwa [run₁.blocks fresh, ← blocks])
  refine ⟨?_, ?_, ?_, ?_⟩
  · intro h₀' h' live' fresh' start end_ run' same
    exact run.cells_eq fresh fresh' start end_ run' same
  · intro xs ys sub perm
    obtain ⟨h₁, rest₁, eq₁, run₁, perm₁⟩ := run.freeAll_ok fresh sub
    obtain ⟨h₂, rest₂, eq₂, run₂, perm₂⟩ := run.freeAll_ok fresh (perm.subperm.trans sub)
    refine ⟨h₁, h₂, eq₁, eq₂, agree run₁ run₂ ?_⟩
    have both : (xs ++ rest₁).Perm (xs ++ rest₂) :=
      perm₁.trans (perm₂.symm.trans (perm.append_right rest₂))
    exact (List.perm_append_left_iff xs).mp both
  · intro nblocks pos room
    obtain ⟨p, h₁, eq, -, -⟩ := memAlloc_spec (run.holds fresh).1 pos room
    have run₁ := run.alloc pos room eq
    obtain ⟨h₂, eq', run₂⟩ := run₁.free_ok fresh List.mem_cons_self
    rw [List.erase_cons_head] at run₂
    exact ⟨p, h₁, h₂, eq, eq', agree run₂ run (List.Perm.refl live)⟩
  · intro xs perm
    obtain ⟨h₁, rest, eq, run₁, perm₁⟩ := run.freeAll_ok fresh perm.subperm
    obtain ⟨hᵢ, eqᵢ, -⟩ := memInit_spec fresh
    have none_left : rest = [] := by
      have := perm₁.length_eq
      have := perm.length_eq
      simp only [List.length_append] at *
      exact List.length_eq_zero_iff.mp (by omega)
    subst none_left
    exact ⟨h₁, hᵢ, eq, eqᵢ, agree run₁ (.init eqᵢ) (List.Perm.refl [])⟩

/-- Two allocations are freed in both orders. -/
theorem index_determined_by_live_small : ∃ h p h₁ h₂ hᵢ,
    HeapRun smallHeap h [(p, 1), (4160, 2)] ∧ freeAll [p, 4160] h = .ok ((), h₁) ∧
    freeAll [4160, p] h = .ok ((), h₂) ∧ memInit smallHeap = .ok ((), hᵢ) ∧
    ∀ i, i < 4 → h₁.memIndex i = h₂.memIndex i ∧ h₁.memIndex i = hᵢ.memIndex i := by
  obtain ⟨p, h, run⟩ := small_more smallAlloc_run (by decide)
  obtain ⟨-, orders, -, restores⟩ := index_determined_by_live smallHeap_fresh run
  have blocks : h.nMemBlocks = 4 := run.blocks smallHeap_fresh
  have swapped : [(4160, 2), (p, 1)].Perm [(p, 1), (4160, 2)] := List.Perm.swap ..
  obtain ⟨h₁, h₂, freed, freed', same⟩ := orders _ _ (List.Perm.refl _).subperm swapped
  obtain ⟨h₁', hᵢ, again, init, restored⟩ := restores _ (List.Perm.refl _)
  obtain rfl : h₁ = h₁' := congrArg Prod.snd (Except.ok.inj (freed.symm.trans again))
  rw [blocks] at same restored
  exact ⟨h, p, h₁, h₂, hᵢ, run, freed, freed', init, fun i hi => ⟨same i hi, restored i hi⟩⟩

end RiscvKernel
