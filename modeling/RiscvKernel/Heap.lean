import RiscvKernel.MemFree
import Mathlib.Data.Multiset.MapFold

/-!
# The heap invariant

`Heap.Holds h live`: `mem_index` is a coalesced tiling of the heap whose used
runs are the index itself and the allocations `live`. `memAlloc_spec` and
`memFree_spec` are all that the rest of the kernel knows of the allocator.
-/

namespace RiscvKernel
open Tiling

/-- The geometry `__mem_init` computes for a heap of 2 to 2^31 blocks. -/
structure Geometry.Ok (g : Geometry) : Prop where
  blocks : g.nMemBlocks = (g.heapEnd - g.heapStart) / memBlockSize
  indexLen : g.memIndexLenInBlocks = (4 * g.nMemBlocks + memBlockSize - 1) / memBlockSize
  ordered : g.heapStart ≤ g.heapEnd
  addressable : g.heapEnd < 2 ^ 64
  two : 2 ≤ g.nMemBlocks
  bound : g.nMemBlocks < 2 ^ 31

theorem Geometry.Ok.blockAddr_eq {g : Geometry} (ok : g.Ok) {i : Nat} (hi : i ≤ g.nMemBlocks) :
    g.blockAddr i = g.heapStart + i * 64 := by
  have blocks := ok.blocks
  have := ok.ordered
  have := ok.addressable
  simp only [memBlockSize] at blocks
  rw [Geometry.blockAddr, memBlockSize, u64_eq] <;> omega

theorem Geometry.Ok.blockAddr_lt {g : Geometry} (ok : g.Ok) {i : Nat} (hi : i < g.nMemBlocks) :
    g.blockAddr i < g.heapEnd := by
  have blocks := ok.blocks
  have := ok.ordered
  simp only [memBlockSize] at blocks
  rw [ok.blockAddr_eq hi.le]
  omega

theorem Geometry.Ok.blockAddr_inj {g : Geometry} (ok : g.Ok) {i j : Nat} (hi : i ≤ g.nMemBlocks)
    (hj : j ≤ g.nMemBlocks) (h : g.blockAddr i = g.blockAddr j) : i = j := by
  rw [ok.blockAddr_eq hi, ok.blockAddr_eq hj] at h
  omega

theorem Geometry.Ok.indexLen_bounds {g : Geometry} (ok : g.Ok) :
    0 < g.memIndexLenInBlocks ∧ g.memIndexLenInBlocks < g.nMemBlocks := by
  have len := ok.indexLen
  have := ok.two
  simp only [memBlockSize] at len
  omega

/-- The used runs of the chunks `cs`, with the address of their first block. -/
def Geometry.runs (g : Geometry) (cs : List Chunk) : Multiset (Nat × Nat) :=
  Multiset.map (fun a : Nat × Nat => (g.blockAddr a.1, a.2)) (allocs 0 cs)

structure Heap.Holds (h : Heap) (live : Multiset (Nat × Nat)) : Prop where
  ok : h.Ok
  tiled : ∃ cs, Tiles h.memIndex 0 cs h.nMemBlocks ∧ Coalesced cs ∧
    h.runs cs = (h.blockAddr 0, h.memIndexLenInBlocks) ::ₘ live

/-- Some free run has at least `nblocks` blocks. -/
def Heap.HasRoom (h : Heap) (nblocks : Nat) : Prop :=
  ∃ cs, Tiles h.memIndex 0 cs h.nMemBlocks ∧ ∃ c ∈ cs, c.used = false ∧ nblocks ≤ c.size

theorem exists_first_fit {nb : Nat} {cs : List Chunk}
    (fits : ∃ c ∈ cs, c.used = false ∧ nb ≤ c.size) :
    ∃ pre k post, cs = pre ++ ⟨k, false⟩ :: post ∧ nb ≤ k ∧
      ∀ c ∈ pre, c.used = false → c.size < nb := by
  induction cs with
  | nil => simp at fits
  | cons c cs ih =>
    by_cases hc : c.used = false ∧ nb ≤ c.size
    · refine ⟨[], c.size, cs, ?_, hc.2, by simp⟩
      cases c
      simp_all
    · obtain ⟨d, hd, fit⟩ := fits
      have hd' : d ∈ cs := by
        rcases List.mem_cons.mp hd with rfl | hd
        · exact absurd fit hc
        · exact hd
      obtain ⟨pre, k, post, rfl, le, short⟩ := ih ⟨d, hd', fit⟩
      refine ⟨c :: pre, k, post, rfl, le, fun x hx hu => ?_⟩
      rcases List.mem_cons.mp hx with rfl | hx
      · by_contra hge
        exact hc ⟨hu, by omega⟩
      · exact short x hx hu

theorem coalesced_append {xs ys : List Chunk} : Coalesced (xs ++ ys) ↔
    Coalesced xs ∧ Coalesced ys ∧
      ∀ a ∈ xs.getLast?, ∀ b ∈ ys.head?, a.used = true ∨ b.used = true :=
  List.isChain_append

theorem coalesced_carve {pre post : List Chunk} {nb k : Nat}
    (h : Coalesced (pre ++ ⟨k, false⟩ :: post)) : Coalesced (pre ++ carve nb k ++ post) := by
  obtain ⟨hpre, hpost, -⟩ := coalesced_append.mp h
  have tail : Coalesced post := hpost.tail
  have next : ∀ b ∈ post.head?, b.used = true := by
    intro b hb
    cases post with
    | nil => simp at hb
    | cons c cs =>
      obtain rfl : c = b := by simpa using hb
      simpa using (List.isChain_cons_cons.mp hpost).1
  rw [List.append_assoc]
  refine coalesced_append.mpr ⟨hpre, ?_, ?_⟩
  · unfold carve
    split
    · exact coalesced_append.mpr ⟨List.isChain_singleton _, tail, by simp⟩
    · exact coalesced_append.mpr ⟨by simp [Coalesced], tail, by simpa using next⟩
  · unfold carve
    split <;> simp

theorem allocs_carve {s nb k : Nat} {post : List Chunk} (le : nb ≤ k) :
    allocs s (carve nb k ++ post) = (s, nb) :: allocs (s + k) post := by
  unfold carve
  split
  · subst nb
    rfl
  · show (s, nb) :: allocs (s + nb + (k - nb)) post = _
    rw [show s + nb + (k - nb) = s + k by omega]

theorem runs_middle (g : Geometry) {cs ds : List Chunk} {xs ys : List (Nat × Nat)} {i n : Nat}
    (hcs : allocs 0 cs = xs ++ (i, n) :: ys) (hds : allocs 0 ds = xs ++ ys) :
    g.runs cs = (g.blockAddr i, n) ::ₘ g.runs ds := by
  have perm : (↑(xs ++ (i, n) :: ys) : Multiset (Nat × Nat)) = (i, n) ::ₘ ↑(xs ++ ys) :=
    Quotient.sound List.perm_middle
  rw [Geometry.runs, Geometry.runs, hcs, hds, perm, Multiset.map_cons]

/-- `__mem_alloc` takes the front of the first free run that is long enough. -/
theorem memAlloc_first {h : Heap} {pre post : List Chunk} {nb k : Nat} (ok : h.Ok)
    (tiles : Tiles h.memIndex 0 (pre ++ ⟨k, false⟩ :: post) h.nMemBlocks) (pos : 0 < nb)
    (le : nb ≤ k) (short : ∀ c ∈ pre, c.used = false → c.size < nb) :
    ∃ h', memAlloc nb h = .ok (h.blockAddr (total pre), h') ∧ h.Carve (total pre) nb k h' := by
  have len : pre.length < h.nMemBlocks + 1 := by
    have := tiles.length_le
    simp only [List.length_append, List.length_cons] at this
    omega
  have fits := memAllocLoop_fits pos le _ 0 h pre tiles ok.bound short len
  rwa [Nat.zero_add] at fits

theorem memAlloc_carves {h : Heap} {live : Multiset (Nat × Nat)} {nb : Nat} (inv : h.Holds live)
    (pos : 0 < nb) (room : h.HasRoom nb) :
    ∃ pre k post h', Tiles h.memIndex 0 (pre ++ ⟨k, false⟩ :: post) h.nMemBlocks ∧ nb ≤ k ∧
      memAlloc nb h = .ok (h.blockAddr (total pre), h') ∧ h.Within h' ∧
      Tiles h'.memIndex 0 (pre ++ carve nb k ++ post) h.nMemBlocks := by
  obtain ⟨ok, cs, tiles, -, -⟩ := inv
  obtain ⟨cs', tiles', fits⟩ := room
  obtain rfl := tiles.det tiles'
  obtain ⟨pre, k, post, rfl, le, short⟩ := exists_first_fit fits
  obtain ⟨h', run, carved⟩ := memAlloc_first ok tiles pos le short
  have size := total_carve le
  refine ⟨pre, k, post, h', tiles, le, run, carved.within, ?_⟩
  rw [← List.singleton_append, ← List.append_assoc] at tiles
  refine tiles.splice (fun j hj => carved.frame j ?_) ?_
  · simpa using hj
  · simpa using carved.tiles

/-- The heap is known from its geometry and its cells. -/
theorem Heap.Holds.congr {h h' : Heap} {live : Multiset (Nat × Nat)} (inv : h.Holds live)
    (geometry : h'.toGeometry = h.toGeometry)
    (same : ∀ i < h.nMemBlocks, h'.memIndex i = h.memIndex i) : h'.Holds live := by
  obtain ⟨ok, cs, tiles, coalesced, runs⟩ := inv
  refine ⟨by rw [geometry]; exact ok, cs, ?_, coalesced, by rw [geometry]; exact runs⟩
  rw [geometry]
  exact tiles.congr fun j _ hj => same j hj

/-- **Allocation.** When some free run is long enough, `__mem_alloc` returns a
fresh run and keeps the invariant. -/
theorem memAlloc_spec {h : Heap} {live : Multiset (Nat × Nat)} {nb : Nat} (inv : h.Holds live)
    (pos : 0 < nb) (room : h.HasRoom nb) :
    ∃ p h', memAlloc nb h = .ok (p, h') ∧ h.Within h' ∧ h'.Holds ((p, nb) ::ₘ live) := by
  obtain ⟨pre, k, post, h', tiles, le, run, within, tiles'⟩ := memAlloc_carves inv pos room
  obtain ⟨ok, cs, known, coalesced, runs⟩ := inv
  obtain rfl := known.det tiles
  have geometry := within.geometry
  refine ⟨_, h', run, within, by rw [geometry]; exact ok, pre ++ carve nb k ++ post,
    by rw [geometry]; exact tiles', coalesced_carve coalesced, ?_⟩
  have hcs : allocs 0 (pre ++ carve nb k ++ post) =
      allocs 0 pre ++ (total pre, nb) :: allocs (total pre + k) post := by
    rw [List.append_assoc, allocs_append, Nat.zero_add, allocs_carve le]
  have hds : allocs 0 (pre ++ ⟨k, false⟩ :: post) =
      allocs 0 pre ++ allocs (total pre + k) post := by
    rw [allocs_append, Nat.zero_add, allocs_free]
  rw [geometry, runs_middle _ hcs hds, runs, Multiset.cons_swap]

theorem Heap.HasRoom.mono {h : Heap} {m n : Nat} (room : h.HasRoom m) (le : n ≤ m) :
    h.HasRoom n := by
  obtain ⟨cs, tiles, c, hc, free, fits⟩ := room
  exact ⟨cs, tiles, c, hc, free, by omega⟩

/-- Room for two requests is room for one after the other. -/
theorem memAlloc_room {h h' : Heap} {live : Multiset (Nat × Nat)} {p nb m : Nat}
    (inv : h.Holds live) (pos : 0 < nb) (pos' : 0 < m) (room : h.HasRoom (nb + m))
    (eq : memAlloc nb h = .ok (p, h')) : h'.HasRoom m := by
  obtain ⟨cs, known, c, hc, free, fits⟩ := room
  obtain ⟨pre, k, post, h₁, tiles, le, run, within, tiles'⟩ :=
    memAlloc_carves inv pos ⟨cs, known, c, hc, free, by omega⟩
  obtain rfl : h₁ = h' := by
    rw [run] at eq
    cases eq
    rfl
  obtain rfl := known.det tiles
  have blocks : h₁.nMemBlocks = h.nMemBlocks := congrArg Geometry.nMemBlocks within.geometry
  refine ⟨_, blocks ▸ tiles', ?_⟩
  rcases List.mem_append.mp hc with before | here
  · exact ⟨c, by simp [before], free, by omega⟩
  rcases List.mem_cons.mp here with rfl | after
  · have left : nb ≠ k := by
      simp only at fits
      omega
    refine ⟨⟨k - nb, false⟩, ?_, rfl, ?_⟩
    · unfold carve
      rw [if_neg (by simpa using left)]
      simp
    · simp only at fits ⊢
      omega
  · exact ⟨c, by simp [after], free, by omega⟩

/-! ## Freeing -/

theorem isFree_run {h : Heap} {c : Bool} {i : Nat} (inside : c = true → i < h.nMemBlocks) :
    ∃ h', isFree c i h = .ok (c && decide (h.memIndex i < 0), h') ∧ h.Within h' ∧
      h'.memIndex = h.memIndex := by
  cases c with
  | false => exact ⟨h, rfl, Heap.Within.refl h, rfl⟩
  | true => exact ⟨h.touch i, rfl, Heap.within_touch (inside rfl), rfl⟩

/-- The chunks before a used one end in at most one free chunk. -/
theorem split_free_last {pre : List Chunk} (h : Coalesced pre) :
    ∃ xs before, pre = xs ++ freeRun before ∧ ∀ c ∈ xs.getLast?, c.used = true := by
  rcases List.eq_nil_or_concat pre with rfl | ⟨xs, ⟨n, used⟩, rfl⟩
  · exact ⟨[], none, rfl, by simp⟩
  · rw [List.concat_eq_append] at h ⊢
    cases used with
    | true => exact ⟨xs ++ [⟨n, true⟩], none, by simp [freeRun], by simp⟩
    | false =>
      refine ⟨xs, some n, rfl, fun c hc => ?_⟩
      simpa using (coalesced_append.mp h).2.2 c hc ⟨n, false⟩ rfl

/-- The chunks after a used one begin with at most one free chunk. -/
theorem split_free_head {post : List Chunk} (h : Coalesced post) :
    ∃ after ys, post = freeRun after ++ ys ∧ ∀ c ∈ ys.head?, c.used = true := by
  rcases post with _ | ⟨⟨n, used⟩, ys⟩
  · exact ⟨none, [], rfl, by simp⟩
  · cases used with
    | true => exact ⟨none, ⟨n, true⟩ :: ys, rfl, by simp⟩
    | false =>
      refine ⟨some n, ys, rfl, fun c hc => ?_⟩
      cases ys with
      | nil => simp at hc
      | cons d ds =>
        obtain rfl : d = c := by simpa using hc
        simpa using (List.isChain_cons_cons.mp h).1

@[simp] theorem allocs_freeRun (s : Nat) (o : Option Nat) : allocs s (freeRun o) = [] := by
  cases o <;> rfl

theorem prev_free_iff {m : Nat → Int} {i : Nat} {xs : List Chunk} {before : Option Nat}
    (tiles : Tiles m 0 (xs ++ freeRun before) i) (used : ∀ c ∈ xs.getLast?, c.used = true) :
    (decide (0 < i) && decide (m (i - 1) < 0)) = before.isSome := by
  cases before with
  | some a =>
    have foot := tiles.last_tag
    have pos := tiles.at_of_split.pos
    have len := tiles.end_eq
    simp only [total_append, freeRun, total_cons, total_nil, tag_free] at foot len pos
    simp only [Option.isSome_some, Bool.and_eq_true, decide_eq_true_eq]
    omega
  | none =>
    simp only [freeRun, List.append_nil] at tiles
    rcases List.eq_nil_or_concat xs with rfl | ⟨ys, c, rfl⟩
    · obtain rfl : 0 = i := tiles
      simp
    · rw [List.concat_eq_append] at tiles used
      have foot := tiles.last_tag
      have hu := used c (by simp)
      simp only [Chunk.tag, hu, ↓reduceIte] at foot
      simp only [Option.isSome_none, Bool.and_eq_false_iff, decide_eq_false_iff_not]
      omega

theorem next_free_iff {m : Nat → Int} {j n : Nat} {ys : List Chunk} {after : Option Nat}
    (tiles : Tiles m j (freeRun after ++ ys) n) (used : ∀ c ∈ ys.head?, c.used = true) :
    (decide (j < n) && decide (m j < 0)) = after.isSome := by
  cases after with
  | some b =>
    have head := tiles.1.head
    have pos := tiles.1.pos
    have len := tiles.2.le
    simp only [tag_free] at head pos len
    simp only [Option.isSome_some, Bool.and_eq_true, decide_eq_true_eq]
    omega
  | none =>
    rcases ys with _ | ⟨c, ys⟩
    · obtain rfl : j = n := tiles
      simp
    · have head := tiles.1.head_pos.mpr (used c (by simp))
      simp only [Option.isSome_none, Bool.and_eq_false_iff, decide_eq_false_iff_not]
      omega

theorem coalesced_release {xs ys mid : List Chunk} {k : Nat} (h : Coalesced (xs ++ mid ++ ys))
    (last : ∀ c ∈ xs.getLast?, c.used = true) (head : ∀ c ∈ ys.head?, c.used = true) :
    Coalesced (xs ++ [⟨k, false⟩] ++ ys) := by
  obtain ⟨hleft, hys, -⟩ := coalesced_append.mp h
  obtain ⟨hxs, -, -⟩ := coalesced_append.mp hleft
  rw [List.append_assoc]
  refine coalesced_append.mpr ⟨hxs, coalesced_append.mpr ⟨List.isChain_singleton _, hys, ?_⟩, ?_⟩
  · intro a _ b hb
    exact Or.inr (head b hb)
  · intro a ha b _
    exact Or.inl (last a ha)

/-- The checks of `__mem_free` pass at the first block of a used run. -/
theorem memFree_checks {h : Heap} {i nb : Nat} {prevFree nextFree : Bool} (ok : h.Ok)
    (run : Chunk.At h.memIndex i ⟨nb, true⟩) (inside : i + nb ≤ h.nMemBlocks)
    (prev : (decide (0 < i) && decide (h.memIndex (i - 1) < 0)) = prevFree)
    (next : (decide (i + nb < h.nMemBlocks) && decide (h.memIndex (i + nb) < 0)) = nextFree) :
    ∃ h₁, h.Within h₁ ∧ h₁.memIndex = h.memIndex ∧
      ∀ h', release i nb prevFree nextFree h₁ = .ok ((), h') →
        memFree (h.blockAddr i) h = .ok (0, h') := by
  have pos : 0 < nb := run.pos
  have size : h.memIndex i = nb := run.head
  have foot : h.memIndex (i + nb - 1) = nb := run.foot
  have bound := ok.bound
  have addr := ok.blockAddr_eq (i := i) (by omega)
  have below := ok.blockAddr_lt (i := i) (by omega)
  have outside : ¬ (h.blockAddr i < h.heapStart ∨ h.heapEnd ≤ h.blockAddr i) := by omega
  have offset : u64 ((h.blockAddr i : Int) - h.heapStart) = i * 64 := by
    rw [addr, u64_eq] <;> omega
  have entry : i * 64 / 64 = i := by omega
  have aligned : i * 64 % 64 = 0 := by omega
  have e₁ : u64 ((i : Int) + nb - 1) = i + nb - 1 := by rw [u64_eq] <;> omega
  have e₂ : u64 ((i : Int) + nb) = i + nb := by rw [u64_eq] <;> omega
  have alloced : ¬ (nb : Int) ≤ 0 := by omega
  let h₀ := (h.touch i).touch (i + nb - 1)
  have within₀ : h.Within h₀ :=
    (Heap.within_touch (by omega)).trans (Heap.within_touch (by rw [touch_geometry]; omega))
  obtain ⟨h₁, eq₁, within₁, same₁⟩ := isFree_run (h := h₀) (c := decide (0 < i)) (i := i - 1)
    (fun _ => by show i - 1 < h.nMemBlocks; omega)
  have geometry₁ := within₁.geometry
  obtain ⟨h₂, eq₂, within₂, same₂⟩ := isFree_run (h := h₁)
    (c := decide (i + nb < h.nMemBlocks)) (i := i + nb)
    (fun hlt => by rw [geometry₁]; exact of_decide_eq_true hlt)
  refine ⟨h₂, within₀.trans (within₁.trans within₂), by rw [same₂, same₁]; rfl, ?_⟩
  intro h' hrel
  have p₁ : (decide (0 < i) && decide (h₀.memIndex (i - 1) < 0)) = prevFree := prev
  have p₂ : (decide (i + nb < h.nMemBlocks) && decide (h₁.memIndex (i + nb) < 0)) = nextFree := by
    rw [same₁]
    exact next
  rw [p₁] at eq₁
  rw [p₂] at eq₂
  simp only [memFree, get_bind, offset, memBlockSize, outside, ↓reduceIte, aligned, ne_eq,
    not_true_eq_false, entry, load_bind, size, alloced, touch_memIndex, e₁, foot, e₂]
  rw [bind_run eq₁, bind_run eq₂, bind_run hrel]
  rfl

/-- `__mem_free` on the first block of a used run makes the run free, together
with its free neighbours. -/
theorem memFree_merges {h : Heap} {pre post : List Chunk} {nb : Nat} (ok : h.Ok)
    (tiles : Tiles h.memIndex 0 (pre ++ ⟨nb, true⟩ :: post) h.nMemBlocks)
    (coalesced : Coalesced (pre ++ ⟨nb, true⟩ :: post)) :
    ∃ h' cs, memFree (h.blockAddr (total pre)) h = .ok (0, h') ∧ h.Within h' ∧
      Tiles h'.memIndex 0 cs h.nMemBlocks ∧ Coalesced cs ∧
      h.runs (pre ++ ⟨nb, true⟩ :: post) = (h.blockAddr (total pre), nb) ::ₘ h.runs cs := by
  obtain ⟨hpre, hpost, -⟩ := coalesced_append.mp coalesced
  obtain ⟨xs, before, rfl, last⟩ := split_free_last hpre
  obtain ⟨after, ys, rfl, head⟩ := split_free_head hpost.tail
  -- the run with its free neighbours is the middle of the tiling
  obtain ⟨hleft, hrun, hright⟩ := tiles_append.mp tiles
  have inside := hright.le
  have mid : xs ++ freeRun before ++ ⟨nb, true⟩ :: (freeRun after ++ ys) =
      xs ++ (freeRun before ++ ⟨nb, true⟩ :: freeRun after) ++ ys := by simp
  rw [mid] at tiles coalesced ⊢
  obtain ⟨hfront, hback⟩ := tiles_append.mp tiles
  obtain ⟨-, hmid⟩ := tiles_append.mp hfront
  have hback := hback.le
  simp only [total_append, total_cons, Nat.zero_add] at hleft hrun hright inside hmid hback
  obtain ⟨h₁, within, same, checks⟩ := memFree_checks ok hrun inside (prev_free_iff hleft last)
    (next_free_iff hright head)
  have geometry := within.geometry
  obtain ⟨h', run, joined⟩ := release_run (h := h₁) (q := total xs) (s := nb) before after
    (by rw [same]; simpa only [Nat.add_assoc] using hmid)
    (by rw [geometry]; omega) (by rw [geometry]; exact ok.bound)
  rw [total_append]
  refine ⟨h', xs ++ [⟨total (freeRun before) + nb + total (freeRun after), false⟩] ++ ys,
    checks h' run, within.trans joined.within, ?_, coalesced_release coalesced last head, ?_⟩
  · rw [same.symm] at tiles
    refine tiles.splice (fun j hj => joined.frame j ?_) ?_
    · simp only [total_append, total_cons] at hj
      omega
    · refine ⟨by simpa using joined.run, ?_⟩
      simp only [Tiles, total_append, total_cons]
      omega
  · have hcs : allocs 0 (xs ++ (freeRun before ++ ⟨nb, true⟩ :: freeRun after) ++ ys) =
        allocs 0 xs ++ (total xs + total (freeRun before), nb) ::
          allocs (total xs + (total (freeRun before) + nb + total (freeRun after))) ys := by
      simp [allocs_append, Nat.add_assoc]
    have hds : allocs 0
        (xs ++ [⟨total (freeRun before) + nb + total (freeRun after), false⟩] ++ ys) =
        allocs 0 xs ++
          allocs (total xs + (total (freeRun before) + nb + total (freeRun after))) ys := by
      simp [allocs_append, allocs]
    exact runs_middle _ hcs hds

/-- **Freeing.** `__mem_free` on a live allocation returns 0, gives its run
back and keeps the invariant. -/
theorem memFree_spec {h : Heap} {live : Multiset (Nat × Nat)} {p nb : Nat}
    (inv : h.Holds ((p, nb) ::ₘ live)) :
    ∃ h', memFree p h = .ok (0, h') ∧ h.Within h' ∧ h'.Holds live := by
  obtain ⟨ok, cs, tiles, coalesced, runs⟩ := inv
  obtain ⟨i, hi, rfl⟩ : ∃ i, (i, nb) ∈ allocs 0 cs ∧ h.blockAddr i = p := by
    have mem : (p, nb) ∈ h.runs cs := by simp [runs]
    simpa [Geometry.runs] using mem
  obtain ⟨pre, post, rfl, rfl⟩ := mem_allocs.mp hi
  rw [Nat.zero_add] at runs ⊢
  obtain ⟨h', ds, eq, within, tiles', coalesced', split⟩ := memFree_merges ok tiles coalesced
  have geometry := within.geometry
  refine ⟨h', eq, within, by rw [geometry]; exact ok, ds, by rw [geometry]; exact tiles',
    coalesced', ?_⟩
  rw [split, Multiset.cons_swap] at runs
  rw [geometry]
  exact (Multiset.cons_inj_right _).mp runs

/-! ## `__mem_init` -/

/-- A platform `__mem_init` can start from: a heap of 2 to 2^31 blocks, with
anything in its cells, and no access to the index yet. -/
structure Heap.Fresh (h : Heap) : Prop where
  ordered : h.heapStart ≤ h.heapEnd
  addressable : h.heapEnd < 2 ^ 64
  two : 2 ≤ (h.heapEnd - h.heapStart) / memBlockSize
  bound : (h.heapEnd - h.heapStart) / memBlockSize < 2 ^ 31
  untouched : h.reach = 0

theorem memClear_run (n : Nat) (h : Heap) : ∃ h', memClear n h = .ok ((), h') ∧
    h'.toGeometry = h.toGeometry ∧ h'.reach ≤ max h.reach n ∧ ∀ j, j < n → h'.memIndex j = 0 := by
  induction n with
  | zero => exact ⟨h, rfl, rfl, by omega, by omega⟩
  | succ n ih =>
    obtain ⟨h₁, eq, geometry, reach, zero⟩ := ih
    refine ⟨h₁.put n 0, ?_, geometry, ?_, ?_⟩
    · rw [memClear, bind_run eq]
      rfl
    · rw [put_reach]
      omega
    · intro j hj
      rw [put_memIndex, Function.update_apply]
      split
      · rfl
      · exact zero j (by omega)

theorem memInit_spec {h₀ : Heap} (fresh : h₀.Fresh) :
    ∃ h, memInit h₀ = .ok ((), h) ∧ h.Holds 0 ∧ h.heapStart = h₀.heapStart ∧
      h.heapEnd = h₀.heapEnd ∧ h.reach ≤ h.nMemBlocks ∧
      h.HasRoom (h.nMemBlocks - h.memIndexLenInBlocks) := by
  let n := (h₀.heapEnd - h₀.heapStart) / memBlockSize
  let len := (4 * n + memBlockSize - 1) / memBlockSize
  let h₁ : Heap := { h₀ with nMemBlocks := n, memIndexLenInBlocks := len }
  have ok : h₁.Ok := ⟨rfl, rfl, fresh.ordered, fresh.addressable, fresh.two, fresh.bound⟩
  have bound : n < 2 ^ 31 := fresh.bound
  obtain ⟨pos, lt⟩ : 0 < len ∧ len < n := ok.indexLen_bounds
  obtain ⟨h₂, eq, geometry, reach, zero⟩ := memClear_run n h₁
  have e₁ : u64 ((len : Int) - 1) = len - 1 := by rw [u64_eq] <;> omega
  have e₂ : u64 ((n : Int) - 1) = n - 1 := by rw [u64_eq] <;> omega
  have t₁ : toI32 len = len := toI32_eq (by omega) (by omega)
  have t₂ : toI32 (-(n - len)) = -(n - len) := toI32_eq (by omega) (by omega)
  let h := (((h₂.put 0 len).put (len - 1) len).put len (-(n - len))).put (n - 1) (-(n - len))
  have tiles : Tiles h.memIndex 0 [⟨len, true⟩, ⟨n - len, false⟩] h.nMemBlocks := by
    have rest : 0 < n - len := by omega
    have close : 0 + len + (n - len) = n := by omega
    simp only [h, put_geometry, geometry, Tiles, put_memIndex, t₁, t₂]
    clear eq reach e₁ e₂ t₁ t₂ geometry ok bound fresh
    refine ⟨⟨pos, ?_, ?_, ?_⟩, ⟨rest, ?_, ?_, ?_⟩, close⟩
    all_goals simp only [tag_used, tag_free, Function.update_apply]
    all_goals grind
  have same : h.toGeometry = h₁.toGeometry := by simp only [h, put_geometry, geometry]
  refine ⟨h, ?_, ⟨by rw [same]; exact ok, _, tiles, by simp [Coalesced], ?_⟩,
    by rw [same], by rw [same], ?_, _, tiles,
    ⟨n - len, false⟩, by simp, rfl, ?_⟩
  · have run : memInit h₀ = .ok ((), (((h₂.put 0 len).put (u64 ((len : Int) - 1)) len).put len
        (-(n - len))).put (u64 ((n : Int) - 1)) (-(n - len))) := by
      simp only [memInit, modify_bind, get_bind]
      rw [bind_run eq]
      rfl
    rw [run, e₁, e₂]
  · simp [Geometry.runs, allocs, same, h₁]
  · have start : h₁.reach = 0 := fresh.untouched
    clear e₁ e₂ t₁ t₂
    rw [same]
    simp only [h, put_reach]
    show _ ≤ n
    omega
  · rw [same]

end RiscvKernel
