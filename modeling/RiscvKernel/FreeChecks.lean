import RiscvKernel.HeapRuns

/-!
# The checks of `__mem_free`

The checks compare the tag at the address with the tag found through it, and
the last tag of a run looks like its first.

* `memFree_exact_iff`: when `__mem_free` accepts an address just if it is the
  start of an allocation, and reads only the array.
-/

namespace RiscvKernel
open Tiling

/-! ## Cells and runs -/

/-- Every cell of a tiling belongs to a chunk. -/
theorem Tiles.cover {m : Nat → Int} {s e j : Nat} {cs : List Chunk} (h : Tiles m s cs e)
    (lo : s ≤ j) (hi : j < e) :
    ∃ pre c post, cs = pre ++ c :: post ∧ s + total pre ≤ j ∧ j < s + total pre + c.size := by
  induction cs generalizing s with
  | nil =>
    obtain rfl : s = e := h
    omega
  | cons c cs ih =>
    by_cases here : j < s + c.size
    · exact ⟨[], c, cs, rfl, by simpa using lo, by simpa using here⟩
    · obtain ⟨pre, d, post, rfl, lo', hi'⟩ := ih h.2 (by omega)
      exact ⟨c :: pre, d, post, rfl, by rw [total_cons]; omega, by rw [total_cons]; omega⟩

/-- A positive cell is the first or the last cell of a used run. -/
theorem Tiles.positive_cell {m : Nat → Int} {e j : Nat} {cs : List Chunk} (h : Tiles m 0 cs e)
    (hi : j < e) (pos : 0 < m j) :
    ∃ p n, (p, n) ∈ allocs 0 cs ∧ m j = n ∧ (j = p ∨ j = p + n - 1) := by
  obtain ⟨pre, c, post, rfl, lo, hi'⟩ := Tiles.cover h (Nat.zero_le j) hi
  have at_run := h.at_of_split
  simp only [Nat.zero_add] at lo hi' at_run
  have edge : j = total pre ∨ j = total pre + c.size - 1 := by
    by_contra inside
    have := at_run.interior j (by omega) (by omega)
    omega
  have tag : m j = c.tag := by
    rcases edge with rfl | rfl
    · exact at_run.head
    · exact at_run.foot
  have used : c.used = true := by
    by_contra free
    rw [tag, Chunk.tag, if_neg free] at pos
    omega
  refine ⟨total pre, c.size, mem_allocs.mpr ⟨pre, post, ?_, (Nat.zero_add _).symm⟩, ?_, edge⟩
  · rw [← used]
  · rw [tag, Chunk.tag, if_pos used]

/-- Used runs that share a cell are the same. -/
theorem Tiles.alloc_unique {m : Nat → Int} {s e p n q k j : Nat} {cs : List Chunk}
    (h : Tiles m s cs e) (hp : (p, n) ∈ allocs s cs) (hq : (q, k) ∈ allocs s cs)
    (in_p : p ≤ j ∧ j < p + n) (in_q : q ≤ j ∧ j < q + k) : p = q ∧ n = k := by
  have apart : (allocs s cs).Pairwise fun a b => a.1 + a.2 ≤ b.1 ∨ b.1 + b.2 ≤ a.1 :=
    h.allocs_pairwise.imp Or.inl
  have symm : Std.Symm fun a b : Nat × Nat => a.1 + a.2 ≤ b.1 ∨ b.1 + b.2 ≤ a.1 :=
    ⟨fun _ _ => Or.symm⟩
  by_contra ne
  have disjoint := apart.forall hp hq fun e => ne (Prod.mk.inj e)
  simp only at disjoint
  omega

theorem Tiles.alloc_tags {m : Nat → Int} {e p n : Nat} {cs : List Chunk} (h : Tiles m 0 cs e)
    (hp : (p, n) ∈ allocs 0 cs) : m p = n ∧ m (p + n - 1) = n := by
  obtain ⟨pre, post, rfl, rfl⟩ := mem_allocs.mp hp
  exact ⟨h.at_of_split.head, h.at_of_split.foot⟩

/-! ## The outcomes -/

section
variable {h : Heap} {e : Nat}

theorem memFree_outside {ptr : Nat} (out : ptr < h.heapStart ∨ h.heapEnd ≤ ptr) :
    memFree ptr h = .ok (freeOutOfHeap, h) := by
  simp only [memFree, get_bind, out, ↓reduceIte, pure_run]

theorem memFree_unaligned {ptr : Nat} (inside : ¬ (ptr < h.heapStart ∨ h.heapEnd ≤ ptr))
    (unaligned : u64 (ptr - h.heapStart) % memBlockSize ≠ 0) :
    memFree ptr h = .ok (freeNotBlockAligned, h) := by
  simp only [memFree, get_bind, inside, unaligned, ne_eq, not_false_eq_true, ↓reduceIte, pure_run]

/-- The checks of the tags, for an address of the heap that is aligned. -/
theorem memFree_tags (inside : h.heapStart + e * memBlockSize < h.heapEnd)
    (addressable : h.heapEnd < 2 ^ 64) :
    (h.memIndex e ≤ 0 ∧
      memFree (h.heapStart + e * memBlockSize) h = .ok (freeNotAlloced, h.touch e)) ∨
    (0 < h.memIndex e ∧ h.memIndex e ≠ h.memIndex (u64 (e + h.memIndex e - 1)) ∧
      memFree (h.heapStart + e * memBlockSize) h =
        .ok (freeNotStartOfAlloc, (h.touch e).touch (u64 (e + h.memIndex e - 1)))) ∨
    (0 < h.memIndex e ∧ h.memIndex e = h.memIndex (u64 (e + h.memIndex e - 1)) ∧
      ∀ r h', memFree (h.heapStart + e * memBlockSize) h = .ok (r, h') → r = 0) := by
  have within : ¬ (h.heapStart + e * memBlockSize < h.heapStart ∨
      h.heapEnd ≤ h.heapStart + e * memBlockSize) := by omega
  have offset : u64 ((h.heapStart + e * memBlockSize : Nat) - h.heapStart) = e * 64 := by
    simp only [memBlockSize] at *
    rw [u64_eq] <;> omega
  have aligned : e * 64 % 64 = 0 := by omega
  have entry : e * 64 / 64 = e := by omega
  unfold memFree
  simp only [get_bind, offset, within, ↓reduceIte, memBlockSize, aligned, ne_eq, not_true_eq_false,
    entry, load_bind]
  by_cases free : h.memIndex e ≤ 0
  · simp only [free, ↓reduceIte, pure_run, true_and, true_or]
  have pos : 0 < h.memIndex e := by omega
  simp only [free, ↓reduceIte, load_bind, touch_memIndex]
  by_cases same : h.memIndex e = h.memIndex (u64 (e + h.memIndex e - 1))
  · refine Or.inr (Or.inr ⟨pos, same, fun r h' ran => ?_⟩)
    simp only [← same, not_true_eq_false, ↓reduceIte] at ran
    obtain ⟨prevFree, h₁, -, ran⟩ := bind_ok ran
    obtain ⟨nextFree, h₂, -, ran⟩ := bind_ok ran
    obtain ⟨-, h₃, -, ran⟩ := bind_ok ran
    cases ran
    rfl
  · refine Or.inr (Or.inl ⟨pos, same, ?_⟩)
    simp only [same, not_false_eq_true, ↓reduceIte, pure_run]

end

/-! ## Accepting exactly the starts -/

/-- The allocated runs, the index among them. -/
def Heap.allocated (h : Heap) (live : List (Nat × Nat)) : List (Nat × Nat) :=
  (h.blockAddr 0, h.memIndexLenInBlocks) :: live

/-- `__mem_free` accepts `ptr` just if it is the start of an allocated run; else
it reports an error, changes no cell and reads only the array. -/
def Heap.FreesExactly (h : Heap) (live : List (Nat × Nat)) (ptr : Nat) : Prop :=
  ∃ r h', memFree ptr h = .ok (r, h') ∧ (r = 0 ↔ ptr ∈ (h.allocated live).map Prod.fst) ∧
    (ptr ∉ (h.allocated live).map Prod.fst →
      r < 0 ∧ (∀ i < h.nMemBlocks, h'.memIndex i = h.memIndex i) ∧ h'.reach ≤ h.nMemBlocks)

/-- `ptr` is neither the first block behind the array's, nor the last block of a
run of `n` blocks such that `n - 1` blocks on lies the end of the heap or the start of
another run of `n` blocks. -/
def Heap.TellsApart (h : Heap) (live : List (Nat × Nat)) (ptr : Nat) : Prop :=
  (ptr = h.heapStart + h.nMemBlocks * memBlockSize → h.heapEnd ≤ ptr) ∧
  ∀ a ∈ h.allocated live, 2 ≤ a.2 → ptr = a.1 + (a.2 - 1) * memBlockSize →
    a.1 + (2 * a.2 - 2) * memBlockSize < h.heapStart + h.nMemBlocks * memBlockSize ∧
      (a.1 + (2 * a.2 - 2) * memBlockSize, a.2) ∉ h.allocated live

section
variable {h : Heap} {live : List (Nat × Nat)} {cs : List Chunk}

/-- The allocated runs, as addresses and as cells. -/
theorem mem_allocated (ok : h.Ok) (tiles : Tiles h.memIndex 0 cs h.nMemBlocks)
    (runs : h.runs cs = (h.blockAddr 0, h.memIndexLenInBlocks) ::ₘ (live : Multiset (Nat × Nat)))
    {a : Nat × Nat} : a ∈ h.allocated live ↔
      ∃ p, (p, a.2) ∈ allocs 0 cs ∧ a.1 = h.heapStart + p * memBlockSize := by
  have mem : a ∈ h.allocated live ↔ a ∈ h.runs cs := by
    rw [runs]
    simp [Heap.allocated]
  rw [mem]
  simp only [Geometry.runs, Multiset.mem_map, Multiset.mem_coe, Prod.exists]
  constructor
  · rintro ⟨p, n, hp, rfl⟩
    have := tiles.alloc_bounds hp
    exact ⟨p, hp, ok.blockAddr_eq (by omega)⟩
  · rintro ⟨p, hp, addr⟩
    have := tiles.alloc_bounds hp
    refine ⟨p, a.2, hp, ?_⟩
    rw [ok.blockAddr_eq (by omega), ← addr]

theorem start_allocated (ok : h.Ok) (tiles : Tiles h.memIndex 0 cs h.nMemBlocks)
    (runs : h.runs cs = (h.blockAddr 0, h.memIndexLenInBlocks) ::ₘ (live : Multiset (Nat × Nat)))
    {e : Nat} : h.heapStart + e * memBlockSize ∈ (h.allocated live).map Prod.fst ↔
      ∃ n, (e, n) ∈ allocs 0 cs := by
  rw [List.mem_map]
  constructor
  · rintro ⟨a, ha, addr⟩
    obtain ⟨p, hp, at_p⟩ := (mem_allocated ok tiles runs).mp ha
    obtain rfl : p = e := by
      simp only [memBlockSize] at *
      omega
    exact ⟨a.2, hp⟩
  · rintro ⟨n, hn⟩
    exact ⟨(h.heapStart + e * memBlockSize, n), (mem_allocated ok tiles runs).mpr ⟨e, hn, rfl⟩, rfl⟩

/-- `TellsApart` of the address of a block, in terms of cells. -/
theorem tellsApart_iff (ok : h.Ok) (tiles : Tiles h.memIndex 0 cs h.nMemBlocks)
    (runs : h.runs cs = (h.blockAddr 0, h.memIndexLenInBlocks) ::ₘ (live : Multiset (Nat × Nat)))
    {e : Nat} (inside : h.heapStart + e * memBlockSize < h.heapEnd) :
    h.TellsApart live (h.heapStart + e * memBlockSize) ↔ e ≠ h.nMemBlocks ∧
      ∀ p n, (p, n) ∈ allocs 0 cs → 2 ≤ n → e = p + n - 1 →
        e + n - 1 < h.nMemBlocks ∧ (e + n - 1, n) ∉ allocs 0 cs := by
  have mem := @mem_allocated h live cs ok tiles runs
  constructor
  · rintro ⟨tail, apart⟩
    refine ⟨?_, fun p n hp two last => ?_⟩
    · rintro rfl
      have := tail rfl
      omega
    · have ⟨short, out⟩ := apart (h.heapStart + p * memBlockSize, n) (mem.mpr ⟨p, hp, rfl⟩) two (by
        simp only [memBlockSize]
        omega)
      simp only [memBlockSize] at short
      refine ⟨by omega, fun another => out (mem.mpr ⟨_, another, ?_⟩)⟩
      simp only [memBlockSize]
      omega
  · rintro ⟨tail, apart⟩
    refine ⟨fun same => ?_, fun a ha two last => ?_⟩
    · refine absurd ?_ tail
      simp only [memBlockSize] at same
      omega
    · obtain ⟨p, hp, at_p⟩ := mem.mp ha
      simp only [memBlockSize] at *
      obtain ⟨short, out⟩ := apart p a.2 hp two (by omega)
      refine ⟨by omega, fun another => out ?_⟩
      obtain ⟨q, hq, at_q⟩ := mem.mp another
      simp only at at_q hq
      have : q = e + a.2 - 1 := by omega
      rwa [← this]

/-- An address that is no start is refused when the tags differ or there is none. -/
theorem freesExactly_refused {ptr : Nat} {r : Int} {h' : Heap}
    (out : ptr ∉ (h.allocated live).map Prod.fst) (eq : memFree ptr h = .ok (r, h')) (neg : r < 0)
    (same : h'.memIndex = h.memIndex) :
    h.FreesExactly live ptr ↔ h'.reach ≤ h.nMemBlocks := by
  constructor
  · rintro ⟨r', h₁, eq', -, refused⟩
    rw [eq] at eq'
    cases eq'
    exact (refused out).2.2
  · intro reach
    refine ⟨r, h', eq, ?_, fun _ => ⟨neg, fun i _ => by rw [same], reach⟩⟩
    exact ⟨fun zero => by omega, fun start => absurd start out⟩

/-- An address that is no start must not pass the checks. -/
theorem not_freesExactly {ptr : Nat} (out : ptr ∉ (h.allocated live).map Prod.fst)
    (accepts : ∀ r h', memFree ptr h = .ok (r, h') → r = 0) : ¬ h.FreesExactly live ptr := by
  rintro ⟨r, h', eq, -, refused⟩
  have := accepts r h' eq
  have := (refused out).1
  omega

/-- The blocks of the heap for which the checks are exact. -/
theorem freesExactly_block (ok : h.Ok) (tiles : Tiles h.memIndex 0 cs h.nMemBlocks)
    (coalesced : Coalesced cs)
    (runs : h.runs cs = (h.blockAddr 0, h.memIndexLenInBlocks) ::ₘ (live : Multiset (Nat × Nat)))
    (reach : h.reach ≤ h.nMemBlocks) {e : Nat} (le : e ≤ h.nMemBlocks)
    (inside : h.heapStart + e * memBlockSize < h.heapEnd) :
    h.FreesExactly live (h.heapStart + e * memBlockSize) ↔ e ≠ h.nMemBlocks ∧
      ∀ p n, (p, n) ∈ allocs 0 cs → 2 ≤ n → e = p + n - 1 →
        e + n - 1 < h.nMemBlocks ∧ (e + n - 1, n) ∉ allocs 0 cs := by
  have start := start_allocated ok tiles runs (e := e)
  have bound := ok.bound
  have foot : ∀ n : Nat, n ≤ h.nMemBlocks → 0 < n → u64 (e + (n : Int) - 1) = e + n - 1 := by
    intro n hn pos
    rw [u64_eq] <;> omega
  rcases memFree_tags inside ok.addressable with
    ⟨free, eq⟩ | ⟨pos, differ, eq⟩ | ⟨pos, same, accepts⟩
  · have out : h.heapStart + e * memBlockSize ∉ (h.allocated live).map Prod.fst := by
      rw [start]
      rintro ⟨n, hn⟩
      have := tiles.alloc_bounds hn
      have := (Tiles.alloc_tags tiles hn).1
      omega
    rw [freesExactly_refused out eq (by decide) rfl, touch_reach]
    constructor
    · refine fun _ => ⟨by omega, fun p n hp _ last => ?_⟩
      have := tiles.alloc_bounds hp
      have := (Tiles.alloc_tags tiles hp).2
      rw [← last] at this
      omega
    · rintro ⟨ne, -⟩
      omega
  · have out : h.heapStart + e * memBlockSize ∉ (h.allocated live).map Prod.fst := by
      rw [start]
      rintro ⟨n, hn⟩
      have bounds := tiles.alloc_bounds hn
      have tags := Tiles.alloc_tags tiles hn
      rw [tags.1, foot n (by omega) bounds.2.1] at differ
      exact differ tags.2.symm
    rw [freesExactly_refused out eq (by decide) rfl, touch_reach, touch_reach]
    by_cases tail : e = h.nMemBlocks
    · refine ⟨fun h => by omega, fun h => absurd tail h.1⟩
    obtain ⟨p, n, hp, cell, edge⟩ := Tiles.positive_cell tiles (by omega) pos
    have bounds := tiles.alloc_bounds hp
    have last : e = p + n - 1 := edge.resolve_left fun first => out (start.mpr ⟨n, first ▸ hp⟩)
    rw [cell, foot n (by omega) bounds.2.1] at differ ⊢
    constructor
    · refine fun h => ⟨tail, fun q k hq two last' => ?_⟩
      obtain ⟨rfl, rfl⟩ := Tiles.alloc_unique tiles hp hq (j := e) (by omega) (by omega)
      refine ⟨by omega, fun another => ?_⟩
      have := (Tiles.alloc_tags tiles another).1
      omega
    · rintro ⟨-, apart⟩
      have two : 2 ≤ n := by
        by_contra one
        have : e = p := by omega
        exact out (start.mpr ⟨n, this ▸ hp⟩)
      have := (apart p n hp two last).1
      omega
  · by_cases tail : e = h.nMemBlocks
    · have out : h.heapStart + e * memBlockSize ∉ (h.allocated live).map Prod.fst := by
        rw [start]
        rintro ⟨n, hn⟩
        have := tiles.alloc_bounds hn
        omega
      exact ⟨fun exact_ => absurd exact_ (not_freesExactly out accepts), fun h => absurd tail h.1⟩
    obtain ⟨p, n, hp, cell, edge⟩ := Tiles.positive_cell tiles (by omega) pos
    have bounds := tiles.alloc_bounds hp
    by_cases first : e = p
    · subst first
      refine ⟨fun _ => ⟨tail, fun q k hq two last => ?_⟩, fun _ => ?_⟩
      · obtain ⟨rfl, rfl⟩ := Tiles.alloc_unique tiles hp hq (j := e) (by omega) (by omega)
        omega
      · obtain ⟨pre, post, rfl, at_e⟩ := mem_allocs.mp hp
        obtain ⟨h', -, eq, -⟩ := memFree_merges ok tiles coalesced
        rw [Nat.zero_add] at at_e
        rw [ok.blockAddr_eq (by omega), ← at_e] at eq
        have is_start := start.mpr ⟨n, hp⟩
        exact ⟨0, h', eq, ⟨fun _ => is_start, fun _ => rfl⟩, fun out => absurd is_start out⟩
    · have last := edge.resolve_left first
      have notStart : ∀ k, (e, k) ∉ allocs 0 cs := by
        intro k hk
        have := (tiles.alloc_bounds hk).2.1
        exact first (Tiles.alloc_unique tiles hk hp (j := e) (by omega) (by omega)).1
      have out : h.heapStart + e * memBlockSize ∉ (h.allocated live).map Prod.fst := by
        rw [start]
        rintro ⟨k, hk⟩
        exact notStart k hk
      refine ⟨fun exact_ => absurd exact_ (not_freesExactly out accepts), fun ⟨_, apart⟩ => ?_⟩
      obtain ⟨short, none⟩ := apart p n hp (by omega) last
      rw [cell, foot n (by omega) bounds.2.1] at same
      obtain ⟨q, k, hq, cell', edge'⟩ := Tiles.positive_cell tiles short (by omega)
      obtain rfl : k = n := by omega
      rcases edge' with at_q | at_q
      · exact absurd (at_q ▸ hq) none
      · have : q = e := by omega
        exact absurd (this ▸ hq) (notStart k)

end

section
variable {h₀ h : Heap} {live : List (Nat × Nat)}

/-- The checks at the address of a block. -/
theorem HeapRun.freesExactly_block (fresh : h₀.Fresh) (run : HeapRun h₀ h live) {e : Nat}
    (inside : h.heapStart + e * memBlockSize < h.heapEnd) :
    h.FreesExactly live (h.heapStart + e * memBlockSize) ↔
      h.TellsApart live (h.heapStart + e * memBlockSize) := by
  obtain ⟨⟨ok, cs, tiles, coalesced, runs⟩, reach, -, -⟩ := run.holds fresh
  have le : e ≤ h.nMemBlocks := by
    have := ok.blocks
    simp only [memBlockSize] at *
    omega
  rw [RiscvKernel.freesExactly_block ok tiles coalesced runs reach le inside,
    tellsApart_iff ok tiles runs inside]

/-- An address that is no block of the heap is refused. -/
theorem HeapRun.freesExactly_elsewhere (fresh : h₀.Fresh) (run : HeapRun h₀ h live) {ptr : Nat}
    {r : Int} (elsewhere : ∀ e ≤ h.nMemBlocks, ptr = h.heapStart + e * memBlockSize →
      h.heapEnd ≤ ptr) (refused : memFree ptr h = .ok (r, h)) (neg : r < 0) :
    h.FreesExactly live ptr ↔ h.TellsApart live ptr := by
  obtain ⟨⟨ok, cs, tiles, coalesced, runs⟩, reach, -, -⟩ := run.holds fresh
  have ordered := ok.ordered
  have blocks := ok.blocks
  have inside : ∀ p n, (p, n) ∈ allocs 0 cs → ∀ e < p + n,
      ptr ≠ h.heapStart + e * memBlockSize := by
    intro p n hp e he at_e
    have := tiles.alloc_bounds hp
    have := elsewhere e (by omega) at_e
    simp only [memBlockSize] at *
    omega
  have out : ptr ∉ (h.allocated live).map Prod.fst := by
    intro mem
    obtain ⟨a, ha, rfl⟩ := List.mem_map.mp mem
    obtain ⟨p, hp, at_p⟩ := (mem_allocated ok tiles runs).mp ha
    have := tiles.alloc_bounds hp
    exact inside p a.2 hp p (by omega) at_p
  refine iff_of_true ((freesExactly_refused out refused neg rfl).mpr reach)
    ⟨elsewhere _ le_rfl, fun a ha two last => ?_⟩
  obtain ⟨p, hp, at_p⟩ := (mem_allocated ok tiles runs).mp ha
  refine absurd ?_ (inside p a.2 hp (p + a.2 - 1) (by omega))
  simp only [memBlockSize] at *
  omega

end

/-- **When the checks of `__mem_free` are exact.** -/
theorem memFree_exact_iff {h₀ h : Heap} {live : List (Nat × Nat)} (fresh : h₀.Fresh)
    (run : HeapRun h₀ h live) (ptr : Nat) : h.FreesExactly live ptr ↔ h.TellsApart live ptr := by
  have addressable := (run.holds fresh).1.ok.addressable
  by_cases out : ptr < h.heapStart ∨ h.heapEnd ≤ ptr
  · refine run.freesExactly_elsewhere fresh (fun e _ at_e => ?_) (memFree_outside out) (by decide)
    simp only [memBlockSize] at *
    omega
  have offset : u64 ((ptr : Int) - h.heapStart) = ptr - h.heapStart := by rw [u64_eq] <;> omega
  by_cases aligned : u64 ((ptr : Int) - h.heapStart) % memBlockSize = 0
  case neg =>
    refine run.freesExactly_elsewhere fresh (fun e _ at_e => ?_) (memFree_unaligned out aligned)
      (by decide)
    simp only [memBlockSize] at *
    omega
  obtain ⟨e, rfl⟩ : ∃ e, ptr = h.heapStart + e * memBlockSize := by
    refine ⟨(ptr - h.heapStart) / memBlockSize, ?_⟩
    simp only [memBlockSize] at *
    omega
  exact run.freesExactly_block fresh (by omega)

theorem memFree_exact_iff_small : smallAlloc.FreesExactly [(4160, 2)] 4224 := by
  refine (memFree_exact_iff smallHeap_fresh smallAlloc_run 4224).mpr
    ⟨fun same => absurd same (by decide), fun a ha _ last => ?_⟩
  rcases List.mem_pair.mp ha with rfl | rfl
  · exact absurd last (by decide)
  · decide

/-- A heap of five blocks, before `__mem_init`. -/
def pairHeap : Heap := { smallHeap with heapEnd := 4416 }

abbrev pairInit : Heap := heapAfter (memInit pairHeap) pairHeap
abbrev pairOne : Heap := heapAfter (memAlloc 2 pairInit) pairInit

theorem pairHeap_fresh : pairHeap.Fresh := by
  constructor <;> decide

theorem pairOne_tiles : Tiles pairOne.memIndex 0 [⟨1, true⟩, ⟨2, true⟩, ⟨2, false⟩]
    pairOne.nMemBlocks := by
  refine ⟨?_, ?_, ?_, rfl⟩
  all_goals
    exact ⟨by decide, by decide, by decide, fun j h h' => by
      dsimp only at h h'
      omega⟩

theorem pairOne_run : HeapRun pairHeap pairOne [(4160, 2)] := by
  have room : pairInit.HasRoom 2 := by
    refine ⟨[⟨1, true⟩, ⟨4, false⟩], ⟨?_, ?_, rfl⟩, ⟨4, false⟩, by simp, rfl, by decide⟩
    · exact ⟨by decide, by decide, by decide, fun j h h' => by
        dsimp only at h h'
        omega⟩
    · refine ⟨by decide, by decide, by decide, fun j h h' => ?_⟩
      have : j = 2 ∨ j = 3 := by
        dsimp only at h h'
        omega
      rcases this with rfl | rfl <;> decide
  exact .alloc (.init rfl) (by decide) room rfl

/-- Two runs of two blocks side by side: the last block of the first is accepted. -/
theorem memFree_accepts_last_block :
    pairHeap.Fresh ∧ ∃ h, HeapRun pairHeap h [(4288, 2), (4160, 2)] ∧
      h.heapStart = 4096 ∧ ¬ h.FreesExactly [(4288, 2), (4160, 2)] 4224 := by
  obtain ⟨h, eq, carve⟩ := @memAlloc_first _ [⟨1, true⟩, ⟨2, true⟩] [] 2 2
    (pairOne_run.holds pairHeap_fresh).1.ok pairOne_tiles (by decide) le_rfl
    (by decide)
  have run : HeapRun pairHeap h [(4288, 2), (4160, 2)] :=
    pairOne_run.alloc (by decide) ⟨_, pairOne_tiles, ⟨2, false⟩, by simp, rfl, le_rfl⟩ eq
  have geometry : h.toGeometry = pairOne.toGeometry := carve.within.geometry
  have start : h.heapStart = 4096 := congrArg Geometry.heapStart geometry
  have stop : h.heapEnd = 4416 := congrArg Geometry.heapEnd geometry
  have block := run.freesExactly_block pairHeap_fresh (e := 2) (by
    rw [start, stop]
    decide)
  rw [start] at block
  refine ⟨pairHeap_fresh, h, run, start, fun exact_ => ?_⟩
  have := ((block.mp exact_).2 (4160, 2) (by simp [Heap.allocated]) le_rfl rfl).2
  exact this (List.mem_cons_of_mem _ List.mem_cons_self)

end RiscvKernel
