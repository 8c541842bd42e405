import RiscvKernel.HeapRuns

/-!
# The end of the search

When no free run is long enough, the loop of `__mem_alloc` reads the cell behind
the array (`memAlloc_none`), and what it does there depends on what lies there.

* `exhaustion_reported_iff`: exhaustion is reported, whatever lies behind the
  array, just when there is room;
* `userMemAlloc_safe_iff`: when `mem_alloc` keeps the heap well formed, for every
  number of bytes.
-/

namespace RiscvKernel
open Tiling

/-! ## The cell behind the array -/

/-- The last look of the search, at the cell `n`: after a used run it is taken
for a run, and after a free one only checked. -/
def searchEnd (nb : Nat) (next : Nat → IndexM Nat) (n : Nat) : IndexM Nat := fun h =>
  if 0 < h.memIndex (n - 1) then memAllocVisit nb next n h
  else (checkTag n >>= fun _ => next n) h

/-- No free run has `nb` blocks: every round passes a run, up to the last one. -/
theorem memAllocLoop_none {nb : Nat} : ∀ (fuel i : Nat) (h : Heap) (c : Chunk) (cs : List Chunk),
    Tiles h.memIndex i (c :: cs) h.nMemBlocks → h.nMemBlocks < 2 ^ 31 →
    (∀ x ∈ c :: cs, x.used = false → x.size < nb) → (c :: cs).length < fuel →
    ∃ h' fuel', memAllocLoop nb fuel i h =
        searchEnd nb (memAllocLoop nb (fuel' + 1)) h.nMemBlocks h' ∧
      h'.toGeometry = h.toGeometry ∧ h'.memIndex = h.memIndex := by
  intro fuel
  induction fuel with
  | zero => intro i h c cs _ _ _ hf; omega
  | succ fuel ih =>
    intro i h c cs tiles bound short hf
    -- from the second half of the round on
    have visit : ∀ (i : Nat) (h : Heap) (d : Chunk) (ds : List Chunk),
        Tiles h.memIndex i (d :: ds) h.nMemBlocks → h.nMemBlocks < 2 ^ 31 →
        (∀ x ∈ d :: ds, x.used = false → x.size < nb) →
        (if d.used then d :: ds else ds).length < fuel →
        ∃ h' fuel', memAllocVisit nb (memAllocLoop nb fuel) i h =
            searchEnd nb (memAllocLoop nb (fuel' + 1)) h.nMemBlocks h' ∧
          h'.toGeometry = h.toGeometry ∧ h'.memIndex = h.memIndex := by
      intro i h d ds tiles bound short hf
      cases hu : d.used with
      | true =>
        rw [hu, if_pos rfl] at hf
        rw [memAllocVisit_used nb _ (tiles.1.head_pos.mpr hu)]
        exact ih i _ d ds tiles bound short hf
      | false =>
        rw [hu] at hf
        have head : h.memIndex i = -d.size := by
          rw [tiles.1.head, Chunk.tag, hu]
          rfl
        have le := tiles.2.le
        rw [memAllocVisit_short _ head tiles.1.pos (short d List.mem_cons_self hu) (by omega)]
        cases ds with
        | nil =>
          obtain ⟨fuel', rfl⟩ : ∃ f, fuel = f + 1 := ⟨fuel - 1, by simp at hf; omega⟩
          have close : i + d.size = h.nMemBlocks := tiles.2
          have last : ¬ 0 < h.memIndex (h.nMemBlocks - 1) := by
            rw [← close, tiles.1.foot, Chunk.tag, hu]
            simp
          refine ⟨h.touch i, fuel', ?_, rfl, rfl⟩
          rw [close]
          exact (if_neg last).symm
        | cons e es =>
          have nonzero : (h.touch i).memIndex (i + d.size) ≠ 0 := by
            have pos := tiles.2.1.pos
            have tag := tiles.2.1.head
            unfold Chunk.tag at tag
            rw [touch_memIndex, tag]
            split <;> omega
          rw [bind_run (checkTag_run nonzero)]
          exact ih _ _ e es tiles.2 bound (fun x hx => short x (List.mem_cons_of_mem _ hx)) hf
    have pos := tiles.1.pos
    have le := tiles.2.le
    have start : ¬ h.nMemBlocks ≤ i := by omega
    simp only [memAllocLoop, get_bind, start, ↓reduceIte, load_bind]
    simp only [List.length_cons] at hf
    cases hu : c.used with
    | false =>
      have head : ¬ 0 < h.memIndex i := by simp [tiles.1.head_pos, hu]
      simp only [head, ↓reduceIte]
      exact visit i (h.touch i) c cs tiles bound short (by
        rw [hu]
        exact Nat.lt_of_succ_lt_succ hf)
    | true =>
      have head : 0 < h.memIndex i := tiles.1.head_pos.mpr hu
      have step : u64 (i + h.memIndex i) = i + c.size := by
        rw [tiles.1.head, Chunk.tag, hu, u64_eq] <;> simp <;> omega
      simp only [head, ↓reduceIte, step]
      cases cs with
      | nil =>
        obtain ⟨fuel', rfl⟩ : ∃ f, fuel = f + 1 := ⟨fuel - 1, by simp at hf; omega⟩
        have close : i + c.size = h.nMemBlocks := tiles.2
        have last : 0 < h.memIndex (h.nMemBlocks - 1) := by
          rw [← close, tiles.1.foot, Chunk.tag, hu]
          simpa using pos
        refine ⟨h.touch i, fuel', ?_, rfl, rfl⟩
        rw [close]
        exact (if_pos last).symm
      | cons d ds =>
        exact visit (i + c.size) (h.touch i) d ds tiles.2 bound
          (fun x hx => short x (List.mem_cons_of_mem _ hx)) (by
            simp only [List.length_cons] at hf
            split
            · simpa using hf
            · omega)

theorem checkTag_zero {α : Type} {h : Heap} {i : Nat} (zero : h.memIndex i = 0)
    (f : Unit → IndexM α) :
    (checkTag i >>= f) h = .error (.panic "Memory index corrupted!\n") := by
  have run : checkTag i h = .error (.panic "Memory index corrupted!\n") := by
    simp only [checkTag, load_bind, zero, ↓reduceIte]
    rfl
  show (checkTag i h >>= fun p => f p.1 p.2) = _
  rw [run]
  rfl

/-- The loop stops at or behind the end of the array. -/
theorem memAllocLoop_done {nb fuel i : Nat} {h : Heap} (le : h.nMemBlocks ≤ i) :
    memAllocLoop nb (fuel + 1) i h = .ok (0, h) := by
  simp only [memAllocLoop, get_bind, le, ↓reduceIte, pure_run]

section
variable {h : Heap} {live : Multiset (Nat × Nat)} {nb : Nat}

theorem memAlloc_none (inv : h.Holds live) (full : ¬ h.HasRoom nb) :
    ∃ h' fuel, memAlloc nb h = searchEnd nb (memAllocLoop nb (fuel + 1)) h.nMemBlocks h' ∧
      h'.toGeometry = h.toGeometry ∧ h'.memIndex = h.memIndex := by
  obtain ⟨ok, cs, tiles, -, -⟩ := inv
  have two := ok.two
  have len := tiles.length_le
  cases cs with
  | nil =>
    have : 0 = h.nMemBlocks := tiles
    omega
  | cons c cs =>
    refine memAllocLoop_none _ 0 h c cs tiles ok.bound (fun x hx free => ?_) (by omega)
    by_contra fits
    exact full ⟨c :: cs, tiles, x, hx, free, by omega⟩

/-- A zero behind the array stops the kernel. -/
theorem memAlloc_panics (inv : h.Holds live) (full : ¬ h.HasRoom nb)
    (zero : h.memIndex h.nMemBlocks = 0) :
    memAlloc nb h = .error (.panic "Memory index corrupted!\n") := by
  obtain ⟨h', fuel, eq, -, same⟩ := memAlloc_none inv full
  have zero' : h'.memIndex h.nMemBlocks = 0 := by rw [same, zero]
  rw [eq]
  unfold searchEnd
  split
  · simp only [memAllocVisit, get_bind, load_bind, zero', lt_self_iff_false, false_and, ↓reduceIte]
    exact checkTag_zero (h := h'.touch h.nMemBlocks) zero' _
  · exact checkTag_zero zero' _

end

/-! ## Reporting exhaustion -/

/-- The heap with `behind` behind the array. -/
def Heap.withBehind (h : Heap) (behind : Nat → Int) : Heap :=
  { h with memIndex := fun i => if i < h.nMemBlocks then h.memIndex i else behind i }

/-- Whatever lies behind the array, `__mem_alloc` returns and reads only the
array; it returns the first free run that is long enough, or 0 with the array as it was. -/
def Heap.Reports (h : Heap) (nb : Nat) : Prop :=
  ∀ behind, ∃ p h', memAlloc nb (h.withBehind behind) = .ok (p, h') ∧
    h'.reach ≤ h.nMemBlocks ∧
    (∀ pre k post, Tiles h.memIndex 0 (pre ++ ⟨k, false⟩ :: post) h.nMemBlocks → nb ≤ k →
      (∀ c ∈ pre, c.used = false → c.size < nb) → p = h.blockAddr (total pre)) ∧
    (¬ h.HasRoom nb → p = 0 ∧ ∀ i < h.nMemBlocks, h'.memIndex i = h.memIndex i)

section
variable {h : Heap} {live : Multiset (Nat × Nat)} {nb : Nat}

theorem withBehind_tiles {behind : Nat → Int} {cs : List Chunk} :
    Tiles (h.withBehind behind).memIndex 0 cs h.nMemBlocks ↔
      Tiles h.memIndex 0 cs h.nMemBlocks :=
  ⟨fun t => t.congr fun _ _ hj => (if_pos hj).symm, fun t => t.congr fun _ _ hj => if_pos hj⟩

theorem withBehind_hasRoom {behind : Nat → Int} :
    (h.withBehind behind).HasRoom nb ↔ h.HasRoom nb :=
  exists_congr fun _ => and_congr_left' withBehind_tiles

end

/-- **Exhaustion is reported when there is none.** -/
theorem exhaustion_reported_iff {h₀ h : Heap} {live : List (Nat × Nat)} (fresh : h₀.Fresh)
    (run : HeapRun h₀ h live) {nb : Nat} (pos : 0 < nb) : h.Reports nb ↔ h.HasRoom nb := by
  obtain ⟨inv, reach, -, -⟩ := run.holds fresh
  have behind_inv : ∀ behind, (h.withBehind behind).Holds live :=
    fun behind => inv.congr rfl fun i hi => if_pos hi
  constructor
  · intro reports
    by_contra full
    obtain ⟨p, h', eq, -⟩ := reports fun _ => 0
    have panics := memAlloc_panics (behind_inv fun _ => 0) (withBehind_hasRoom.not.mpr full)
      (if_neg (lt_irrefl _))
    rw [panics] at eq
    cases eq
  · intro room behind
    have inv' := behind_inv behind
    obtain ⟨p, h', eq, within, -⟩ := memAlloc_spec inv' pos (withBehind_hasRoom.mpr room)
    refine ⟨p, h', eq, ?_, fun pre k post tiles le short => ?_, fun full => absurd room full⟩
    · have le : h'.reach ≤ max h.reach h.nMemBlocks := within.reach
      omega
    · obtain ⟨h₁, eq', -⟩ := memAlloc_first inv'.ok (withBehind_tiles.mpr tiles) pos le short
      rw [eq'] at eq
      cases eq
      rfl

theorem exhaustion_reported_iff_small : smallInit.HasRoom 2 ∧ smallInit.Reports 2 :=
  ⟨smallInit_room, (exhaustion_reported_iff smallHeap_fresh (.init rfl) (by decide)).mpr
    smallInit_room⟩

/-- Four blocks are asked for and three are free. -/
theorem exhaustion_not_reported :
    smallHeap.Fresh ∧ HeapRun smallHeap smallInit [] ∧ ¬ smallInit.Reports 4 := by
  refine ⟨smallHeap_fresh, .init rfl, fun reports => ?_⟩
  obtain ⟨p, h', eq, -⟩ := reports fun _ => 0
  have panics : memAlloc 4 (smallInit.withBehind fun _ => 0) =
      .error (.panic "Memory index corrupted!\n") := rfl
  rw [panics] at eq
  cases eq

/-! ## Any number of bytes -/

/-- The rounding of `mem_alloc` in `syscall_c.c`. -/
def userBlocks (nbytes : Nat) : Nat := u64 (nbytes + memBlockSize - 1) / memBlockSize

/-- `mem_alloc` of `syscall_c.c`, with what the system call does. -/
def userMemAlloc (nbytes : Nat) : IndexM Nat := memAlloc (userBlocks nbytes)

/-- `mem_alloc` returns 0, or a fresh run of `nbytes` bytes or more, and the
index is well formed with the earlier allocations as they were. -/
def Heap.AllocSafe (h : Heap) (live : List (Nat × Nat)) (nbytes : Nat) : Prop :=
  ∃ p h', userMemAlloc nbytes h = .ok (p, h') ∧
    (p = 0 ∧ h'.Holds live ∨
      ∃ n, nbytes ≤ n * memBlockSize ∧ h'.Holds ((p, n) :: live : List (Nat × Nat)))

/-- What lies behind the array lets the search for `nb` blocks end: it is not 0
and, after a used run, no tag of a free run that is long enough. -/
def Heap.EndsQuietly (h : Heap) (nb : Nat) : Prop :=
  h.memIndex h.nMemBlocks ≠ 0 ∧
    (0 < h.memIndex (h.nMemBlocks - 1) → h.memIndex h.nMemBlocks < 0 →
      u64 (toI32 (-h.memIndex h.nMemBlocks)) < nb ∧
        h.memIndex (u64 (h.nMemBlocks + toI32 (-h.memIndex h.nMemBlocks))) ≠ 0)

theorem userBlocks_lt (nbytes : Nat) : userBlocks nbytes < 2 ^ 58 := by
  have := u64_lt (nbytes + memBlockSize - 1)
  simp only [userBlocks, memBlockSize] at *
  omega

/-- The blocks hold the bytes, unless the rounding wraps around. -/
theorem userBlocks_enough {nbytes : Nat} (word : nbytes < 2 ^ 64) (pos : 0 < userBlocks nbytes) :
    nbytes ≤ userBlocks nbytes * memBlockSize := by
  simp only [userBlocks, memBlockSize, u64] at *
  omega

section
variable {h : Heap} {live : Multiset (Nat × Nat)} {nb : Nat}

/-- A run behind the array is no allocation. -/
theorem Heap.Holds.not_behind {p n : Nat} (inv : h.Holds ((p, n) ::ₘ live))
    (behind : p = h.blockAddr h.nMemBlocks) : False := by
  have bounds := inv.bounds (Multiset.mem_cons_self _ _)
  have addr := inv.ok.blockAddr_eq (Nat.le_refl h.nMemBlocks)
  simp only [memBlockSize] at *
  omega

theorem splitRun_returns (h : Heap) (i : Nat) (count : Int) (nb : Nat) :
    ∃ h', splitRun i count nb h = .ok ((), h') ∧ h'.toGeometry = h.toGeometry ∧
      h'.memIndex i = toI32 nb :=
  ⟨_, rfl, rfl, by simp⟩

theorem takeRun_returns (h : Heap) (i nb : Nat) :
    ∃ h', takeRun i nb h = .ok ((), h') ∧ h'.toGeometry = h.toGeometry :=
  ⟨_, rfl, rfl⟩

/-- A negative word behind the array is taken for a free run, or passed. -/
theorem memAllocVisit_behind (next : Nat → IndexM Nat) {i : Nat} (neg : h.memIndex i < 0) :
    if nb ≤ u64 (toI32 (-h.memIndex i)) then
      ∃ h', memAllocVisit nb next i h = .ok (h.blockAddr i, h') ∧
        h'.toGeometry = h.toGeometry
    else memAllocVisit nb next i h =
      (checkTag (u64 (i + toI32 (-h.memIndex i))) >>= fun _ =>
        next (u64 (i + toI32 (-h.memIndex i)))) (h.touch i) := by
  simp only [memAllocVisit, get_bind, load_bind, neg, true_and, ↓reduceIte]
  split
  · next le =>
    by_cases lt : nb < u64 (toI32 (-h.memIndex i))
    · obtain ⟨h', eq, geometry, -⟩ := splitRun_returns (h.touch i) i (toI32 (-h.memIndex i)) nb
      exact ⟨h', by simp only [lt, ↓reduceIte, bind_run eq, pure_run], geometry⟩
    · have fits : u64 (toI32 (-h.memIndex i)) = nb := by omega
      obtain ⟨h', eq, geometry⟩ := takeRun_returns (h.touch i) i nb
      refine ⟨h', ?_, geometry⟩
      simp only [fits, lt_irrefl, ↓reduceIte, bind_run eq, pure_run]
  · next lt =>
    have notLt : ¬ nb < u64 (toI32 (-h.memIndex i)) := by omega
    have notEq : ¬ u64 (toI32 (-h.memIndex i)) = nb := by omega
    simp only [notLt, notEq, ↓reduceIte]

/-- The check of a tag and the round after it, at the end of the array or behind. -/
theorem checkTag_last {fuel i : Nat} (behind : h.nMemBlocks ≤ i) (nonzero : h.memIndex i ≠ 0) :
    (checkTag i >>= fun _ => memAllocLoop nb (fuel + 1) i) h = .ok (0, h.touch i) := by
  rw [bind_run (checkTag_run nonzero)]
  exact memAllocLoop_done behind

/-- How a search for `nb` blocks ends when there are none. -/
theorem memAlloc_ends (inv : h.Holds live) (full : ¬ h.HasRoom nb) (bound : nb < 2 ^ 58) :
    h.EndsQuietly nb ∧ (∃ h', memAlloc nb h = .ok (0, h') ∧ h'.toGeometry = h.toGeometry ∧
        h'.memIndex = h.memIndex) ∨
      ¬ h.EndsQuietly nb ∧ (memAlloc nb h = .error (.panic "Memory index corrupted!\n") ∨
        ∃ h', memAlloc nb h = .ok (h.blockAddr h.nMemBlocks, h') ∧
          h'.toGeometry = h.toGeometry) := by
  by_cases zero : h.memIndex h.nMemBlocks = 0
  · exact Or.inr ⟨fun quiet => quiet.1 zero, Or.inl (memAlloc_panics inv full zero)⟩
  obtain ⟨h₁, fuel, eq, geometry, same⟩ := memAlloc_none inv full
  have blocks : h₁.nMemBlocks = h.nMemBlocks := congrArg Geometry.nMemBlocks geometry
  have nonzero : h₁.memIndex h.nMemBlocks ≠ 0 := by rwa [same]
  have done : ∀ i, h.nMemBlocks ≤ i → h.memIndex i ≠ 0 → ∀ h₂ : Heap,
      h₂.toGeometry = h.toGeometry → h₂.memIndex = h.memIndex →
      ∃ h', (checkTag i >>= fun _ => memAllocLoop nb (fuel + 1) i) h₂ = .ok (0, h') ∧
        h'.toGeometry = h.toGeometry ∧ h'.memIndex = h.memIndex := by
    intro i hi tag h₂ geometry₂ same₂
    have blocks₂ : h₂.nMemBlocks = h.nMemBlocks := congrArg Geometry.nMemBlocks geometry₂
    exact ⟨_, checkTag_last (by rwa [blocks₂]) (by rwa [same₂]), geometry₂, same₂⟩
  rw [eq]
  unfold searchEnd
  rw [same]
  by_cases lastUsed : 0 < h.memIndex (h.nMemBlocks - 1)
  case neg =>
    rw [if_neg lastUsed]
    exact Or.inl ⟨⟨zero, fun used => absurd used lastUsed⟩, done _ le_rfl zero h₁ geometry same⟩
  rw [if_pos lastUsed]
  by_cases neg : h.memIndex h.nMemBlocks < 0
  case neg =>
    have pos : 0 < h₁.memIndex h.nMemBlocks := by
      rw [same]
      omega
    refine Or.inl ⟨⟨zero, fun _ free => absurd free neg⟩,
      (h₁.touch h.nMemBlocks).touch h.nMemBlocks, ?_, geometry, same⟩
    rw [memAllocVisit_used nb _ pos]
    exact memAllocLoop_done blocks.le
  have visit := @memAllocVisit_behind h₁ nb (memAllocLoop nb (fuel + 1))
    (i := h.nMemBlocks) (by rwa [same])
  rw [same] at visit
  split at visit
  · next le =>
    obtain ⟨h', run, geometry'⟩ := visit
    refine Or.inr ⟨fun quiet => ?_, Or.inr ⟨h', ?_, geometry'.trans geometry⟩⟩
    · have := (quiet.2 lastUsed neg).1
      omega
    · rw [run, geometry]
  · next lt =>
    rw [visit]
    have range := toI32_range (-h.memIndex h.nMemBlocks)
    have count : 0 ≤ toI32 (-h.memIndex h.nMemBlocks) := by
      by_contra below
      rw [u64] at lt
      omega
    have blocks31 := inv.ok.bound
    have here : h.nMemBlocks ≤ u64 (h.nMemBlocks + toI32 (-h.memIndex h.nMemBlocks)) := by
      rw [u64_eq] <;> omega
    by_cases tag : h.memIndex (u64 (h.nMemBlocks + toI32 (-h.memIndex h.nMemBlocks))) = 0
    · refine Or.inr ⟨fun quiet => (quiet.2 lastUsed neg).2 tag, Or.inl ?_⟩
      refine checkTag_zero (h := h₁.touch _) ?_ _
      rw [touch_memIndex, same, tag]
    · exact Or.inl ⟨⟨zero, fun _ _ => ⟨by omega, tag⟩⟩,
        done _ here tag (h₁.touch _) geometry same⟩

/-- A request for no blocks takes the tag of the first free run away. -/
theorem memAlloc_zero (inv : h.Holds live) (free : h.HasRoom 0) :
    ∃ i h', 0 < i ∧ i < h.nMemBlocks ∧ memAlloc 0 h = .ok (h.blockAddr i, h') ∧
      h'.toGeometry = h.toGeometry ∧ h'.memIndex i = 0 := by
  obtain ⟨ok, cs, tiles, -, -⟩ := id inv
  obtain ⟨cs', tiles', fits⟩ := free
  obtain rfl := tiles.det tiles'
  obtain ⟨pre, k, post, rfl, -, short⟩ := exists_first_fit fits
  have len : pre.length < h.nMemBlocks + 1 := by
    have := tiles.length_le
    simp only [List.length_append, List.length_cons] at this
    omega
  obtain ⟨h₁, fuel, run, within, same⟩ := memAllocLoop_reaches 0 _ 0 h pre tiles ok.bound
    (fun c hc free => absurd (short c hc free) (Nat.not_lt_zero _)) len
  rw [Nat.zero_add] at run
  obtain ⟨-, here, after⟩ := tiles_append.mp tiles
  rw [Nat.zero_add] at here after
  have pos : 0 < k := here.pos
  have le : total pre + k ≤ h.nMemBlocks := after.le
  have bound := ok.bound
  have head : h₁.memIndex (total pre) = -k := by
    rw [same]
    exact here.head
  have neg : -(k : Int) < 0 := by omega
  have count : toI32 (-(-(k : Int))) = k := by rw [neg_neg]; exact toI32_eq (by omega) (by omega)
  obtain ⟨h', split, geometry, cell⟩ := splitRun_returns (h₁.touch (total pre)) (total pre) k 0
  refine ⟨total pre, h', ?_, by omega, ?_, geometry.trans within.geometry, cell⟩
  · -- the index comes first
    have first := inv.index_first tiles
    cases pre with
    | nil =>
      simp at first
    | cons c cs =>
      have := tiles.1.pos
      rw [total_cons]
      omega
  · have visit : memAllocVisit 0 (memAllocLoop 0 fuel) (total pre) h₁ =
        .ok (h₁.blockAddr (total pre), h') := by
      simp only [memAllocVisit, get_bind, load_bind, head, neg, count, true_and,
        u64_natCast (show k < 2 ^ 64 by omega), pos, ↓reduceIte, bind_run split, pure_run]
    show memAllocLoop 0 _ 0 h = _
    rw [run, visit, within.geometry]

end

/-- **When `mem_alloc` is safe.** -/
theorem userMemAlloc_safe_iff {h₀ h : Heap} {live : List (Nat × Nat)} (fresh : h₀.Fresh)
    (run : HeapRun h₀ h live) {nbytes : Nat} (word : nbytes < 2 ^ 64) :
    h.AllocSafe live nbytes ↔
      0 < userBlocks nbytes ∧ h.HasRoom (userBlocks nbytes) ∨
      ¬ h.HasRoom (userBlocks nbytes) ∧ h.EndsQuietly (userBlocks nbytes) := by
  obtain ⟨inv, -, -, -⟩ := run.holds fresh
  have two := inv.ok.two
  by_cases room : h.HasRoom (userBlocks nbytes)
  · by_cases pos : 0 < userBlocks nbytes
    · refine ⟨fun _ => Or.inl ⟨pos, room⟩, fun _ => ?_⟩
      obtain ⟨p, h', eq, -, inv'⟩ := memAlloc_spec inv pos room
      exact ⟨p, h', eq, Or.inr ⟨_, userBlocks_enough word pos, inv'⟩⟩
    · have none : userBlocks nbytes = 0 := by omega
      refine ⟨fun safe => ?_, fun h => ?_⟩
      · obtain ⟨i, h₁, lo, hi, eq₁, geometry, cell⟩ := memAlloc_zero inv (none ▸ room)
        obtain ⟨p, h', eq, result⟩ := safe
        rw [userMemAlloc, none, eq₁] at eq
        cases eq
        have addr := inv.ok.blockAddr_eq hi.le
        rcases result with ⟨null, -⟩ | ⟨n, -, holds⟩
        · omega
        · obtain ⟨ok, cs, tiles, -, runs⟩ := holds
          have mem : (h₁.blockAddr i, n) ∈ h₁.runs cs := by
            rw [runs, geometry]
            simp
          have blocks : h₁.nMemBlocks = h.nMemBlocks := congrArg Geometry.nMemBlocks geometry
          obtain ⟨pre, post, rfl, start⟩ := mem_allocs.mp
            ((Geometry.mem_runs ok tiles (by omega)).mp mem)
          have head := tiles.at_of_split.head
          have pos := tiles.at_of_split.pos
          rw [← start, cell, tag_used] at head
          simp only at pos
          omega
      · rcases h with ⟨pos', -⟩ | ⟨full, -⟩
        · exact absurd pos' pos
        · exact absurd room full
  · rcases memAlloc_ends inv room (userBlocks_lt nbytes) with
      ⟨quiet, h', eq, geometry, same⟩ | ⟨loud, panics | ⟨h', eq, geometry⟩⟩
    · refine ⟨fun _ => Or.inr ⟨room, quiet⟩, fun _ => ⟨0, h', eq, Or.inl ⟨rfl, ?_⟩⟩⟩
      exact inv.congr geometry fun i _ => by rw [same]
    · refine ⟨fun ⟨p, h', eq, _⟩ => ?_, fun h => ?_⟩
      · rw [userMemAlloc, panics] at eq
        cases eq
      · exact (h.elim (fun h => room h.2) fun h => loud h.2).elim
    · refine ⟨fun ⟨p, h₁, eq₁, result⟩ => ?_, fun h => ?_⟩
      · rw [userMemAlloc, eq] at eq₁
        cases eq₁
        rcases result with ⟨null, -⟩ | ⟨n, -, holds⟩
        · have addr := inv.ok.blockAddr_eq (Nat.le_refl h.nMemBlocks)
          omega
        · exact (@Heap.Holds.not_behind _ live _ _ holds (by rw [geometry])).elim
      · exact (h.elim (fun h => room h.2) fun h => loud h.2).elim

theorem userMemAlloc_safe_iff_small : smallInit.AllocSafe [] 100 :=
  (userMemAlloc_safe_iff smallHeap_fresh (.init rfl) (by decide)).mpr
    (Or.inl ⟨by decide, smallInit_room⟩)

/-- A request for no bytes leaves no tiling behind. -/
theorem userMemAlloc_unsafe :
    smallHeap.Fresh ∧ HeapRun smallHeap smallInit [] ∧ ¬ smallInit.AllocSafe [] 0 := by
  refine ⟨smallHeap_fresh, .init rfl, ?_⟩
  rintro ⟨p, h', eq, result⟩
  have ran : userMemAlloc 0 smallInit =
    .ok (4160, heapAfter (userMemAlloc 0 smallInit) smallInit) :=
    rfl
  rw [ran] at eq
  cases eq
  have corrupted : ∀ live, ¬ (heapAfter (userMemAlloc 0 smallInit) smallInit).Holds live := by
    rintro live ⟨-, cs, tiles, -, -⟩
    cases cs with
    | nil => exact absurd (show 0 = 4 from tiles) (by decide)
    | cons c cs =>
      have head : 0 = c.tag := tiles.1.head
      have pos := tiles.1.pos
      unfold Chunk.tag at head
      split at head <;> omega
  exact result.elim (fun h => corrupted _ h.2) fun ⟨_, h⟩ => corrupted _ h.2

end RiscvKernel
