import RiscvKernel.Mem
import RiscvKernel.Tiling
import Mathlib.Tactic.SplitIfs

/-!
# What `__mem_alloc` does to a tiled index

`memAllocLoop_fits`: on an index that tiles the heap with a long enough free
run, the loop carves the request out of the first such run and touches no
other run and no cell past the array.
-/

namespace RiscvKernel
open Tiling

section Run
variable {α : Type}

theorem load_bind (i : Nat) (f : Int → IndexM α) (h : Heap) :
    (load i >>= f) h = f (h.memIndex i) (h.touch i) := rfl

theorem store_bind (i : Nat) (v : Int) (f : Unit → IndexM α) (h : Heap) :
    (store i v >>= f) h = f () (h.put i v) := rfl

theorem get_bind (f : Heap → IndexM α) (h : Heap) : (get >>= f) h = f h h := rfl

theorem modify_bind (g : Heap → Heap) (f : PUnit → IndexM α) (h : Heap) :
    (modify g >>= f) h = f ⟨⟩ (g h) := rfl

theorem pure_run (a : α) (h : Heap) : (pure a : IndexM α) h = .ok (a, h) := rfl

theorem bind_run {β : Type} {x : IndexM β} {f : β → IndexM α} {h h' : Heap} {b : β}
    (hx : x h = .ok (b, h')) : (x >>= f) h = f b h' := by
  show (x h >>= fun p => f p.1 p.2) = _
  rw [hx]
  rfl

theorem bind_ok {β : Type} {x : IndexM β} {f : β → IndexM α} {h : Heap} {r : α × Heap}
    (ran : (x >>= f) h = .ok r) : ∃ a h', x h = .ok (a, h') ∧ f a h' = .ok r := by
  have ran : (x h >>= fun p => f p.1 p.2) = .ok r := ran
  cases hx : x h with
  | error e =>
    rw [hx] at ran
    cases ran
  | ok p =>
    rw [hx] at ran
    exact ⟨p.1, p.2, rfl, ran⟩

theorem ite_run {p : Prop} [Decidable p] (x y : IndexM α) (h : Heap) :
    (if p then x else y) h = if p then x h else y h := by
  split <;> rfl

end Run

@[simp] theorem touch_memIndex (h : Heap) (i : Nat) : (h.touch i).memIndex = h.memIndex := rfl
@[simp] theorem touch_geometry (h : Heap) (i : Nat) :
    (h.touch i).toGeometry = h.toGeometry := rfl
@[simp] theorem touch_reach (h : Heap) (i : Nat) : (h.touch i).reach = max h.reach (i + 1) := rfl
@[simp] theorem put_memIndex (h : Heap) (i : Nat) (v : Int) :
    (h.put i v).memIndex = Function.update h.memIndex i (toI32 v) := rfl
@[simp] theorem put_geometry (h : Heap) (i : Nat) (v : Int) :
    (h.put i v).toGeometry = h.toGeometry := rfl
@[simp] theorem put_reach (h : Heap) (i : Nat) (v : Int) :
    (h.put i v).reach = max h.reach (i + 1) := rfl

/-- The step from `h` to `h'` touched only the `n_mem_blocks` cells of the array. -/
structure Heap.Within (h h' : Heap) : Prop where
  geometry : h'.toGeometry = h.toGeometry
  reach : h'.reach ≤ max h.reach h.nMemBlocks

theorem Heap.Within.refl (h : Heap) : h.Within h := ⟨rfl, by omega⟩

theorem Heap.Within.trans {a b c : Heap} (hab : a.Within b) (hbc : b.Within c) : a.Within c := by
  have hn : b.nMemBlocks = a.nMemBlocks := congrArg Geometry.nMemBlocks hab.geometry
  have h₁ := hab.reach
  have h₂ := hbc.reach
  exact ⟨hbc.geometry.trans hab.geometry, by omega⟩

theorem Heap.within_touch {h : Heap} {i : Nat} (hi : i < h.nMemBlocks) : h.Within (h.touch i) :=
  ⟨rfl, by simp; omega⟩

theorem splitRun_run {h : Heap} {i k nb : Nat} (pos : 0 < nb) (lt : nb < k)
    (le : i + k ≤ h.nMemBlocks) (bound : h.nMemBlocks < 2 ^ 31) :
    ∃ h', splitRun i k nb h = .ok ((), h') ∧ h.Within h' ∧
      (∀ j, j < i ∨ i + k ≤ j → h'.memIndex j = h.memIndex j) ∧
      ((∀ j, i < j → j < i + k - 1 → h.memIndex j = 0) →
        Tiles h'.memIndex i [⟨nb, true⟩, ⟨k - nb, false⟩] (i + k)) := by
  have e₁ : u64 (i + k - 1) = i + k - 1 := by rw [u64_eq] <;> omega
  have e₂ : u64 (i + nb) = i + nb := by rw [u64_eq] <;> omega
  have e₃ : u64 (i + nb - 1) = i + nb - 1 := by rw [u64_eq] <;> omega
  have t₁ : toI32 (-(k - nb)) = -(k - nb) := toI32_eq (by omega) (by omega)
  have t₂ : toI32 nb = nb := toI32_eq (by omega) (by omega)
  refine ⟨(((h.put (i + k - 1) (-(k - nb))).put (i + nb) (-(k - nb))).put (i + nb - 1) nb).put i nb,
    ?_, ?_, ?_, ?_⟩
  · simp only [splitRun, e₁, e₂, e₃, store_bind]
    rfl
  · clear e₁ e₂ e₃ t₁ t₂
    exact ⟨rfl, by simp only [put_reach]; omega⟩
  · intro j hj
    simp only [put_memIndex, Function.update_apply]
    grind
  · intro interior
    have rest : 0 < k - nb := by omega
    have close : i + nb + (k - nb) = i + k := by omega
    simp only [Tiles, put_memIndex, t₁, t₂]
    refine ⟨⟨pos, ?_, ?_, ?_⟩, ⟨rest, ?_, ?_, ?_⟩, close⟩
    all_goals simp only [tag_used, tag_free, Function.update_apply]
    all_goals grind

theorem takeRun_run {h : Heap} {i nb : Nat} (pos : 0 < nb)
    (le : i + nb ≤ h.nMemBlocks) (bound : h.nMemBlocks < 2 ^ 31) :
    ∃ h', takeRun i nb h = .ok ((), h') ∧ h.Within h' ∧
      (∀ j, j < i ∨ i + nb ≤ j → h'.memIndex j = h.memIndex j) ∧
      ((∀ j, i < j → j < i + nb - 1 → h.memIndex j = 0) →
        Tiles h'.memIndex i [⟨nb, true⟩] (i + nb)) := by
  have e₁ : u64 (i + nb - 1) = i + nb - 1 := by rw [u64_eq] <;> omega
  have t₁ : toI32 nb = nb := toI32_eq (by omega) (by omega)
  refine ⟨(h.put i nb).put (i + nb - 1) nb, ?_, ?_, ?_, ?_⟩
  · simp only [takeRun, e₁, store_bind]
    rfl
  · clear e₁ t₁
    exact ⟨rfl, by simp only [put_reach]; omega⟩
  · intro j hj
    simp only [put_memIndex, Function.update_apply]
    grind
  · intro interior
    simp only [Tiles, put_memIndex, t₁]
    refine ⟨⟨pos, ?_, ?_, ?_⟩, trivial⟩
    all_goals simp only [tag_used, Function.update_apply]
    all_goals grind

theorem checkTag_run {h : Heap} {i : Nat} (nonzero : h.memIndex i ≠ 0) :
    checkTag i h = .ok ((), h.touch i) := by
  simp only [checkTag, load_bind, nonzero, ↓reduceIte, pure_run]

/-- What `__mem_alloc` makes of a free run of `k` blocks. -/
def carve (nb k : Nat) : List Chunk :=
  if nb = k then [⟨nb, true⟩] else [⟨nb, true⟩, ⟨k - nb, false⟩]

theorem total_carve {nb k : Nat} (le : nb ≤ k) : total (carve nb k) = k := by
  unfold carve
  split <;> simp <;> omega

/-- The step from `h` to `h'` made `nb` used blocks of the free run of `k`
blocks at `i`, and changed no cell outside that run. -/
structure Heap.Carve (h : Heap) (i nb k : Nat) (h' : Heap) : Prop where
  within : h.Within h'
  frame : ∀ j, j < i ∨ i + k ≤ j → h'.memIndex j = h.memIndex j
  tiles : Tiles h'.memIndex i (carve nb k) (i + k)

theorem Heap.Carve.of_same {h h₁ h' : Heap} {i nb k : Nat} (c : h₁.Carve i nb k h')
    (within : h.Within h₁) (same : h₁.memIndex = h.memIndex) : h.Carve i nb k h' :=
  ⟨within.trans c.within, fun j hj => by rw [c.frame j hj, same], c.tiles⟩

/-- A free run that is long enough is taken. -/
theorem memAllocVisit_fit {h : Heap} (next : Nat → IndexM Nat) {i nb k : Nat} (pos : 0 < nb)
    (le : nb ≤ k) (run : Chunk.At h.memIndex i ⟨k, false⟩) (inside : i + k ≤ h.nMemBlocks)
    (bound : h.nMemBlocks < 2 ^ 31) :
    ∃ h', memAllocVisit nb next i h = .ok (h.blockAddr i, h') ∧ h.Carve i nb k h' := by
  have head : h.memIndex i = -k := run.head
  have neg : -(k : Int) < 0 := by omega
  have count : toI32 (-(-(k : Int))) = k := by rw [neg_neg]; exact toI32_eq (by omega) (by omega)
  have here : h.Within (h.touch i) := Heap.within_touch (by omega)
  simp only [memAllocVisit, get_bind, load_bind, head, count, ite_run, neg, true_and,
    u64_natCast (show k < 2 ^ 64 by omega)]
  by_cases lt : nb < k
  · obtain ⟨h', eq, within, frame, tiles⟩ :=
      splitRun_run (h := h.touch i) pos lt inside bound
    refine ⟨h', ?_, here.trans within, frame, ?_⟩
    · simp only [lt, ↓reduceIte, bind_run eq, pure_run]
    · simpa only [carve, lt.ne, ↓reduceIte] using tiles run.interior
  · obtain rfl : nb = k := by omega
    obtain ⟨h', eq, within, frame, tiles⟩ := takeRun_run (h := h.touch i) pos inside bound
    refine ⟨h', ?_, here.trans within, frame, ?_⟩
    · simp only [lt, ↓reduceIte, bind_run eq, pure_run]
    · simpa only [carve, ↓reduceIte] using tiles run.interior

/-- A used run is left as it is. -/
theorem memAllocVisit_used {h : Heap} (nb : Nat) (next : Nat → IndexM Nat) {i : Nat}
    (used : 0 < h.memIndex i) :
    memAllocVisit nb next i h = next i ((h.touch i).touch i) := by
  have nonneg : ¬ h.memIndex i < 0 := by omega
  have nonzero : (h.touch i).memIndex i ≠ 0 := used.ne'
  simp only [memAllocVisit, get_bind, load_bind, nonneg, false_and, ↓reduceIte,
    bind_run (checkTag_run nonzero)]

/-- A free run that is too short is passed; the cell after it is checked. -/
theorem memAllocVisit_short {h : Heap} (next : Nat → IndexM Nat) {i nb k : Nat}
    (head : h.memIndex i = -k) (pos : 0 < k) (lt : k < nb) (bound : i + k < 2 ^ 31) :
    memAllocVisit nb next i h = (checkTag (i + k) >>= fun _ => next (i + k)) (h.touch i) := by
  have neg : -(k : Int) < 0 := by omega
  have count : toI32 (-(-(k : Int))) = k := by rw [neg_neg]; exact toI32_eq (by omega) (by omega)
  have notLt : ¬ nb < k := by omega
  have notEq : ¬ k = nb := by omega
  have step : u64 ((i : Int) + k) = i + k := by rw [u64_eq] <;> omega
  simp only [memAllocVisit, get_bind, load_bind, head, count, neg, true_and,
    u64_natCast (show k < 2 ^ 64 by omega), notLt, notEq, step, ↓reduceIte]

/-- A used run is left, and a free run that is too short is passed. The cell
the round ends at is the first cell of another run. -/
theorem memAllocVisit_pass {h : Heap} (next : Nat → IndexM Nat) {i nb : Nat} {c d : Chunk}
    (short : c.used = false → c.size < nb) (run : c.At h.memIndex i)
    (after : d.At h.memIndex (i + c.size)) (inside : i + c.size < h.nMemBlocks)
    (bound : h.nMemBlocks < 2 ^ 31) :
    ∃ h', memAllocVisit nb next i h = next (if c.used then i else i + c.size) h' ∧
      h.Within h' ∧ h'.memIndex = h.memIndex := by
  have size := run.pos
  have here : h.Within (h.touch i) := Heap.within_touch (by omega)
  cases hu : c.used with
  | true =>
    refine ⟨(h.touch i).touch i, memAllocVisit_used nb next (run.head_pos.mpr hu),
      here.trans (Heap.within_touch ?_), rfl⟩
    rw [touch_geometry]
    omega
  | false =>
    have head : h.memIndex i = -c.size := by
      rw [run.head, Chunk.tag, hu]
      rfl
    have nonzero : (h.touch i).memIndex (i + c.size) ≠ 0 := by
      have tag := after.head
      have := after.pos
      have := after.head_pos
      have := after.head_neg
      rw [touch_memIndex]
      cases hd : d.used <;> simp_all <;> omega
    refine ⟨(h.touch i).touch (i + c.size), ?_, here.trans (Heap.within_touch inside), rfl⟩
    rw [memAllocVisit_short next head size (short hu) (by omega), bind_run (checkTag_run nonzero)]
    rfl

/-- The search reaches the first free run that is long enough. `pre` are the
runs before it; every round passes at least one of them. -/
theorem memAllocLoop_reaches (nb : Nat) {k : Nat} {post : List Chunk} :
    ∀ (fuel i : Nat) (h : Heap) (pre : List Chunk),
      Tiles h.memIndex i (pre ++ ⟨k, false⟩ :: post) h.nMemBlocks → h.nMemBlocks < 2 ^ 31 →
      (∀ c ∈ pre, c.used = false → c.size < nb) → pre.length < fuel →
      ∃ h' fuel', memAllocLoop nb fuel i h =
          memAllocVisit nb (memAllocLoop nb fuel') (i + total pre) h' ∧
        h.Within h' ∧ h'.memIndex = h.memIndex := by
  intro fuel
  induction fuel with
  | zero => intro i h pre _ _ _ hf; omega
  | succ fuel ih =>
    intro i h pre tiles bound short hf
    -- from the second half of the round on, at the first of the runs `rs ++ ⟨k, false⟩ :: post`
    have visit : ∀ (i : Nat) (h : Heap) (rs : List Chunk),
        Tiles h.memIndex i (rs ++ ⟨k, false⟩ :: post) h.nMemBlocks → h.nMemBlocks < 2 ^ 31 →
        (∀ c ∈ rs, c.used = false → c.size < nb) →
        (∀ c ds, rs = c :: ds → (if c.used then rs else ds).length < fuel) →
        ∃ h' fuel', memAllocVisit nb (memAllocLoop nb fuel) i h =
            memAllocVisit nb (memAllocLoop nb fuel') (i + total rs) h' ∧
          h.Within h' ∧ h'.memIndex = h.memIndex := by
      intro i h rs tiles bound short hf
      cases rs with
      | nil => exact ⟨h, fuel, rfl, Heap.Within.refl h, rfl⟩
      | cons c ds =>
        obtain ⟨d, es, hd⟩ : ∃ d es, ds ++ ⟨k, false⟩ :: post = d :: es :=
          List.exists_cons_of_ne_nil (by simp)
        obtain ⟨hc, hds⟩ : c.At h.memIndex i ∧ Tiles h.memIndex (i + c.size) (d :: es) _ := by
          rw [← hd]
          exact tiles
        have inside : i + c.size < h.nMemBlocks := by
          have := hds.1.pos
          have := hds.2.le
          omega
        obtain ⟨h₁, eq, within, same⟩ := memAllocVisit_pass (memAllocLoop nb fuel)
          (short c List.mem_cons_self) hc hds.1 inside bound
        have geometry := within.geometry
        have len := hf c ds rfl
        rw [eq]
        cases hu : c.used with
        | true =>
          simp only [hu, ↓reduceIte] at len ⊢
          obtain ⟨h', fuel', run, within', same'⟩ := ih i h₁ (c :: ds)
            (by rw [same, geometry]; exact tiles) (by rw [geometry]; exact bound) short len
          exact ⟨h', fuel', run, within.trans within', same'.trans same⟩
        | false =>
          simp only [hu, Bool.false_eq_true, ↓reduceIte] at len ⊢
          obtain ⟨h', fuel', run, within', same'⟩ := ih (i + c.size) h₁ ds
            (by rw [same, geometry]; exact tiles.2) (by rw [geometry]; exact bound)
            (fun x hx => short x (List.mem_cons_of_mem _ hx)) len
          rw [total_cons, ← Nat.add_assoc]
          exact ⟨h', fuel', run, within.trans within', same'.trans same⟩
    have start : ¬ h.nMemBlocks ≤ i := by
      have he := tiles.end_eq
      have := tiles.at_of_split.pos
      simp only [total_append, total_cons] at he
      dsimp at this
      omega
    have here : h.Within (h.touch i) := Heap.within_touch (by omega)
    simp only [memAllocLoop, get_bind, start, ↓reduceIte, load_bind]
    cases pre with
    | nil =>
      have head : ¬ 0 < h.memIndex i := by
        rw [tiles.1.head_pos]
        simp
      simp only [head, ↓reduceIte]
      exact ⟨h.touch i, fuel, rfl, here, rfl⟩
    | cons c ds =>
      have hc : c.At h.memIndex i := tiles.1
      have rest : ∀ x ∈ ds, x.used = false → x.size < nb :=
        fun x hx => short x (List.mem_cons_of_mem _ hx)
      simp only [List.length_cons] at hf
      cases hu : c.used with
      | true =>
        have head : 0 < h.memIndex i := hc.head_pos.mpr hu
        have step : u64 (i + h.memIndex i) = i + c.size := by
          have := tiles.2.le
          rw [hc.head, Chunk.tag, hu, u64_eq] <;> simp <;> omega
        simp only [head, ↓reduceIte, step]
        obtain ⟨h', fuel', run, within, same⟩ := visit (i + c.size) (h.touch i) ds tiles.2 bound
          rest (by
            rintro d es rfl
            simp only [List.length_cons] at hf
            split
            · exact Nat.lt_of_succ_lt_succ hf
            · omega)
        rw [total_cons, ← Nat.add_assoc]
        exact ⟨h', fuel', run, here.trans within, same⟩
      | false =>
        have head : ¬ 0 < h.memIndex i := by
          rw [hc.head_pos, hu]
          simp
        simp only [head, ↓reduceIte]
        obtain ⟨h', fuel', run, within, same⟩ := visit i (h.touch i) (c :: ds) tiles bound short (by
          rintro d es ⟨rfl, rfl⟩
          simp only [hu, Bool.false_eq_true, ↓reduceIte]
          omega)
        exact ⟨h', fuel', run, here.trans within, same⟩

/-- The loop takes the first free run that is long enough. -/
theorem memAllocLoop_fits {nb k : Nat} {post : List Chunk} (pos : 0 < nb) (le : nb ≤ k)
    (fuel i : Nat) (h : Heap) (pre : List Chunk)
    (tiles : Tiles h.memIndex i (pre ++ ⟨k, false⟩ :: post) h.nMemBlocks)
    (bound : h.nMemBlocks < 2 ^ 31) (short : ∀ c ∈ pre, c.used = false → c.size < nb)
    (len : pre.length < fuel) :
    ∃ h', memAllocLoop nb fuel i h = .ok (h.blockAddr (i + total pre), h') ∧
      h.Carve (i + total pre) nb k h' := by
  obtain ⟨h₁, fuel', run, within, same⟩ := memAllocLoop_reaches nb fuel i h pre tiles bound short
    len
  have geometry := within.geometry
  rw [← same, ← geometry] at tiles
  obtain ⟨-, here, after⟩ := tiles_append.mp tiles
  obtain ⟨h', taken, carved⟩ := memAllocVisit_fit (memAllocLoop nb fuel') pos le here
    after.le (by rw [geometry]; exact bound)
  exact ⟨h', by rw [run, taken, geometry], carved.of_same within same⟩

/-- Whatever the index holds, the loop of `__mem_alloc` does not move the heap. -/
theorem memAllocLoop_geometry {nb : Nat} : ∀ (fuel i : Nat) (h : Heap) (r : Nat × Heap),
    memAllocLoop nb fuel i h = .ok r → r.2.toGeometry = h.toGeometry := by
  intro fuel
  induction fuel with
  | zero =>
    intro i h r ran
    cases ran
  | succ fuel ih =>
    intro i h r ran
    have visit : ∀ (i : Nat) (h : Heap), memAllocVisit nb (memAllocLoop nb fuel) i h = .ok r →
        r.2.toGeometry = h.toGeometry := by
      intro i h ran
      simp only [memAllocVisit, get_bind, load_bind] at ran
      split at ran
      · cases ran
        rfl
      · split at ran
        · cases ran
          rfl
        · generalize (if h.memIndex i < 0 then u64 (i + toI32 (-h.memIndex i)) else i) = j at ran
          obtain ⟨u, h₁, check, ran⟩ := bind_ok (h := h.touch i) ran
          have same : h₁.toGeometry = h.toGeometry := by
            simp only [checkTag, load_bind] at check
            split at check
            · cases check
            · cases check
              rfl
          exact (ih j h₁ r ran).trans same
    simp only [memAllocLoop, get_bind] at ran
    split at ran
    · cases ran
      rfl
    · simp only [load_bind] at ran
      exact (visit _ (h.touch i) ran).trans rfl

end RiscvKernel
