import RiscvKernel.MemAlloc

/-!
# What `__mem_free` does to a tiled index

`release_run`: the run and its free neighbours become one free run, in each of
the four cases of the code, and no other cell changes.
-/

namespace RiscvKernel
open Tiling

/-- The step from `h` to `h'` made one free run of the `k` cells at `i`, and
changed no cell outside them. -/
structure Heap.Joined (h : Heap) (i k : Nat) (h' : Heap) : Prop where
  within : h.Within h'
  frame : ∀ j, j < i ∨ i + k ≤ j → h'.memIndex j = h.memIndex j
  run : Chunk.At h'.memIndex i ⟨k, false⟩

theorem freeAlone_run {h : Heap} {p s : Nat} (run : Chunk.At h.memIndex p ⟨s, true⟩)
    (inside : p + s ≤ h.nMemBlocks) (bound : h.nMemBlocks < 2 ^ 31) :
    ∃ h', freeAlone p s h = .ok ((), h') ∧ h.Joined p s h' := by
  have pos : 0 < s := run.pos
  have interior := run.interior
  have e : u64 ((p : Int) + s - 1) = p + s - 1 := by rw [u64_eq] <;> omega
  have t : toI32 (-s) = -s := toI32_eq (by omega) (by omega)
  refine ⟨(h.put p (-s)).put (p + s - 1) (-s), ?_, ?_, ?_, ?_⟩
  · simp only [freeAlone, e, store_bind]
    rfl
  · clear e t
    exact ⟨rfl, by simp only [put_reach]; omega⟩
  · intro j hj
    simp only [put_memIndex, Function.update_apply]
    grind
  · simp only [put_memIndex, t]
    refine ⟨pos, ?_, ?_, ?_⟩
    all_goals simp only [tag_free, Function.update_apply]
    all_goals grind

theorem joinPrev_run {h : Heap} {q a s : Nat} (before : Chunk.At h.memIndex q ⟨a, false⟩)
    (run : Chunk.At h.memIndex (q + a) ⟨s, true⟩) (inside : q + a + s ≤ h.nMemBlocks)
    (bound : h.nMemBlocks < 2 ^ 31) :
    ∃ h', joinPrev (q + a) s h = .ok ((q, (a + s : Nat)), h') ∧ h.Joined q (a + s) h' := by
  have posA : 0 < a := before.pos
  have posS : 0 < s := run.pos
  have interiorA := before.interior
  have interiorS := run.interior
  have prev : h.memIndex (q + a - 1) = -a := before.foot
  have e₁ : u64 (((q + a : Nat) : Int) + -a) = q := by rw [u64_eq] <;> omega
  have e₂ : u64 ((q : Int) + (a + s : Nat) - 1) = q + a + s - 1 := by rw [u64_eq] <;> omega
  have t₁ : toI32 (s - -a) = (a + s : Nat) := by rw [toI32_eq] <;> omega
  have t₂ : toI32 (-(a + s : Nat)) = -(a + s : Nat) := toI32_eq (by omega) (by omega)
  have t₀ : toI32 0 = 0 := rfl
  refine ⟨(((((h.touch (q + a - 1)).put (q + a) 0).put (q + a - 1) 0).put q (-(a + s : Nat))).put
    (q + a + s - 1) (-(a + s : Nat))), ?_, ?_, ?_, ?_⟩
  · simp only [joinPrev, load_bind, prev, e₁, t₁, e₂, store_bind, pure_run]
  · clear e₁ e₂ t₁ t₂
    exact ⟨rfl, by simp only [put_reach, touch_reach]; omega⟩
  · intro j hj
    simp only [put_memIndex, touch_memIndex, Function.update_apply]
    grind
  · simp only [put_memIndex, touch_memIndex, t₀, t₂]
    dsimp only at interiorA interiorS
    refine ⟨Nat.add_pos_left posA s, ?_, ?_, ?_⟩
    all_goals simp only [tag_free, Function.update_apply]
    all_goals grind

theorem joinNext_run {h : Heap} {q k b : Nat} {u : Bool} (run : Chunk.At h.memIndex q ⟨k, u⟩)
    (after : Chunk.At h.memIndex (q + k) ⟨b, false⟩) (inside : q + k + b ≤ h.nMemBlocks)
    (bound : h.nMemBlocks < 2 ^ 31) :
    ∃ h', joinNext q k h = .ok ((), h') ∧ h.Joined q (k + b) h' := by
  have posK : 0 < k := run.pos
  have posB : 0 < b := after.pos
  have interiorK := run.interior
  have interiorB := after.interior
  have next : h.memIndex (q + k) = -b := after.head
  have e₁ : u64 ((q : Int) + k) = q + k := by rw [u64_eq] <;> omega
  have e₂ : u64 ((q : Int) + k - 1) = q + k - 1 := by rw [u64_eq] <;> omega
  have e₃ : u64 ((q : Int) + (k + b : Nat) - 1) = q + k + b - 1 := by rw [u64_eq] <;> omega
  have t₁ : toI32 (k - -b) = (k + b : Nat) := by rw [toI32_eq] <;> omega
  have t₂ : toI32 (-(k + b : Nat)) = -(k + b : Nat) := toI32_eq (by omega) (by omega)
  have t₀ : toI32 0 = 0 := rfl
  refine ⟨(((((h.touch (q + k)).put (q + k - 1) 0).put (q + k) 0).put q (-(k + b : Nat))).put
    (q + k + b - 1) (-(k + b : Nat))), ?_, ?_, ?_, ?_⟩
  · simp only [joinNext, load_bind, e₁, next, e₂, t₁, e₃, store_bind]
    rfl
  · clear e₁ e₂ e₃ t₁ t₂
    exact ⟨rfl, by simp only [put_reach, touch_reach]; omega⟩
  · intro j hj
    simp only [put_memIndex, touch_memIndex, Function.update_apply]
    grind
  · simp only [put_memIndex, touch_memIndex, t₀, t₂]
    dsimp only at interiorK interiorB
    refine ⟨Nat.add_pos_left posK b, ?_, ?_, ?_⟩
    all_goals simp only [tag_free, Function.update_apply]
    all_goals grind

theorem Heap.Joined.trans {h h₁ h' : Heap} {i k l : Nat} (a : h.Joined i k h₁)
    (b : h₁.Joined i l h') (le : k ≤ l) : h.Joined i l h' :=
  ⟨a.within.trans b.within, fun j hj => by rw [b.frame j hj, a.frame j (by omega)], b.run⟩

/-- At most one free chunk. -/
def freeRun : Option Nat → List Chunk
  | none => []
  | some a => [⟨a, false⟩]

/-- The run and the free runs next to it become one free run. -/
theorem release_run {h : Heap} {q s : Nat} (before after : Option Nat)
    (tiles : Tiles h.memIndex q (freeRun before ++ ⟨s, true⟩ :: freeRun after)
      (q + total (freeRun before) + s + total (freeRun after)))
    (inside : q + total (freeRun before) + s + total (freeRun after) ≤ h.nMemBlocks)
    (bound : h.nMemBlocks < 2 ^ 31) :
    ∃ h', release (q + total (freeRun before)) s before.isSome after.isSome h = .ok ((), h') ∧
      h.Joined q (total (freeRun before) + s + total (freeRun after)) h' := by
  cases before with
  | none =>
    cases after with
    | none =>
      obtain ⟨h', eq, joined⟩ := freeAlone_run tiles.1 inside bound
      refine ⟨h', ?_, by simpa [freeRun] using joined⟩
      exact bind_run eq
    | some b =>
      simp only [freeRun, total_nil, total_cons, Nat.add_zero, Nat.zero_add] at inside ⊢
      obtain ⟨h', eq, joined⟩ := joinNext_run tiles.1 tiles.2.1 inside bound
      exact ⟨h', eq, joined⟩
  | some a =>
    obtain ⟨hfree, hused, hafter⟩ := tiles
    simp only [freeRun, total_nil, total_cons, Nat.add_zero] at inside ⊢
    obtain ⟨h₁, eq, joined⟩ := joinPrev_run hfree hused (by omega) bound
    have geometry := joined.within.geometry
    cases after with
    | none =>
      refine ⟨h₁, ?_, joined⟩
      exact bind_run eq
    | some b =>
      simp only [total_nil, total_cons, Nat.add_zero] at inside ⊢
      have next : Chunk.At h₁.memIndex (q + (a + s)) ⟨b, false⟩ := by
        rw [← Nat.add_assoc]
        refine hafter.1.congr fun j hl _ => joined.frame j (Or.inr ?_)
        rw [← Nat.add_assoc]
        exact hl
      obtain ⟨h', eq', joined'⟩ := joinNext_run joined.run next
        (by rw [geometry]; omega) (by rw [geometry]; exact bound)
      exact ⟨h', (bind_run eq).trans eq', joined.trans joined' (by omega)⟩

end RiscvKernel
