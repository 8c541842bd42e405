import RiscvKernel.Tiling

/-!
# Reading a tiling from its boundary tags

* `tags`: the boundary tags of a row of chunks, which are the cells of its tiling that
  are not zero (`Tiles.nonzero`);
* `ofTags`: the chunks that a list of tags stands for;
* `ofTags_tags`: reading the tags gives the chunks back.
-/

namespace Tiling

/-- Both tags of a chunk, or the only one when it has one cell. -/
def Chunk.tags (c : Chunk) : List Int := if c.size = 1 then [c.tag] else [c.tag, c.tag]

def tags (cs : List Chunk) : List Int := cs.flatMap Chunk.tags

/-- The chunk with the boundary tag `v`. -/
def Chunk.ofTag (v : Int) : Chunk := ⟨v.natAbs, decide (0 < v)⟩

/-- A tag of a chunk with more than one cell comes twice. -/
def ofTags : List Int → Option (List Chunk)
  | [] => some []
  | [v] => if v.natAbs = 1 then some [Chunk.ofTag v] else none
  | v :: w :: vs =>
    if v.natAbs = 1 then (ofTags (w :: vs)).map (Chunk.ofTag v :: ·)
    else if w = v then (ofTags vs).map (Chunk.ofTag v :: ·)
    else none

theorem natAbs_tag (c : Chunk) : c.tag.natAbs = c.size := by
  unfold Chunk.tag
  split <;> omega

theorem ofTag_tag {c : Chunk} (pos : 0 < c.size) : Chunk.ofTag c.tag = c := by
  obtain ⟨size, used⟩ := c
  have pos : 0 < size := pos
  cases used with
  | true => simp [Chunk.ofTag, pos]
  | false => simp [Chunk.ofTag]

theorem ofTags_one {v : Int} (one : v.natAbs = 1) (vs : List Int) :
    ofTags (v :: vs) = (ofTags vs).map (Chunk.ofTag v :: ·) := by
  cases vs with
  | nil => exact if_pos one
  | cons w vs => exact if_pos one

theorem ofTags_twice {v : Int} (more : v.natAbs ≠ 1) (vs : List Int) :
    ofTags (v :: v :: vs) = (ofTags vs).map (Chunk.ofTag v :: ·) := by
  have skip : ofTags (v :: v :: vs) = if v = v then _ else _ := if_neg more
  rw [skip, if_pos rfl]

/-- **Reading back.** -/
theorem ofTags_tags {cs : List Chunk} (pos : ∀ c ∈ cs, 0 < c.size) :
    ofTags (tags cs) = some cs := by
  induction cs with
  | nil => rfl
  | cons c cs ih =>
    have here := pos c List.mem_cons_self
    have rest := ih fun c' hc' => pos c' (List.mem_cons_of_mem c hc')
    have split : tags (c :: cs) = c.tags ++ tags cs := List.flatMap_cons ..
    have abs := natAbs_tag c
    rw [split]
    unfold Chunk.tags
    by_cases one : c.size = 1
    · rw [if_pos one, List.singleton_append, ofTags_one (abs.trans one), rest, ofTag_tag here]
      rfl
    · rw [if_neg one, List.cons_append, List.singleton_append,
        ofTags_twice (fun h => one (abs.symm.trans h)), rest, ofTag_tag here]
      rfl

section
variable {m : Nat → Int} {s e : Nat} {c : Chunk} {cs : List Chunk}

/-- The cells from `s` to `s + n` that are not zero. -/
def nonzero (m : Nat → Int) (s n : Nat) : List Int :=
  ((List.range' s n).map m).filter (· ≠ 0)

theorem nonzero_append (m : Nat → Int) (s a b : Nat) :
    nonzero m s (a + b) = nonzero m s a ++ nonzero m (s + a) b := by
  unfold nonzero
  have split : List.range' s (a + b) = List.range' s a ++ List.range' (s + a) b := by
    rw [List.range'_append_1]
  rw [split, List.map_append, List.filter_append]

theorem nonzero_zeros {n : Nat} (zeros : ∀ j, s ≤ j → j < s + n → m j = 0) :
    nonzero m s n = [] := by
  unfold nonzero
  apply List.filter_eq_nil_iff.mpr
  intro v hv
  obtain ⟨j, hj, rfl⟩ := List.mem_map.mp hv
  obtain ⟨lo, hi⟩ := List.mem_range'_1.mp hj
  simp [zeros j lo hi]

theorem nonzero_one (m : Nat → Int) (s : Nat) (h : m s ≠ 0) : nonzero m s 1 = [m s] := by
  simp [nonzero, h]

theorem Chunk.At.nonzero (h : c.At m s) : nonzero m s c.size = c.tags := by
  have pos := h.pos
  have head : m s ≠ 0 := by
    intro zero
    have abs := natAbs_tag c
    rw [← h.head, zero] at abs
    exact pos.ne abs
  by_cases one : c.size = 1
  · unfold Chunk.tags
    rw [if_pos one, one, nonzero_one m s head, h.head]
  · have foot := h.foot
    have split : c.size = 1 + ((c.size - 2) + 1) := by omega
    have last : s + 1 + (c.size - 2) = s + c.size - 1 := by omega
    have middle : Tiling.nonzero m (s + 1) (c.size - 2) = [] :=
      nonzero_zeros fun j lo hi => h.interior j (by omega) (by omega)
    have same : m (s + c.size - 1) ≠ 0 := foot.trans h.head.symm ▸ head
    unfold Chunk.tags
    rw [if_neg one]
    conv_lhs => rw [split]
    rw [nonzero_append, nonzero_append, middle, last, nonzero_one m s head,
      nonzero_one m _ same, h.head, foot]
    rfl

/-- **The tags.** -/
theorem Tiles.nonzero (h : Tiles m s cs e) : nonzero m s (e - s) = tags cs := by
  induction cs generalizing s with
  | nil =>
    obtain rfl : s = e := h
    rw [Nat.sub_self]
    rfl
  | cons c cs ih =>
    have le := h.2.le
    have split : e - s = c.size + (e - (s + c.size)) := by omega
    rw [split, nonzero_append, h.1.nonzero, ih h.2]
    exact (List.flatMap_cons ..).symm

/-- A cell is no larger than the row. -/
theorem Tiles.natAbs_le (h : Tiles m s cs e) {i : Nat} (lo : s ≤ i) (hi : i < e) :
    (m i).natAbs ≤ e - s := by
  induction cs generalizing s with
  | nil =>
    have end_ : s = e := h
    omega
  | cons c cs ih =>
    have le := h.2.le
    have abs := natAbs_tag c
    by_cases later : s + c.size ≤ i
    · have := ih h.2 later
      omega
    · obtain ⟨pos, head, foot, interior⟩ := h.1
      by_cases first : i = s
      · rw [first, head]
        omega
      by_cases last : i = s + c.size - 1
      · rw [last, foot]
        omega
      · rw [interior i (by omega) (by omega)]
        omega

theorem Tiles.sizes_pos (h : Tiles m s cs e) : ∀ c ∈ cs, 0 < c.size := by
  induction cs generalizing s with
  | nil => simp
  | cons c cs ih =>
    intro c' hc'
    rcases List.mem_cons.mp hc' with rfl | later
    · exact h.1.pos
    · exact ih h.2 c' later

end

end Tiling
