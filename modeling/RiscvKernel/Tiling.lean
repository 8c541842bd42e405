import Mathlib.Data.List.Basic
import Mathlib.Data.List.Chain
import Mathlib.Data.List.Perm.Basic
import Mathlib.Tactic.Ring
import Mathlib.Tactic.Linarith

/-!
# Boundary-tag tilings

An array of signed cells describes a row of chunks by boundary tags: the first
and the last cell of a chunk hold its size, positive when it is used and
negative when it is free, and every cell between them is zero.

* `Tiles m s cs e`: the chunks `cs` lie end to end from cell `s` to cell `e`;
* `tiles_append`: a tiling splits at every chunk boundary;
* `Tiles.congr`: a tiling reads only the cells it covers;
* `Coalesced`: no two neighbouring chunks are free;
* `Tiles.unique`: a coalesced tiling is determined by its used chunks, and
  `Tiles.cells_eq`: so are the cells it covers.
-/

namespace Tiling

/-- A run of blocks, in use or free. -/
structure Chunk where
  size : Nat
  used : Bool
  deriving DecidableEq, Repr

/-- The boundary tag of a chunk. -/
def Chunk.tag (c : Chunk) : Int := if c.used then c.size else -c.size

@[simp] theorem tag_used (n : Nat) : Chunk.tag ⟨n, true⟩ = n := rfl
@[simp] theorem tag_free (n : Nat) : Chunk.tag ⟨n, false⟩ = -n := rfl

/-- The cells from `s` on describe the chunk `c`. -/
structure Chunk.At (m : Nat → Int) (s : Nat) (c : Chunk) : Prop where
  pos : 0 < c.size
  head : m s = c.tag
  foot : m (s + c.size - 1) = c.tag
  interior : ∀ j, s < j → j < s + c.size - 1 → m j = 0

/-- The chunks `cs` lie end to end in `[s, e)`. -/
def Tiles (m : Nat → Int) : Nat → List Chunk → Nat → Prop
  | s, [], e => s = e
  | s, c :: cs, e => c.At m s ∧ Tiles m (s + c.size) cs e

/-- The number of cells a list of chunks covers. -/
def total (cs : List Chunk) : Nat := (cs.map Chunk.size).sum

@[simp] theorem total_nil : total [] = 0 := rfl

@[simp] theorem total_cons (c : Chunk) (cs : List Chunk) : total (c :: cs) = c.size + total cs := by
  simp [total]

@[simp] theorem total_append (xs ys : List Chunk) : total (xs ++ ys) = total xs + total ys := by
  simp [total]

theorem Chunk.At.congr {m m' : Nat → Int} {s : Nat} {c : Chunk} (h : c.At m s)
    (same : ∀ j, s ≤ j → j < s + c.size → m' j = m j) : c.At m' s := by
  have pos := h.pos
  refine ⟨pos, ?_, ?_, ?_⟩
  · rw [same s (by omega) (by omega), h.head]
  · rw [same _ (by omega) (by omega), h.foot]
  · intro j hl hr
    rw [same j (by omega) (by omega), h.interior j hl hr]

theorem Tiles.end_eq {m : Nat → Int} {s e : Nat} {cs : List Chunk} (h : Tiles m s cs e) :
    e = s + total cs := by
  induction cs generalizing s with
  | nil => simpa [Tiles] using h.symm
  | cons c cs ih =>
    rw [ih h.2, total_cons]
    omega

theorem Tiles.le {m : Nat → Int} {s e : Nat} {cs : List Chunk} (h : Tiles m s cs e) : s ≤ e := by
  have := h.end_eq
  omega

/-- Every chunk covers a cell. -/
theorem Tiles.length_le {m : Nat → Int} {s e : Nat} {cs : List Chunk} (h : Tiles m s cs e) :
    s + cs.length ≤ e := by
  induction cs generalizing s with
  | nil => exact h.le
  | cons c cs ih =>
    have pos := h.1.pos
    have := ih h.2
    simp only [List.length_cons]
    omega

theorem tiles_append {m : Nat → Int} {s e : Nat} {xs ys : List Chunk} :
    Tiles m s (xs ++ ys) e ↔ Tiles m s xs (s + total xs) ∧ Tiles m (s + total xs) ys e := by
  induction xs generalizing s with
  | nil => simp [Tiles]
  | cons c cs ih =>
    simp only [List.cons_append, Tiles, ih, total_cons, Nat.add_assoc, and_assoc]

theorem Tiles.congr {m m' : Nat → Int} {s e : Nat} {cs : List Chunk} (h : Tiles m s cs e)
    (same : ∀ j, s ≤ j → j < e → m' j = m j) : Tiles m' s cs e := by
  induction cs generalizing s with
  | nil => exact h
  | cons c cs ih =>
    have hle := h.2.le
    exact ⟨h.1.congr fun j hl hr => same j hl (by omega),
      ih h.2 fun j hl hr => same j (by omega) hr⟩

theorem Tiles.at_of_split {m : Nat → Int} {s e : Nat} {pre post : List Chunk} {c : Chunk}
    (h : Tiles m s (pre ++ c :: post) e) : c.At m (s + total pre) :=
  (tiles_append.mp h).2.1

/-- The last cell of a non-empty tiling is the tag of its last chunk. -/
theorem Tiles.last_tag {m : Nat → Int} {s e : Nat} {cs : List Chunk} {c : Chunk}
    (h : Tiles m s (cs ++ [c]) e) : m (e - 1) = c.tag := by
  obtain ⟨-, hc, he⟩ := tiles_append.mp h
  have pos := hc.pos
  simp only [Tiles] at he
  rw [← he]
  exact hc.foot

theorem Chunk.At.head_pos {m : Nat → Int} {s : Nat} {c : Chunk} (h : c.At m s) :
    0 < m s ↔ c.used = true := by
  have pos := h.pos
  rw [h.head, Chunk.tag]
  cases c.used <;> simp [pos]

theorem Chunk.At.head_neg {m : Nat → Int} {s : Nat} {c : Chunk} (h : c.At m s) :
    m s < 0 ↔ c.used = false := by
  have pos := h.pos
  rw [h.head, Chunk.tag]
  cases c.used <;> simp [pos]

/-- Replacing the chunks in the middle of a tiling. -/
theorem Tiles.splice {m m' : Nat → Int} {s e : Nat} {pre mid mid' post : List Chunk}
    (h : Tiles m s (pre ++ mid ++ post) e)
    (frame : ∀ j, j < s + total pre ∨ s + total pre + total mid ≤ j → m' j = m j)
    (new : Tiles m' (s + total pre) mid' (s + total pre + total mid)) :
    Tiles m' s (pre ++ mid' ++ post) e := by
  obtain ⟨hleft, hpost⟩ := tiles_append.mp h
  obtain ⟨hpre, -⟩ := tiles_append.mp hleft
  rw [total_append, ← Nat.add_assoc] at hpost
  have hlen := new.end_eq
  refine tiles_append.mpr ⟨tiles_append.mpr ⟨?_, ?_⟩, ?_⟩
  · exact hpre.congr fun j _ hr => frame j (by omega)
  · rw [total_append, ← Nat.add_assoc, ← hlen]
    exact new
  · rw [total_append, ← Nat.add_assoc, ← hlen]
    exact hpost.congr fun j hl _ => frame j (by omega)

/-- No two neighbouring chunks are both free. -/
def Coalesced (cs : List Chunk) : Prop := cs.IsChain fun a b => a.used = true ∨ b.used = true

/-- The used chunks of a tiling from `s`, as pairs of first cell and size. -/
def allocs : Nat → List Chunk → List (Nat × Nat)
  | _, [] => []
  | s, c :: cs => (if c.used then [(s, c.size)] else []) ++ allocs (s + c.size) cs

theorem allocs_length_le (s : Nat) (cs : List Chunk) : (allocs s cs).length ≤ cs.length := by
  induction cs generalizing s with
  | nil => simp [allocs]
  | cons c cs ih =>
    have := ih (s + c.size)
    simp only [allocs, List.length_append, List.length_cons]
    split <;> simp only [List.length_cons, List.length_nil] <;> omega

theorem allocs_append (s : Nat) (xs ys : List Chunk) :
    allocs s (xs ++ ys) = allocs s xs ++ allocs (s + total xs) ys := by
  induction xs generalizing s with
  | nil => simp [allocs]
  | cons c cs ih => simp [allocs, ih, Nat.add_assoc]

@[simp] theorem allocs_used (s n : Nat) (cs : List Chunk) :
    allocs s (⟨n, true⟩ :: cs) = (s, n) :: allocs (s + n) cs := rfl

@[simp] theorem allocs_free (s n : Nat) (cs : List Chunk) :
    allocs s (⟨n, false⟩ :: cs) = allocs (s + n) cs := rfl

/-- Without a free chunk, the used ones cover everything. -/
theorem allocs_sizes (s : Nat) {cs : List Chunk} (used : ∀ c ∈ cs, c.used = true) :
    ((allocs s cs).map Prod.snd).sum = total cs := by
  induction cs generalizing s with
  | nil => rfl
  | cons c cs ih =>
    simp [allocs, used c, ih (s + c.size) fun d hd => used d (List.mem_cons_of_mem c hd)]

theorem mem_allocs {s p n : Nat} {cs : List Chunk} :
    (p, n) ∈ allocs s cs ↔ ∃ pre post, cs = pre ++ ⟨n, true⟩ :: post ∧ p = s + total pre := by
  induction cs generalizing s with
  | nil => simp [allocs]
  | cons c cs ih =>
    simp only [allocs, List.mem_append, ih]
    constructor
    · rintro (hc | ⟨pre, post, rfl, rfl⟩)
      · cases hu : c.used <;> simp only [hu, Bool.false_eq_true, ↓reduceIte, List.not_mem_nil,
          List.mem_singleton, Prod.mk.injEq] at hc
        exact ⟨[], cs, by cases c; simp_all, by simp [hc.1]⟩
      · exact ⟨c :: pre, post, rfl, by simp [Nat.add_assoc]⟩
    · rintro ⟨pre, post, heq, rfl⟩
      cases pre with
      | nil =>
        simp only [List.nil_append, List.cons.injEq] at heq
        left
        simp [heq.1]
      | cons d pre =>
        simp only [List.cons_append, List.cons.injEq] at heq
        obtain ⟨rfl, rfl⟩ := heq
        exact Or.inr ⟨pre, post, rfl, by simp [Nat.add_assoc]⟩

/-- A used chunk lies inside the tiling. -/
theorem Tiles.alloc_bounds {m : Nat → Int} {s e p n : Nat} {cs : List Chunk}
    (h : Tiles m s cs e) (hp : (p, n) ∈ allocs s cs) : s ≤ p ∧ 0 < n ∧ p + n ≤ e := by
  obtain ⟨pre, post, rfl, rfl⟩ := mem_allocs.mp hp
  have pos := h.at_of_split.pos
  have he := h.end_eq
  simp only [total_append, total_cons] at he pos
  omega

/-- The used chunks come in order and do not overlap. -/
theorem Tiles.allocs_pairwise {m : Nat → Int} {s e : Nat} {cs : List Chunk} (h : Tiles m s cs e) :
    (allocs s cs).Pairwise fun a b => a.1 + a.2 ≤ b.1 := by
  induction cs generalizing s with
  | nil => exact List.Pairwise.nil
  | cons c cs ih =>
    cases c with
    | mk n used =>
      cases used with
      | false => exact ih h.2
      | true =>
        refine List.pairwise_cons.mpr ⟨?_, ih h.2⟩
        rintro ⟨p, k⟩ hp
        exact (h.2.alloc_bounds hp).1

theorem Coalesced.tail {c : Chunk} {cs : List Chunk} (h : Coalesced (c :: cs)) : Coalesced cs :=
  List.IsChain.tail h

theorem Tiles.nil_of_eq {m : Nat → Int} {s : Nat} {cs : List Chunk} (h : Tiles m s cs s) :
    cs = [] := by
  cases cs with
  | nil => rfl
  | cons c cs =>
    have pos := h.1.pos
    have := h.2.le
    omega

/-- Only the first chunk of a tiling can be a used chunk at its first cell. -/
theorem Tiles.head_alloc {m : Nat → Int} {s e n : Nat} {c : Chunk} {cs : List Chunk}
    (h : Tiles m s (c :: cs) e) : (s, n) ∈ allocs s (c :: cs) ↔ c = ⟨n, true⟩ := by
  have pos := h.1.pos
  have tail : (s, n) ∉ allocs (s + c.size) cs := fun hp => by
    have := (h.2.alloc_bounds hp).1
    omega
  cases c with
  | mk k used => cases used <;> simp_all [eq_comm]

/-- A free first chunk is not longer than the free first chunk of another
tiling of the same cells with the same used chunks: the chunk after it is
used, and the other tiling must have it too. -/
theorem free_head_le {m m' : Nat → Int} {s e a b : Nat} {cs ds : List Chunk}
    (h : Tiles m s (⟨a, false⟩ :: cs) e) (h' : Tiles m' s (⟨b, false⟩ :: ds) e)
    (hc : Coalesced (⟨a, false⟩ :: cs))
    (same : ∀ x, x ∈ allocs s (⟨a, false⟩ :: cs) → x ∈ allocs s (⟨b, false⟩ :: ds)) : b ≤ a := by
  by_contra hlt
  have hle := h'.2.le
  dsimp at hle
  cases cs with
  | nil =>
    have := h.end_eq
    simp at this
    omega
  | cons c cs =>
    have hu : c.used = true := by simpa [Coalesced] using (List.isChain_cons_cons.mp hc).1
    have hmem : (s + a, c.size) ∈ allocs s (⟨b, false⟩ :: ds) :=
      same _ (by simp [allocs, hu])
    have := (h'.2.alloc_bounds hmem).1
    dsimp at this
    omega

/-- A coalesced tiling is determined by its used chunks. -/
theorem Tiles.unique {m m' : Nat → Int} {s e : Nat} {cs ds : List Chunk}
    (h : Tiles m s cs e) (h' : Tiles m' s ds e) (hc : Coalesced cs) (hd : Coalesced ds)
    (same : ∀ x, x ∈ allocs s cs ↔ x ∈ allocs s ds) : cs = ds := by
  induction cs generalizing s ds with
  | nil =>
    obtain rfl : s = e := h
    exact h'.nil_of_eq.symm
  | cons c cs ih =>
    cases ds with
    | nil =>
      obtain rfl : s = e := h'
      exact h.nil_of_eq
    | cons d ds =>
      have heads : c = d := by
        cases c with
        | mk a cu =>
          cases d with
          | mk b du =>
            cases cu with
            | true => exact (h'.head_alloc.mp ((same _).mp (h.head_alloc.mpr rfl))).symm
            | false =>
              cases du with
              | true => exact h.head_alloc.mp ((same _).mpr (h'.head_alloc.mpr rfl))
              | false =>
                have hle := free_head_le h h' hc fun x => (same x).mp
                have hge := free_head_le h' h hd fun x => (same x).mpr
                rw [Nat.le_antisymm hge hle]
      subst heads
      have tails : ∀ x, x ∈ allocs (s + c.size) cs ↔ x ∈ allocs (s + c.size) ds := by
        rintro ⟨p, n⟩
        have hx := same (p, n)
        have pos := h.1.pos
        have outL : (p, n) ∈ allocs (s + c.size) cs → s < p := fun hp => by
          have := (h.2.alloc_bounds hp).1
          omega
        have outR : (p, n) ∈ allocs (s + c.size) ds → s < p := fun hp => by
          have := (h'.2.alloc_bounds hp).1
          omega
        cases c with
        | mk k used => cases used <;> grind [allocs_used, allocs_free]
      rw [ih h.2 h'.2 hc.tail hd.tail tails]

/-- An array tiles a range of cells in one way only. -/
theorem Tiles.det {m : Nat → Int} {s e : Nat} {cs ds : List Chunk}
    (h : Tiles m s cs e) (h' : Tiles m s ds e) : cs = ds := by
  induction cs generalizing s ds with
  | nil =>
    obtain rfl : s = e := h
    exact h'.nil_of_eq.symm
  | cons c cs ih =>
    cases ds with
    | nil =>
      obtain rfl : s = e := h'
      exact h.nil_of_eq
    | cons d ds =>
      have tag : c.tag = d.tag := h.1.head.symm.trans h'.1.head
      have posC := h.1.pos
      have posD := h'.1.pos
      have heads : c = d := by
        cases c with
        | mk a cu => cases d with
          | mk b du => cases cu <;> cases du <;> simp_all
      subst heads
      rw [ih h.2 h'.2]

/-- Two tilings by the same chunks agree on every cell they cover. -/
theorem Tiles.cells_eq {m m' : Nat → Int} {s e : Nat} {cs : List Chunk}
    (h : Tiles m s cs e) (h' : Tiles m' s cs e) : ∀ j, s ≤ j → j < e → m j = m' j := by
  induction cs generalizing s with
  | nil =>
    obtain rfl : s = e := h
    intro j hl hr
    omega
  | cons c cs ih =>
    intro j hl hr
    by_cases hin : s + c.size ≤ j
    · exact ih h.2 h'.2 j hin hr
    · by_cases hs : j = s
      · rw [hs, h.1.head, h'.1.head]
      · by_cases hf : j = s + c.size - 1
        · rw [hf, h.1.foot, h'.1.foot]
        · rw [h.1.interior j (by omega) (by omega), h'.1.interior j (by omega) (by omega)]

end Tiling
