import Mathlib.Data.List.Basic
import Mathlib.Data.List.TakeDrop
import Mathlib.Algebra.BigOperators.Group.List.Basic
import Mathlib.Algebra.GroupWithZero.Nat

/-!
# Delta lists

Alarms as a list in which every entry gives its time relative to the one
before.

* `times acc xs`: the time of each entry, from `acc` on;
* `times_insert`: inserting at the right place and shortening the next entry
  adds one alarm and keeps the others;
* `times_remove`: handing the time of a removed entry to the next one keeps
  the other alarms;
* `times_tick`, `times_due`: one tick brings all alarms closer by one, and the
  entries to pop are those whose time is up.
-/

namespace DeltaList

variable {α : Type}

def times : Nat → List (α × Nat) → List (α × Nat)
  | _, [] => []
  | acc, x :: xs => (x.1, acc + x.2) :: times (acc + x.2) xs

/-- The time from the first entry to the end of the list. -/
def span (xs : List (α × Nat)) : Nat := (xs.map Prod.snd).sum

@[simp] theorem span_nil : span ([] : List (α × Nat)) = 0 := rfl
@[simp] theorem span_cons (x : α × Nat) (xs : List (α × Nat)) :
    span (x :: xs) = x.2 + span xs := by
  simp [span]

theorem span_append (xs ys : List (α × Nat)) : span (xs ++ ys) = span xs + span ys := by
  simp [span]

/-- The first entry comes `n` earlier after the one before. -/
def shorten (n : Nat) : List (α × Nat) → List (α × Nat)
  | [] => []
  | x :: xs => (x.1, x.2 - n) :: xs

theorem times_append (acc : Nat) (xs ys : List (α × Nat)) :
    times acc (xs ++ ys) = times acc xs ++ times (acc + span xs) ys := by
  induction xs generalizing acc with
  | nil => simp [times]
  | cons x xs ih => simp [times, ih, Nat.add_assoc]

theorem times_fst (acc : Nat) (xs : List (α × Nat)) :
    (times acc xs).map Prod.fst = xs.map Prod.fst := by
  induction xs generalizing acc with
  | nil => rfl
  | cons x xs ih => simp [times, ih]

theorem le_of_mem_times {acc : Nat} {xs : List (α × Nat)} {y : α × Nat}
    (h : y ∈ times acc xs) : acc ≤ y.2 := by
  induction xs generalizing acc with
  | nil => cases h
  | cons x xs ih =>
    rcases List.mem_cons.mp h with rfl | h
    · exact Nat.le_add_right acc x.2
    · have := ih h
      omega

theorem times_sorted (acc : Nat) (xs : List (α × Nat)) :
    (times acc xs).Pairwise fun x y => x.2 ≤ y.2 := by
  induction xs generalizing acc with
  | nil => exact List.Pairwise.nil
  | cons x xs ih => exact List.pairwise_cons.mpr ⟨fun y hy => le_of_mem_times hy, ih _⟩

/-- The last alarm is at the end of the list. -/
theorem span_mem_times (acc : Nat) {xs : List (α × Nat)} (h : xs ≠ []) :
    ∃ y ∈ times acc xs, y.2 = acc + span xs := by
  induction xs generalizing acc with
  | nil => exact absurd rfl h
  | cons x xs ih =>
    cases xs with
    | nil => exact ⟨(x.1, acc + x.2), by simp [times], by simp⟩
    | cons y ys =>
      obtain ⟨z, hz, e⟩ := ih (acc + x.2) (by simp)
      refine ⟨z, List.mem_cons_of_mem _ hz, ?_⟩
      rw [e, span_cons x]
      omega

theorem times_shorten (acc n : Nat) {xs : List (α × Nat)} (h : ∀ x ∈ xs.head?, n ≤ x.2) :
    times (acc + n) (shorten n xs) = times acc xs := by
  cases xs with
  | nil => rfl
  | cons x xs =>
    have := h x rfl
    simp only [shorten, times]
    rw [show acc + n + (x.2 - n) = acc + x.2 by omega]

/-- **Insertion.** -/
theorem times_insert {front : List (α × Nat)} (a : α) (back : List (α × Nat)) {t : Nat}
    (lo : span front ≤ t)
    (hi : ∀ x ∈ back.head?, t ≤ span front + x.2) :
    times 0 (front ++ (a, t - span front) :: shorten (t - span front) back) =
      times 0 front ++ (a, t) :: times (span front) back := by
  have at_time : span front + (t - span front) = t := by omega
  rw [times_append, Nat.zero_add, times]
  simp only [at_time]
  rw [← times_shorten (span front) (t - span front) (fun x hx => by
    have := hi x hx
    omega), at_time]

/-- The first entry comes `n` later after the one before. -/
def lengthen (n : Nat) : List (α × Nat) → List (α × Nat)
  | [] => []
  | x :: xs => (x.1, x.2 + n) :: xs

theorem times_lengthen (acc n : Nat) (xs : List (α × Nat)) :
    times acc (lengthen n xs) = times (acc + n) xs := by
  cases xs with
  | nil => rfl
  | cons x xs =>
    simp only [lengthen, times]
    rw [show acc + (x.2 + n) = acc + n + x.2 by omega]

/-- **Removal.** -/
theorem times_remove [DecidableEq α] {front back : List (α × Nat)} {a : α} {d : Nat}
    (before : ∀ x ∈ front, x.1 ≠ a) (after : ∀ x ∈ back, x.1 ≠ a) :
    times 0 (front ++ lengthen d back) =
      (times 0 (front ++ (a, d) :: back)).filter (·.1 ≠ a) := by
  have others : ∀ (acc : Nat) (xs : List (α × Nat)), (∀ x ∈ xs, x.1 ≠ a) →
      (times acc xs).filter (·.1 ≠ a) = times acc xs := by
    intro acc xs h
    refine List.filter_eq_self.mpr fun y hy => ?_
    have mem : y.1 ∈ (times acc xs).map Prod.fst := List.mem_map_of_mem hy
    rw [times_fst] at mem
    obtain ⟨x, hx, e⟩ := List.mem_map.mp mem
    simpa [← e] using h x hx
  rw [times_append, times_append, times_lengthen, List.filter_append, others 0 front before, times,
    List.filter_cons_of_neg (by simp), others _ back after]

/-- Every alarm comes closer by one. -/
def closer (xs : List (α × Nat)) : List (α × Nat) := xs.map fun x => (x.1, x.2 - 1)

theorem filter_closer (p q : Nat → Prop) [DecidablePred p] [DecidablePred q]
    (h : ∀ d, p (d - 1) ↔ q d) (xs : List (α × Nat)) :
    (closer xs).filter (p ·.2) = closer (xs.filter (q ·.2)) := by
  unfold closer
  rw [List.filter_map]
  congr 1
  apply List.filter_congr
  intro x _
  exact decide_eq_decide.mpr (h x.2)

theorem times_sub {acc n : Nat} {xs : List (α × Nat)} (h : n ≤ acc) :
    times (acc - n) xs = (times acc xs).map fun x => (x.1, x.2 - n) := by
  induction xs generalizing acc with
  | nil => rfl
  | cons x xs ih =>
    simp only [times, List.map_cons]
    have e : acc - n + x.2 = acc + x.2 - n := by omega
    rw [e, ih (by omega)]

/-- **A tick.** The first entry alone is decremented. -/
theorem times_tick {a : α} {d : Nat} {xs : List (α × Nat)} (h : 1 ≤ d) :
    times 0 ((a, d - 1) :: xs) = closer (times 0 ((a, d) :: xs)) := by
  simp only [times, Nat.zero_add, closer, List.map_cons, times_sub h]

/-- The entries that a tick pops are the alarms whose time is up. -/
theorem times_due (xs : List (α × Nat)) :
    times 0 (xs.takeWhile (·.2 = 0)) = (times 0 xs).filter (·.2 = 0) ∧
      times 0 (xs.dropWhile (·.2 = 0)) = (times 0 xs).filter (·.2 ≠ 0) := by
  induction xs with
  | nil => exact ⟨rfl, rfl⟩
  | cons x xs ih =>
    obtain ⟨a, d⟩ := x
    cases d with
    | zero => simpa [times] using ih
    | succ d =>
      have later : ∀ y ∈ times (d + 1) xs, y.2 ≠ 0 := by
        intro y hy
        have := le_of_mem_times hy
        omega
      have keep : (times (d + 1) xs).filter (·.2 ≠ 0) = times (d + 1) xs :=
        List.filter_eq_self.mpr fun y hy => by simpa using later y hy
      constructor
      · simpa [times] using later
      · simpa [times] using keep.symm

end DeltaList
