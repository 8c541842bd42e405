import Mathlib.Data.List.Nodup
import Mathlib.Logic.Function.Basic

/-!
# Boards

Queues over one set of items, together with the place of every item.

* `Board ι κ α`: the queues `ι` and the other places `κ`; an item is in one
  place at most, and in a queue exactly where the board says so;
* `enqueue`, `dequeue`, `move`: one item enters or leaves a place;
* `forget`: some items leave their places.
-/

namespace Placement
open Function

/-- A queue, or a place outside the queues. -/
inductive Place (ι κ : Type) where
  | queue (i : ι)
  | spot (x : κ)
  deriving DecidableEq

structure Board (ι κ α : Type) where
  loc : α → Option (Place ι κ)
  queue : ι → List α
  mem_queue : ∀ {i t}, t ∈ queue i ↔ loc t = some (.queue i)
  nodup : ∀ i, (queue i).Nodup

namespace Board
variable {ι κ α : Type}

/-- The item is in no queue. -/
def Loose (b : Board ι κ α) (t : α) : Prop := ∀ i, b.loc t ≠ some (.queue i)

theorem Loose.notMem {b : Board ι κ α} {t : α} (h : b.Loose t) (i : ι) : t ∉ b.queue i :=
  fun hm => h i (b.mem_queue.mp hm)

theorem loose_of_none {b : Board ι κ α} {t : α} (h : b.loc t = none) : b.Loose t := by
  intro i hi
  rw [h] at hi
  cases hi

theorem loose_of_spot {b : Board ι κ α} {t : α} {x : κ} (h : b.loc t = some (.spot x)) :
    b.Loose t := by
  intro i hi
  rw [h] at hi
  cases hi

/-- No item is in two queues. -/
theorem apart (b : Board ι κ α) {i j : ι} {t : α} (hi : t ∈ b.queue i) (hj : t ∈ b.queue j) :
    i = j := by
  have := (b.mem_queue.mp hi).symm.trans (b.mem_queue.mp hj)
  simpa using this

theorem loc_head (b : Board ι κ α) {i : ι} {t : α} {ts : List α} (h : b.queue i = t :: ts) :
    b.loc t = some (.queue i) :=
  b.mem_queue.mp (by simp [h])

/-- No item has a place. -/
def empty : Board ι κ α where
  loc := fun _ => none
  queue := fun _ => []
  mem_queue := by simp
  nodup := fun _ => List.nodup_nil

variable [DecidableEq α]

/-- An item outside the queues moves to the spot `x`, or to no place at all. -/
def move (b : Board ι κ α) (t : α) (x : Option κ) (loose : b.Loose t) : Board ι κ α where
  loc := update b.loc t (x.map .spot)
  queue := b.queue
  mem_queue := by
    intro i s
    by_cases h : s = t
    · subst h
      rw [update_self]
      constructor
      · exact fun hm => absurd hm (loose.notMem i)
      · cases x <;> simp
    · rw [update_of_ne h]
      exact b.mem_queue
  nodup := b.nodup

@[simp] theorem move_loc (b : Board ι κ α) {t : α} {x : Option κ} (h : b.Loose t) :
    (b.move t x h).loc = update b.loc t (x.map .spot) := rfl
@[simp] theorem move_queue (b : Board ι κ α) {t : α} {x : Option κ} (h : b.Loose t) :
    (b.move t x h).queue = b.queue := rfl

/-- The items `ts` have no place any more. -/
def forget (b : Board ι κ α) (ts : List α) : Board ι κ α where
  loc := fun t => if t ∈ ts then none else b.loc t
  queue := fun i => (b.queue i).filter (· ∉ ts)
  mem_queue := by
    intro i t
    by_cases h : t ∈ ts
    · simp [h]
    · simp [h, b.mem_queue]
  nodup := fun i => (b.nodup i).filter _

@[simp] theorem forget_loc (b : Board ι κ α) (ts : List α) (t : α) :
    (b.forget ts).loc t = if t ∈ ts then none else b.loc t := rfl

theorem forget_queue (b : Board ι κ α) (ts : List α) (i : ι) :
    (b.forget ts).queue i = (b.queue i).filter (· ∉ ts) := rfl

/-- Items outside the queues can be forgotten without a change to the queues. -/
theorem forget_queue_loose (b : Board ι κ α) {ts : List α} (loose : ∀ t ∈ ts, b.Loose t) :
    (b.forget ts).queue = b.queue := by
  funext i
  refine List.filter_eq_self.mpr fun t ht => ?_
  have : t ∉ ts := fun hts => (loose t hts).notMem i ht
  simpa using this

/-- Forgetting a queue empties it and leaves the others as they are. -/
theorem forget_queue_self (b : Board ι κ α) (i : ι) : (b.forget (b.queue i)).queue i = [] :=
  List.filter_eq_nil_iff.mpr fun t ht => by simpa using ht

theorem forget_queue_other (b : Board ι κ α) {i j : ι} (h : j ≠ i) :
    (b.forget (b.queue i)).queue j = b.queue j := by
  refine List.filter_eq_self.mpr fun t ht => ?_
  have : t ∉ b.queue i := fun hi => h (b.apart ht hi)
  simpa using this

variable [DecidableEq ι]

/-- An item with no place goes to the end of the queue `i`. -/
def enqueue (b : Board ι κ α) (i : ι) (t : α) (free : b.loc t = none) : Board ι κ α where
  loc := update b.loc t (some (.queue i))
  queue := update b.queue i (b.queue i ++ [t])
  mem_queue := by
    intro j s
    have loose := (loose_of_none free).notMem
    have known := @b.mem_queue j s
    by_cases hj : j = i
    · subst hj
      by_cases hs : s = t
      · subst hs
        simp
      · simp [hs, known]
    · rw [update_of_ne hj, update_apply]
      split
      · next h => subst h; simp [loose j, Ne.symm hj]
      · exact known
  nodup := by
    intro j
    by_cases hj : j = i
    · subst hj
      rw [update_self]
      have out := (loose_of_none free).notMem j
      exact (b.nodup j).append (List.nodup_singleton t) (by simpa using out)
    · rw [update_of_ne hj]
      exact b.nodup j

/-- The first item of the queue `i` leaves it. -/
def dequeue (b : Board ι κ α) (i : ι) (t : α) (ts : List α) (first : b.queue i = t :: ts) :
    Board ι κ α where
  loc := update b.loc t none
  queue := update b.queue i ts
  mem_queue := by
    intro j s
    have known := @b.mem_queue j s
    have here := b.loc_head first
    have out : t ∉ ts := (List.nodup_cons.mp (first ▸ b.nodup i)).1
    by_cases hs : s = t
    · subst hs
      rw [update_self]
      by_cases hj : j = i
      · subst hj
        simpa using out
      · rw [update_of_ne hj, known, here]
        simp [Ne.symm hj]
    · rw [update_of_ne hs, ← known]
      by_cases hj : j = i
      · subst hj
        simp [first, hs]
      · rw [update_of_ne hj]
  nodup := by
    intro j
    by_cases hj : j = i
    · subst hj
      rw [update_self]
      exact (List.nodup_cons.mp (first ▸ b.nodup j)).2
    · rw [update_of_ne hj]
      exact b.nodup j

section
variable (b : Board ι κ α) {i : ι} {t : α} {ts : List α}

@[simp] theorem enqueue_loc (h : b.loc t = none) :
    (b.enqueue i t h).loc = update b.loc t (some (.queue i)) := rfl
@[simp] theorem enqueue_queue (h : b.loc t = none) :
    (b.enqueue i t h).queue = update b.queue i (b.queue i ++ [t]) := rfl
@[simp] theorem dequeue_loc (h : b.queue i = t :: ts) :
    (b.dequeue i t ts h).loc = update b.loc t none := rfl
@[simp] theorem dequeue_queue (h : b.queue i = t :: ts) :
    (b.dequeue i t ts h).queue = update b.queue i ts := rfl

end

end Board

end Placement
