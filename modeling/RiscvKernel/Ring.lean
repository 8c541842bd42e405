import RiscvKernel.Board

/-!
# Intrusive rings

A circular doubly linked list over a memory of `next` and `prev` pointers, as a
finite list of nodes read from its head pointer.

* `Path l a xs b`: from `a` through `xs` to `b`, linked both ways;
* `IsRing l head xs`: the ring at `head` is `xs`; the head is null when it is empty;
* `ring_push`, `ring_pop`, `ring_insert`, `ring_unlink`: inserting before the head appends,
  unlinking the head removes it, and links of other nodes keep their values;
* `Family`: the queues of a board, as rings that share one memory.
-/

namespace Intrusive
open Function Placement Board

/-- The `next` and `prev` members of every node. -/
structure Links where
  next : Nat → Nat
  prev : Nat → Nat

namespace Links

def setNext (l : Links) (a b : Nat) : Links := { l with next := update l.next a b }

def setPrev (l : Links) (a b : Nat) : Links := { l with prev := update l.prev a b }

/-- Insert `n` before `head`. -/
def insert (l : Links) (head n : Nat) : Links :=
  let l := l.setPrev n (l.prev head)
  let l := l.setNext n head
  let l := l.setNext (l.prev head) n
  l.setPrev head n

/-- Make the neighbours of `n` point at each other. -/
def unlink (l : Links) (n : Nat) : Links :=
  let l := l.setNext (l.prev n) (l.next n)
  l.setPrev (l.next n) (l.prev n)

/-- Append `n` to the ring at `head`; the result is the memory and the new head. -/
def push (l : Links) (head n : Nat) : Links × Nat :=
  if head = 0 then ((l.setNext n n).setPrev n n, n) else (l.insert head n, head)

/-- Remove the first node of the ring at `head`, which is not null; the result
is the memory and the new head. -/
def pop (l : Links) (head : Nat) : Links × Nat :=
  if l.next head = head then (l, 0) else
    let l' := l.unlink head
    (l', l'.next head)

end Links

/-- From `a` through `xs` to `b`, consecutive nodes are linked both ways. -/
def Path (l : Links) : Nat → List Nat → Nat → Prop
  | a, [], b => l.next a = b ∧ l.prev b = a
  | a, c :: cs, b => l.next a = c ∧ l.prev c = a ∧ Path l c cs b

/-- The ring at `head` holds the nodes `xs`, in `next` order. -/
def IsRing (l : Links) (head : Nat) : List Nat → Prop
  | [] => head = 0
  | x :: xs => head = x ∧ Path l x xs x ∧ (x :: xs).Nodup ∧ 0 ∉ x :: xs

theorem path_append {l : Links} {a b c : Nat} {xs ys : List Nat} :
    Path l a (xs ++ c :: ys) b ↔ Path l a xs c ∧ Path l c ys b := by
  induction xs generalizing a with
  | nil => simp [Path, and_assoc]
  | cons x xs ih => simp only [List.cons_append, Path, ih, and_assoc]

/-- The node before the end of a path is on the path. -/
theorem Path.last_mem {l : Links} {a b : Nat} {xs : List Nat} (h : Path l a xs b) :
    l.prev b ∈ a :: xs := by
  induction xs generalizing a with
  | nil => simp [h.2]
  | cons x xs ih => exact List.mem_cons_of_mem a (ih h.2.2)

/-- The last node of a path is linked to its end. -/
theorem Path.next_last {l : Links} {a b : Nat} {xs : List Nat} (h : Path l a xs b) :
    l.next (l.prev b) = b := by
  induction xs generalizing a with
  | nil =>
    obtain ⟨next, prev⟩ := h
    rw [prev, next]
  | cons x xs ih => exact ih h.2.2

theorem Path.prev_next {l : Links} {a b : Nat} {xs : List Nat} (h : Path l a xs b) :
    l.prev (l.next a) = a := by
  cases xs with
  | nil => rw [h.1, h.2]
  | cons x xs => rw [h.1, h.2.1]

/-- A path reads `next` of its nodes but the end and `prev` of its nodes but the start. -/
theorem Path.congr {l l' : Links} {a b : Nat} {xs : List Nat} (h : Path l a xs b)
    (next : ∀ y ∈ a :: xs, l'.next y = l.next y)
    (prev : ∀ y ∈ xs ++ [b], l'.prev y = l.prev y) : Path l' a xs b := by
  induction xs generalizing a with
  | nil => exact ⟨(next a (by simp)).trans h.1, (prev b (by simp)).trans h.2⟩
  | cons x xs ih =>
    refine ⟨(next a (by simp)).trans h.1, (prev x (by simp)).trans h.2.1, ih h.2.2 ?_ ?_⟩
    · exact fun y hy => next y (List.mem_cons_of_mem a hy)
    · exact fun y hy => prev y (by simpa using Or.inr (by simpa using hy))

/-- A path is led to another end by one write at each side of its last link. -/
theorem Path.redirect {l l' : Links} {a b c : Nat} {xs : List Nat} (h : Path l a xs b)
    (nodup : (a :: xs).Nodup) (next : ∀ y ∈ a :: xs, y ≠ l.prev b → l'.next y = l.next y)
    (prev : ∀ y ∈ xs, l'.prev y = l.prev y) (out : l'.next (l.prev b) = c)
    (back : l'.prev c = l.prev b) : Path l' a xs c := by
  induction xs generalizing a with
  | nil =>
    obtain ⟨-, rfl⟩ := h
    exact ⟨out, back⟩
  | cons x xs ih =>
    have last := h.2.2.last_mem
    have apart : a ≠ l.prev b := by
      rintro rfl
      exact (List.nodup_cons.mp nodup).1 last
    refine ⟨(next a (by simp) apart).trans h.1, (prev x (by simp)).trans h.2.1,
      ih h.2.2 (List.nodup_cons.mp nodup).2 ?_ ?_⟩
    · exact fun y hy => next y (List.mem_cons_of_mem a hy)
    · exact fun y hy => prev y (List.mem_cons_of_mem x hy)

theorem IsRing.nodup {l : Links} {head : Nat} {xs : List Nat} (h : IsRing l head xs) :
    xs.Nodup := by
  cases xs with
  | nil => exact List.nodup_nil
  | cons x xs => exact h.2.2.1

theorem IsRing.not_null {l : Links} {head : Nat} {xs : List Nat} (h : IsRing l head xs) :
    0 ∉ xs := by
  cases xs with
  | nil => exact List.not_mem_nil
  | cons x xs => exact h.2.2.2

theorem IsRing.head_eq {l : Links} {head x : Nat} {xs : List Nat} (h : IsRing l head (x :: xs)) :
    head = x := h.1

theorem IsRing.head_null {l : Links} {head : Nat} {xs : List Nat} (h : IsRing l head xs) :
    head = 0 ↔ xs = [] := by
  cases xs with
  | nil => simpa [IsRing] using h
  | cons x xs =>
    obtain ⟨rfl, -, -, h0⟩ := h
    simp only [reduceCtorEq, iff_false]
    rintro rfl
    exact h0 List.mem_cons_self

/-- The head pointer and the memory determine the nodes of a ring. -/
theorem Path.unique {l : Links} {a b : Nat} {xs ys : List Nat} (h : Path l a xs b)
    (h' : Path l a ys b) (hx : b ∉ xs) (hy : b ∉ ys) : xs = ys := by
  induction xs generalizing a ys with
  | nil =>
    cases ys with
    | nil => rfl
    | cons y ys =>
      obtain rfl : b = y := h.1.symm.trans h'.1
      exact absurd List.mem_cons_self hy
  | cons x xs ih =>
    cases ys with
    | nil =>
      obtain rfl : x = b := h.1.symm.trans h'.1
      exact absurd List.mem_cons_self hx
    | cons y ys =>
      obtain rfl : x = y := h.1.symm.trans h'.1
      rw [ih h.2.2 h'.2.2 (fun hm => hx (List.mem_cons_of_mem _ hm))
        (fun hm => hy (List.mem_cons_of_mem _ hm))]

theorem IsRing.unique {l : Links} {head : Nat} {xs ys : List Nat} (h : IsRing l head xs)
    (h' : IsRing l head ys) : xs = ys := by
  cases xs with
  | nil => exact (h'.head_null.mp h).symm
  | cons x xs =>
    cases ys with
    | nil => exact absurd (h.head_null.mp h') (by simp)
    | cons y ys =>
      obtain ⟨rfl, p, nd, -⟩ := h
      obtain ⟨rfl, p', nd', -⟩ := h'
      rw [p.unique p' (List.nodup_cons.mp nd).1 (List.nodup_cons.mp nd').1]

theorem IsRing.congr {l l' : Links} {head : Nat} {xs : List Nat} (h : IsRing l head xs)
    (next : ∀ y ∈ xs, l'.next y = l.next y) (prev : ∀ y ∈ xs, l'.prev y = l.prev y) :
    IsRing l' head xs := by
  cases xs with
  | nil => exact h
  | cons x xs =>
    refine ⟨h.1, h.2.1.congr next ?_, h.2.2⟩
    intro y hy
    exact prev y (by simpa [or_comm] using hy)

/-- **Appending to a ring.** -/
theorem ring_push {l : Links} {head n : Nat} {xs : List Nat} (h : IsRing l head xs) (hn : n ∉ xs)
    (h0 : n ≠ 0) : IsRing (l.push head n).1 (l.push head n).2 (xs ++ [n]) ∧
      ∀ y, y ∉ xs → y ≠ n →
        (l.push head n).1.next y = l.next y ∧ (l.push head n).1.prev y = l.prev y := by
  cases xs with
  | nil =>
    obtain rfl : head = 0 := h
    refine ⟨⟨rfl, ?_, by simp, by simpa using h0.symm⟩, ?_⟩
    · simp [Links.push, Links.setNext, Links.setPrev, Path]
    · intro y _ hy
      simp [Links.push, Links.setNext, Links.setPrev, hy]
  | cons x xs =>
    have nonzero : head ≠ 0 := fun e => by simpa using h.head_null.mp e
    obtain ⟨rfl, path, nodup, notNull⟩ := h
    obtain ⟨hx, -⟩ := List.nodup_cons.mp nodup
    have last := path.last_mem
    have hnx : n ≠ head := fun e => hn (by simp [e])
    have hnz : n ≠ l.prev head := fun e => hn (e ▸ last)
    -- the four writes of `insert`
    have hnext : (l.push head n).1.next =
        update (update l.next n head) (l.prev head) n := by
      simp [Links.push, nonzero, Links.insert, Links.setNext, Links.setPrev, hnx.symm]
    have hprev : (l.push head n).1.prev =
        update (update l.prev n (l.prev head)) head n := by
      simp [Links.push, nonzero, Links.insert, Links.setNext, Links.setPrev]
    have hhead : (l.push head n).2 = head := by simp [Links.push, nonzero]
    rw [hhead]
    refine ⟨⟨rfl, path_append.mpr ⟨path.redirect nodup ?_ ?_ ?_ ?_, ?_, ?_⟩, ?_, ?_⟩, ?_⟩
    · intro y hy hyl
      have : y ≠ n := fun e => hn (e ▸ hy)
      rw [hnext, update_of_ne hyl, update_of_ne this]
    · intro y hy
      have : y ≠ n := fun e => hn (e ▸ List.mem_cons_of_mem _ hy)
      have : y ≠ head := fun e => hx (e ▸ hy)
      rw [hprev, update_of_ne this, update_of_ne ‹y ≠ n›]
    · rw [hnext, update_self]
    · rw [hprev, update_of_ne hnx, update_self]
    · rw [hnext, update_of_ne hnz, update_self]
    · rw [hprev, update_self]
    · exact nodup.append (List.nodup_singleton n) (by simpa using hn)
    · simpa [h0.symm] using notNull
    · intro y hy hyn
      have hyl : y ≠ l.prev head := fun e => hy (e ▸ last)
      have hyh : y ≠ head := fun e => hy (by simp [e])
      rw [hnext, hprev, update_of_ne hyl, update_of_ne hyn,
        update_of_ne hyh, update_of_ne hyn]
      exact ⟨rfl, rfl⟩

/-- **Removing the head of a ring.** -/
theorem ring_pop {l : Links} {head x : Nat} {xs : List Nat} (h : IsRing l head (x :: xs)) :
    IsRing (l.pop head).1 (l.pop head).2 xs ∧
      ∀ y, y ∉ x :: xs →
        (l.pop head).1.next y = l.next y ∧ (l.pop head).1.prev y = l.prev y := by
  obtain ⟨rfl, path, nodup, notNull⟩ := h
  cases xs with
  | nil =>
    have self : l.next head = head := path.1
    simp [Links.pop, self, IsRing]
  | cons y ys =>
    obtain ⟨hx, nodup'⟩ := List.nodup_cons.mp nodup
    have hxy : head ≠ y := fun e => hx (by simp [e])
    have first : l.next head = y := path.1
    have last := path.2.2.last_mem
    have hxz : head ≠ l.prev head := fun e => hx (e ▸ last)
    have hnext : (l.pop head).1.next = update l.next (l.prev head) y := by
      simp [Links.pop, hxy.symm, Links.unlink, Links.setNext, Links.setPrev, first]
    have hprev : (l.pop head).1.prev = update l.prev y (l.prev head) := by
      simp [Links.pop, hxy.symm, Links.unlink, Links.setNext, Links.setPrev, first, hxz]
    have hhead : (l.pop head).2 = y := by
      simp [Links.pop, hxy.symm, Links.unlink, Links.setNext, Links.setPrev, first, hxz]
    rw [hhead]
    refine ⟨⟨rfl, path.2.2.redirect nodup' ?_ ?_ ?_ ?_, nodup', ?_⟩, ?_⟩
    · intro z _ hz
      rw [hnext, update_of_ne hz]
    · intro z hz
      have : z ≠ y := fun e => (List.nodup_cons.mp nodup').1 (e ▸ hz)
      rw [hprev, update_of_ne this]
    · rw [hnext, update_self]
    · rw [hprev, update_self]
    · exact fun hm => notNull (List.mem_cons_of_mem _ hm)
    · intro z hz
      have hzl : z ≠ l.prev head := fun e => hz (e ▸ List.mem_cons_of_mem _ last)
      have hzy : z ≠ y := fun e => hz (by simp [e])
      rw [hnext, hprev, update_of_ne hzl, update_of_ne hzy]
      exact ⟨rfl, rfl⟩

/-- A ring read from another of its nodes. -/
theorem IsRing.rotate {l : Links} {head y : Nat} (xs : List Nat) {ys : List Nat}
    (h : IsRing l head (xs ++ y :: ys)) : IsRing l y (y :: ys ++ xs) := by
  cases xs with
  | nil =>
    obtain rfl : head = y := h.1
    simpa using h
  | cons x xs =>
    obtain ⟨rfl, path, nodup, notNull⟩ := h
    obtain ⟨before, after⟩ := path_append.mp path
    have perm : (head :: xs ++ y :: ys).Perm (y :: ys ++ head :: xs) := List.perm_append_comm
    exact ⟨rfl, path_append.mpr ⟨after, before⟩, perm.nodup_iff.mp nodup,
      fun hm => notNull (perm.mem_iff.mpr hm)⟩

/-- The node after `x`, which is the head when `x` is the last one. -/
theorem IsRing.next_eq {l : Links} {head x : Nat} {front back : List Nat}
    (h : IsRing l head (front ++ x :: back)) :
    l.next x = (back ++ (front ++ [x])).headD 0 := by
  obtain ⟨-, path, -⟩ := IsRing.rotate _ h
  cases back with
  | nil =>
    cases front with
    | nil => exact path.1
    | cons y ys => exact path.1
  | cons y ys => exact path.1

theorem IsRing.prev_next {l : Links} {head x : Nat} {xs : List Nat} (h : IsRing l head xs)
    (mem : x ∈ xs) : l.prev (l.next x) = x := by
  obtain ⟨front, back, rfl⟩ := List.append_of_mem mem
  exact (IsRing.rotate _ h).2.1.prev_next

/-- The last node of a ring is linked to the head. -/
theorem IsRing.last {l : Links} {head : Nat} {xs : List Nat} (h : IsRing l head xs)
    (nonempty : xs ≠ []) : l.prev head ∈ xs ∧ l.next (l.prev head) = head := by
  cases xs with
  | nil => exact absurd rfl nonempty
  | cons x xs =>
    obtain ⟨rfl, path, -⟩ := h
    exact ⟨path.last_mem, path.next_last⟩

theorem IsRing.next_prev {l : Links} {head x : Nat} {xs : List Nat} (h : IsRing l head xs)
    (mem : x ∈ xs) : l.next (l.prev x) = x := by
  obtain ⟨front, back, rfl⟩ := List.append_of_mem mem
  exact (IsRing.last (IsRing.rotate _ h) (by simp)).2

theorem IsRing.head_mem {l : Links} {head : Nat} {xs : List Nat} (h : IsRing l head xs)
    (nonempty : xs ≠ []) : xs.headD 0 = head := by
  cases xs with
  | nil => exact absurd rfl nonempty
  | cons x xs => exact h.head_eq.symm

/-- The walk along a ring is back at the head after the last node only. -/
theorem IsRing.next_eq_head {l : Links} {head x : Nat} {front back : List Nat}
    (h : IsRing l head (front ++ x :: back)) : l.next x = head ↔ back = [] := by
  have first := h.head_mem (by simp)
  rw [h.next_eq, ← first]
  cases back with
  | nil => cases front <;> simp
  | cons y ys =>
    have nodup := h.nodup
    cases front with
    | nil =>
      simp only [List.nil_append, List.nodup_cons, List.mem_cons, not_or] at nodup
      simpa using Ne.symm nodup.1.1
    | cons z zs =>
      simp only [List.cons_append, List.nodup_cons, List.mem_append, List.mem_cons, not_or] at nodup
      simpa using Ne.symm nodup.1.2.2.1

theorem IsRing.next_first {l : Links} {head x : Nat} {back : List Nat}
    (h : IsRing l head (x :: back)) : l.next x = (back ++ [x]).headD 0 :=
  @IsRing.next_eq _ _ _ [] _ h

theorem IsRing.first_only {l : Links} {head x : Nat} {back : List Nat}
    (h : IsRing l head (x :: back)) : l.next x = head ↔ back = [] :=
  @IsRing.next_eq_head _ _ _ [] _ h

/-- **Unlinking a node behind the head.** -/
theorem ring_unlink {l : Links} {head n : Nat} {front back : List Nat}
    (h : IsRing l head (front ++ n :: back)) (behind : front ≠ []) :
    IsRing (l.unlink n) head (front ++ back) := by
  have next := h.next_eq
  have nodup := h.nodup
  obtain ⟨x, xs, rfl⟩ := List.exists_cons_of_ne_nil behind
  obtain rfl : head = x := h.head_eq
  have more : l.next n ≠ n := by
    rw [next]
    cases back with
    | nil => simpa using (List.disjoint_of_nodup_append nodup) (by simp)
    | cons y ys =>
      simp only [List.nodup_append, List.nodup_cons, List.mem_cons, not_or] at nodup
      simpa using Ne.symm nodup.2.1.1.1
  have popped := (ring_pop (IsRing.rotate _ h)).1
  rw [Links.pop, if_neg more] at popped
  exact IsRing.rotate _ popped

/-- The `next` pointers along `xs`, the last one to `e`. -/
def Chain (l : Links) (e : Nat) : List Nat → Prop
  | [] => True
  | x :: xs => l.next x = xs.headD e ∧ Chain l e xs

theorem Path.chain {l : Links} {a b : Nat} {xs : List Nat} (h : Path l a xs b) :
    Chain l b (a :: xs) := by
  induction xs generalizing a with
  | nil => exact ⟨h.1, trivial⟩
  | cons x xs ih => exact ⟨h.1, ih h.2.2⟩

theorem IsRing.chain {l : Links} {head : Nat} {xs : List Nat} (h : IsRing l head xs) :
    Chain l head xs := by
  cases xs with
  | nil => trivial
  | cons x xs =>
    obtain ⟨rfl, path, -⟩ := h
    exact path.chain

theorem Chain.congr {l l' : Links} {e : Nat} {xs : List Nat} (h : Chain l e xs)
    (same : ∀ x ∈ xs, l'.next x = l.next x) : Chain l' e xs := by
  induction xs with
  | nil => trivial
  | cons x xs ih =>
    exact ⟨(same x List.mem_cons_self).trans h.1,
      ih h.2 fun y hy => same y (List.mem_cons_of_mem x hy)⟩

/-- **Inserting in a ring**, before the first node of `back`; before the first
node of all, the new node is the head. -/
theorem ring_insert {l : Links} {head n : Nat} {front back : List Nat}
    (h : IsRing l head (front ++ back)) (nonempty : front ++ back ≠ []) (hn : n ∉ front ++ back)
    (h0 : n ≠ 0) : IsRing (l.insert ((back ++ front).headD 0) n) ((front ++ [n]).headD 0)
      (front ++ n :: back) := by
  -- the ring read from the node the insertion is at
  have turned : IsRing l ((back ++ front).headD 0) (back ++ front) := by
    cases back with
    | nil =>
      cases front with
      | nil => exact absurd rfl nonempty
      | cons x xs =>
        rw [List.append_nil] at h
        obtain rfl := h.head_eq
        exact h
    | cons y ys => exact IsRing.rotate _ h
  have nonzero : (back ++ front).headD 0 ≠ 0 := by
    intro e
    have := turned.head_null.mp e
    exact nonempty (List.append_eq_nil_iff.mpr (List.append_eq_nil_iff.mp this).symm)
  have pushed := (ring_push turned (by simpa [or_comm] using hn) h0).1
  have eq : l.push ((back ++ front).headD 0) n =
      (l.insert ((back ++ front).headD 0) n, (back ++ front).headD 0) := by
    rw [Links.push, if_neg nonzero]
  rw [eq] at pushed
  cases front with
  | nil => simpa using IsRing.rotate (back ++ []) pushed
  | cons x xs =>
    rw [List.append_assoc] at pushed
    simpa using IsRing.rotate back pushed

/-! ## Several rings in one memory -/

section
variable {ι κ : Type}

/-- The rings named by `active`, at the head pointers `head`, hold the queues of
the board `b`; no other queue has an item. -/
structure Family (l : Links) (head : ι → Nat) (active : ι → Prop) (b : Board ι κ Nat) : Prop where
  ring : ∀ i, active i → IsRing l (head i) (b.queue i)
  idle : ∀ i, ¬ active i → b.queue i = []

variable {l : Links} {head : ι → Nat} {active : ι → Prop} {b : Board ι κ Nat}

theorem Family.not_null (h : Family l head active b) (i : ι) : 0 ∉ b.queue i := by
  by_cases hi : active i
  · exact (h.ring i hi).not_null
  · simp [h.idle i hi]

/-- Only the queues count. -/
theorem Family.same_queues {b' : Board ι κ Nat} (h : Family l head active b)
    (same : b'.queue = b.queue) : Family l head active b' :=
  ⟨fun i hi => same ▸ h.ring i hi, fun i hi => same ▸ h.idle i hi⟩

variable [DecidableEq ι]

theorem Family.push (h : Family l head active b) {i : ι} (hi : active i) {n : Nat} (h0 : n ≠ 0)
    (free : b.loc n = none) :
    Family (l.push (head i) n).1 (update head i (l.push (head i) n).2) active
      (b.enqueue i n free) := by
  have out := (loose_of_none free).notMem
  obtain ⟨pushed, frame⟩ := ring_push (h.ring i hi) (out i) h0
  refine ⟨fun j hj => ?_, fun j hj => ?_⟩
  · rw [enqueue_queue]
    by_cases hji : j = i
    · subst hji
      rwa [update_self, update_self]
    · rw [update_of_ne hji, update_of_ne hji]
      have other : ∀ y ∈ b.queue j, y ∉ b.queue i ∧ y ≠ n := fun y hy =>
        ⟨fun hy' => hji (b.apart hy hy'), fun e => out j (e ▸ hy)⟩
      exact (h.ring j hj).congr (fun y hy => (frame y (other y hy).1 (other y hy).2).1)
        (fun y hy => (frame y (other y hy).1 (other y hy).2).2)
  · have hji : j ≠ i := fun e => hj (e ▸ hi)
    rw [enqueue_queue, update_of_ne hji]
    exact h.idle j hj

theorem Family.pop (h : Family l head active b) {i : ι} (hi : active i) {x : Nat} {xs : List Nat}
    (first : b.queue i = x :: xs) :
    head i = x ∧ Family (l.pop (head i)).1 (update head i (l.pop (head i)).2) active
      (b.dequeue i x xs first) := by
  have ring := h.ring i hi
  rw [first] at ring
  obtain ⟨popped, frame⟩ := ring_pop ring
  refine ⟨ring.head_eq, fun j hj => ?_, fun j hj => ?_⟩
  · rw [dequeue_queue]
    by_cases hji : j = i
    · subst hji
      rwa [update_self, update_self]
    · rw [update_of_ne hji, update_of_ne hji]
      have other : ∀ y ∈ b.queue j, y ∉ x :: xs := fun y hy hy' =>
        hji (b.apart hy (first ▸ hy'))
      exact (h.ring j hj).congr (fun y hy => (frame y (other y hy)).1)
        (fun y hy => (frame y (other y hy)).2)
  · have hji : j ≠ i := fun e => hj (e ▸ hi)
    rw [dequeue_queue, update_of_ne hji]
    exact h.idle j hj

end

end Intrusive
