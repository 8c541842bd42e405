import Mathlib.Data.Nat.Basic

/-!
# Backlogs

A device is polled before each element it takes, and a buffer of bounded length holds
what it has not taken yet. The backlog is the number of elements that wait and the
number of polls so far; `ready n` says whether the `n`-th poll finds the device ready.

* `burst`: how many elements a device takes in a row;
* `flush`, `put`: the backlog after the buffer is drained, and after one more element;
* `burst_eq_iff`: when a burst takes all that waits.
-/

/-- What waits for a device, and the polls so far. -/
structure Backlog where
  pending : Nat
  polls : Nat
  deriving DecidableEq, Repr

namespace Backlog

/-- The number of successful polls from the poll `n` on, when at most `most` are needed. -/
def burst (ready : Nat → Bool) : Nat → Nat → Nat
  | 0, _ => 0
  | most + 1, n => if ready n then burst ready most (n + 1) + 1 else 0

/-- The device takes elements until a poll fails; when none waits there is a last poll. -/
def flush (ready : Nat → Bool) (b : Backlog) : Backlog where
  pending := b.pending - burst ready b.pending b.polls
  polls := b.polls + burst ready b.pending b.polls + 1

def add (b : Backlog) : Backlog := { b with pending := b.pending + 1 }

/-- A full buffer refuses an element when the device takes nothing. -/
def Refuses (ready : Nat → Bool) (capacity : Nat) (b : Backlog) : Prop :=
  b.pending = capacity ∧ (b.flush ready).pending = capacity

instance (ready : Nat → Bool) (capacity : Nat) (b : Backlog) :
    Decidable (b.Refuses ready capacity) := inferInstanceAs (Decidable (_ ∧ _))

/-- One more element: a full buffer is flushed twice. -/
def put (ready : Nat → Bool) (capacity : Nat) (b : Backlog) : Backlog :=
  if b.Refuses ready capacity then b.flush ready
  else if b.pending = capacity then ((b.flush ready).flush ready).add
  else (b.flush ready).add

/-- The backlog after `n` more elements. -/
def puts (ready : Nat → Bool) (capacity : Nat) : Nat → Backlog → Backlog
  | 0, b => b
  | n + 1, b => puts ready capacity n (b.put ready capacity)

/-- None of `n` more elements is refused. -/
def Takes (ready : Nat → Bool) (capacity : Nat) : Nat → Backlog → Prop
  | 0, _ => True
  | n + 1, b => ¬ b.Refuses ready capacity ∧ Takes ready capacity n (b.put ready capacity)

/-- The next polls are successful, one for each element that waits. -/
def Drains (ready : Nat → Bool) (b : Backlog) : Prop := ∀ i < b.pending, ready (b.polls + i) = true

theorem burst_le (ready : Nat → Bool) (most n : Nat) : burst ready most n ≤ most := by
  induction most generalizing n with
  | zero => exact le_rfl
  | succ most ih =>
    unfold burst
    split
    · exact Nat.succ_le_succ (ih (n + 1))
    · exact Nat.zero_le _

/-- A burst goes on while polls are successful. -/
theorem le_burst {ready : Nat → Bool} {m : Nat} (most n : Nat)
    (polls : ∀ i < m, ready (n + i) = true) : min m most ≤ burst ready most n := by
  induction most generalizing m n with
  | zero => exact Nat.min_le_right m 0
  | succ most ih =>
    cases m with
    | zero =>
      rw [Nat.zero_min]
      exact Nat.zero_le _
    | succ m =>
      have later : ∀ i < m, ready (n + 1 + i) = true := by
        intro i hi
        have next := polls (i + 1) (Nat.succ_lt_succ hi)
        rwa [Nat.add_comm i, ← Nat.add_assoc] at next
      have now : ready n = true := polls 0 (Nat.zero_lt_succ m)
      unfold burst
      rw [if_pos now, Nat.succ_min_succ]
      exact Nat.succ_le_succ (ih (n + 1) later)

/-- A burst takes everything exactly when every poll is successful. -/
theorem burst_eq_iff (ready : Nat → Bool) (most n : Nat) :
    burst ready most n = most ↔ ∀ i < most, ready (n + i) = true := by
  induction most generalizing n with
  | zero => exact ⟨fun _ i hi => absurd hi (Nat.not_lt_zero i), fun _ => rfl⟩
  | succ most ih =>
    unfold burst
    split
    · next now =>
      rw [Nat.add_right_cancel_iff, ih]
      constructor
      · intro later i hi
        cases i with
        | zero => exact now
        | succ i =>
          rw [Nat.add_comm i, ← Nat.add_assoc]
          exact later i (Nat.lt_of_succ_lt_succ hi)
      · intro all i hi
        rw [Nat.add_assoc, Nat.add_comm 1]
        exact all (i + 1) (Nat.succ_lt_succ hi)
    · next never =>
      exact ⟨fun h => absurd h (Nat.succ_ne_zero most).symm,
        fun all => absurd (all 0 (Nat.succ_pos most)) never⟩

theorem drains_iff (ready : Nat → Bool) (b : Backlog) :
    b.Drains ready ↔ (b.flush ready).pending = 0 := by
  have le := burst_le ready b.pending b.polls
  unfold Drains
  rw [← burst_eq_iff]
  show _ ↔ b.pending - burst ready b.pending b.polls = 0
  omega

section
variable {ready : Nat → Bool} (always : ∀ n, ready n = true)
include always

/-- A device that is always ready empties the buffer. -/
theorem flush_of_ready (b : Backlog) : (b.flush ready).pending = 0 := by
  have all := (burst_eq_iff ready b.pending b.polls).mpr fun i _ => always _
  show b.pending - burst ready b.pending b.polls = 0
  omega

theorem takes_of_ready {capacity : Nat} (pos : 0 < capacity) (n : Nat) (b : Backlog) :
    b.Takes ready capacity n := by
  induction n generalizing b with
  | zero => trivial
  | succ n ih =>
    refine ⟨fun refuses => ?_, ih _⟩
    have empty := flush_of_ready always b
    have full := refuses.2
    omega

end

end Backlog
