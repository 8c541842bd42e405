import RiscvKernel.Counting

/-!
# Who holds the units of a semaphore

* `Custody`: a semaphore with those that hold its units;
* `Custody.Sound`: every unit is with a holder or with the semaphore;
* `Custody.Sound.excludes`: a semaphore of one unit is a lock.
-/

namespace Counting

/-- A semaphore and those that hold units of it, each as often as it holds one. -/
structure Custody (α : Type) extends Semaphore α where
  init : Int
  holders : List α

namespace Custody
variable {α : Type}

def opened (n : Int) : Custody α where
  val := n
  queue := []
  init := n
  holders := []

/-- `t` takes a unit, or queues for one. -/
def wait (c : Custody α) (t : α) : Custody α where
  toSemaphore := c.toSemaphore.wait t
  init := c.init
  holders := if c.val - 1 < 0 then c.holders else t :: c.holders

/-- `t` gives a unit back, and the first in the queue holds it then. -/
def signal [DecidableEq α] (c : Custody α) (t : α) : Custody α where
  toSemaphore := c.toSemaphore.signal
  init := c.init
  holders := c.queue.head?.toList ++ c.holders.erase t

/-- Every unit is with a holder or with the semaphore. -/
structure Sound (c : Custody α) : Prop where
  balanced : c.Balanced
  units : c.holders.length + max c.val 0 = c.init

theorem sound_opened {n : Int} (nonneg : 0 ≤ n) : (opened n : Custody α).Sound := by
  constructor
  · exact Semaphore.balanced_opened nonneg
  · show ((0 : Nat) : Int) + max n 0 = n
    omega

variable {c : Custody α} {t : α}

theorem Sound.wait (sound : c.Sound) (t : α) : (c.wait t).Sound := by
  have units := sound.units
  constructor
  · exact sound.balanced.wait t
  · show ((if _ then _ else _ : List α).length : Int) + max (c.val - 1) 0 = c.init
    split
    · omega
    · rw [List.length_cons]
      omega

theorem Sound.signal [DecidableEq α] (sound : c.Sound) (holds : t ∈ c.holders) :
    (c.signal t).Sound := by
  have units := sound.units
  have heard : c.val + 1 ≤ 0 ↔ c.queue ≠ [] := sound.balanced.heard
  have held : 0 < c.holders.length := List.length_pos_of_mem holds
  have erased : (c.holders.erase t).length = c.holders.length - 1 := List.length_erase_of_mem holds
  constructor
  · exact sound.balanced.signal
  · show ((c.queue.head?.toList ++ c.holders.erase t).length : Int) + max (c.val + 1) 0 = c.init
    cases queue : c.queue with
    | nil =>
      have above : ¬ c.val + 1 ≤ 0 := fun below => heard.mp below queue
      have same : ([] : List α).head?.toList ++ c.holders.erase t = c.holders.erase t := rfl
      rw [same, erased]
      omega
    | cons w ws =>
      have below : c.val + 1 ≤ 0 := heard.mpr (by rw [queue]; exact List.cons_ne_nil w ws)
      have same : (w :: ws).head?.toList ++ c.holders.erase t = w :: c.holders.erase t := rfl
      rw [same, List.length_cons, erased]
      omega

theorem Sound.within (sound : c.Sound) : (c.holders.length : Int) ≤ c.init := by
  have := sound.units
  omega

/-- A holder leaves room for its unit. -/
theorem Sound.room (sound : c.Sound) (holds : t ∈ c.holders) : c.val < c.init := by
  have units := sound.units
  have held : 0 < c.holders.length := List.length_pos_of_mem holds
  omega

/-- **Exclusion.** A semaphore of one unit has one holder at most. -/
theorem Sound.excludes (sound : c.Sound) (one : c.init = 1) {x y : α} (hx : x ∈ c.holders)
    (hy : y ∈ c.holders) : x = y := by
  have within := sound.within
  obtain ⟨z, only⟩ : ∃ z, c.holders = [z] := by
    apply List.length_eq_one_iff.mp
    have held : 0 < c.holders.length := List.length_pos_of_mem hx
    omega
  rw [only] at hx hy
  exact (List.mem_singleton.mp hx).trans (List.mem_singleton.mp hy).symm

end Custody

end Counting
