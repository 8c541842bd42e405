import Mathlib.Data.Finset.Card
import Mathlib.Data.List.Infix

/-!
# Counting semaphores

A count that goes below zero, and the queue of those who wait.

* `Semaphore.wait`, `Semaphore.signal`: the two operations;
* `Semaphore.Balanced`: as many wait as the count lies below zero;
* `Account`: a semaphore with what happened to it since it was opened, and
  `Account.Sound`: the count and the queue agree with that;
* `crowd`: how many of those who use it are at one point of their program.
-/

namespace Counting
open Function

structure Semaphore (α : Type) where
  val : Int
  queue : List α

namespace Semaphore
variable {α : Type}

/-- `t` takes a unit, or queues for one. -/
def wait (s : Semaphore α) (t : α) : Semaphore α where
  val := s.val - 1
  queue := if s.val - 1 < 0 then s.queue ++ [t] else s.queue

/-- A unit comes back, and goes to the first in the queue. -/
def signal (s : Semaphore α) : Semaphore α where
  val := s.val + 1
  queue := if s.val + 1 ≤ 0 then s.queue.tail else s.queue

/-- As many wait as the count lies below zero. -/
def Balanced (s : Semaphore α) : Prop := s.queue.length = (-s.val).toNat

variable {s : Semaphore α}

theorem balanced_opened {n : Int} (h : 0 ≤ n) : Balanced (⟨n, []⟩ : Semaphore α) := by
  show 0 = (-n).toNat
  omega

theorem Balanced.wait (h : s.Balanced) (t : α) : (s.wait t).Balanced := by
  have h : s.queue.length = (-s.val).toNat := h
  show (if _ then _ else _ : List α).length = (-(s.val - 1)).toNat
  split
  · rw [List.length_append, List.length_singleton]
    omega
  · omega

theorem Balanced.signal (h : s.Balanced) : s.signal.Balanced := by
  have h : s.queue.length = (-s.val).toNat := h
  show (if _ then _ else _ : List α).length = (-(s.val + 1)).toNat
  split
  · rw [List.length_tail]
    omega
  · omega

/-- A signal that leaves the count at zero or below finds someone. -/
theorem Balanced.heard (h : s.Balanced) : s.val + 1 ≤ 0 ↔ s.queue ≠ [] := by
  have h : s.queue.length = (-s.val).toNat := h
  rw [← List.length_pos_iff]
  omega

theorem Balanced.signal_queue (h : s.Balanced) : s.signal.queue = s.queue.tail := by
  show (if _ then _ else _) = _
  split
  · rfl
  · next above =>
    rw [not_not.mp (h.heard.not.mp above)]
    rfl

end Semaphore

/-- A semaphore that was opened with `init` units; since then `waits` and `signals`
came, and `blocked` queued in this order. -/
structure Account (α : Type) extends Semaphore α where
  init : Int
  waits : Nat
  signals : Nat
  blocked : List α

namespace Account
variable {α : Type}

def opened (n : Int) : Account α where
  val := n
  queue := []
  init := n
  waits := 0
  signals := 0
  blocked := []

def wait (a : Account α) (t : α) : Account α where
  toSemaphore := a.toSemaphore.wait t
  init := a.init
  waits := a.waits + 1
  signals := a.signals
  blocked := if a.val - 1 < 0 then a.blocked ++ [t] else a.blocked

def signal (a : Account α) : Account α where
  toSemaphore := a.toSemaphore.signal
  init := a.init
  waits := a.waits
  signals := a.signals + 1
  blocked := a.blocked

structure Sound (a : Account α) : Prop where
  val : a.val = a.init + a.signals - a.waits
  balanced : a.Balanced
  order : a.queue <:+ a.blocked
  passed : a.blocked.length ≤ a.waits

theorem sound_opened {n : Int} (h : 0 ≤ n) : (opened n : Account α).Sound :=
  ⟨by simp [opened], Semaphore.balanced_opened h, List.suffix_refl _, le_rfl⟩

variable {a : Account α}

theorem Sound.wait (h : a.Sound) (t : α) : (a.wait t).Sound := by
  have val := h.val
  have passed := h.passed
  obtain ⟨front, order⟩ := h.order
  refine ⟨?_, h.balanced.wait t, ?_, ?_⟩
  · show a.val - 1 = a.init + a.signals - (a.waits + 1 : Nat)
    omega
  · show (if _ then _ else _) <:+ (if _ then _ else _)
    split
    · exact ⟨front, by rw [← List.append_assoc, order]⟩
    · exact h.order
  · show (if _ then _ else _ : List α).length ≤ a.waits + 1
    split
    · rw [List.length_append, List.length_singleton]
      omega
    · omega

theorem Sound.signal (h : a.Sound) : a.signal.Sound := by
  have val := h.val
  refine ⟨?_, h.balanced.signal, ?_, h.passed⟩
  · show a.val + 1 = a.init + (a.signals + 1 : Nat) - a.waits
    omega
  · show a.toSemaphore.signal.queue <:+ a.blocked
    rw [h.balanced.signal_queue]
    exact (List.tail_suffix a.queue).trans h.order

/-- **Permits.** No more waits are over than there were units. -/
theorem Sound.succeeded (h : a.Sound) : (a.waits : Int) - a.queue.length ≤ a.init + a.signals := by
  have val := h.val
  have balanced : a.queue.length = (-a.val).toNat := h.balanced
  omega

end Account

/-! ## Crowds -/

section
variable {α β : Type}

/-- How many of `busy` are in a state with the property `φ`. -/
def crowd (busy : Finset α) (state : α → β) (φ : β → Bool) : Nat :=
  (busy.filter fun t => φ (state t)).card

variable {busy : Finset α} {state : α → β} {t : α} {φ : β → Bool}

theorem crowd_congr {state' : α → β} (same : ∀ x ∈ busy, φ (state' x) = φ (state x)) :
    crowd busy state' φ = crowd busy state φ := by
  unfold crowd
  congr 1
  exact Finset.filter_congr fun x hx => by rw [same x hx]

theorem exists_of_crowd_pos (pos : 0 < crowd busy state φ) :
    ∃ x ∈ busy, φ (state x) = true := by
  obtain ⟨x, hx⟩ := Finset.card_pos.mp pos
  exact ⟨x, Finset.mem_filter.mp hx⟩

variable [DecidableEq α]

theorem crowd_split (mem : t ∈ busy) :
    crowd busy state φ = crowd (busy.erase t) state φ + (φ (state t)).toNat := by
  unfold crowd
  rw [← Finset.insert_erase mem, Finset.filter_insert]
  have fresh : t ∉ (busy.erase t).filter fun t => φ (state t) := fun h =>
    Finset.notMem_erase t busy (Finset.mem_filter.mp h).1
  cases φ (state t) with
  | false => simp
  | true => simp [fresh]

/-- One of the crowd changes its state. -/
theorem crowd_update (mem : t ∈ busy) (s : β) :
    crowd busy (update state t s) φ + (φ (state t)).toNat =
      crowd busy state φ + (φ s).toNat := by
  have others : crowd (busy.erase t) (update state t s) φ = crowd (busy.erase t) state φ :=
    crowd_congr fun x hx => by rw [update_of_ne (Finset.ne_of_mem_erase hx)]
  have before : crowd busy state φ = crowd (busy.erase t) state φ + (φ (state t)).toNat :=
    crowd_split mem
  rw [crowd_split mem, others, update_self]
  omega

/-- Whoever joins without the property does not count. -/
theorem crowd_insert (out : φ (state t) = false) :
    crowd (insert t busy) state φ = crowd busy state φ := by
  unfold crowd
  rw [Finset.filter_insert, if_neg (by simp [out])]

theorem length_le_crowd {ts : List α} (nodup : ts.Nodup)
    (all : ∀ x ∈ ts, x ∈ busy ∧ φ (state x) = true) : ts.length ≤ crowd busy state φ := by
  rw [← List.toFinset_card_of_nodup nodup]
  refine Finset.card_le_card fun x hx => ?_
  have here := all x (List.mem_toFinset.mp hx)
  exact Finset.mem_filter.mpr here

theorem crowd_le_length {ts : List α} (all : ∀ x ∈ busy, φ (state x) = true → x ∈ ts) :
    crowd busy state φ ≤ ts.length := by
  refine le_trans (Finset.card_le_card fun x hx => ?_) (List.toFinset_card_le ts)
  have here := Finset.mem_filter.mp hx
  exact List.mem_toFinset.mpr (all x here.1 here.2)

end

end Counting
