import Mathlib.Data.List.Nodup
import Mathlib.Logic.Function.Basic

/-!
# Round robin

One server and a queue of clients with time slices.

* `Server.step`: clients join the queue, and the client that is served goes on,
  joins again or leaves; a tick uses up its slice;
* `step_order`: clients are served in the order in which they joined;
* `step_waits`: a client that stays in the queue comes closer with every tick.
-/

namespace RoundRobin
open Function

/-- The client that is served, the ticks left of each client's slice, and the
queue; `joined` and `served` are the clients that joined it and that were served from
it, in order. -/
structure Server (α : Type) where
  running : α
  left : α → Nat
  queue : List α
  joined : List α
  served : List α

/-- What can happen to a server. -/
inductive Event (α : Type) where
  | join (new : List α)
  | rejoin
  | leave
  | tick (new : List α)

/-- The clients that join from outside. -/
def Event.new {α : Type} : Event α → List α
  | .join new => new
  | .rejoin => []
  | .leave => []
  | .tick new => new

def Event.ticks {α : Type} : Event α → Nat
  | .tick _ => 1
  | _ => 0

namespace Server
variable {α : Type} [DecidableEq α]

/-- The clients `new` join the queue with whole slices. -/
def join (slice : Nat) (s : Server α) (new : List α) : Server α :=
  { s with
    left := fun x => if x ∈ new then slice else s.left x
    queue := s.queue ++ new
    joined := s.joined ++ new }

omit [DecidableEq α] in
/-- The first client of the queue is served, or `idle` when there is none. -/
def next (idle : α) (s : Server α) : Server α :=
  match s.queue with
  | [] => { s with running := idle }
  | x :: queue => { s with running := x, queue, served := s.served ++ [x] }

/-- The client that is served joins the queue and gives way. -/
def rejoin (idle : α) (slice : Nat) (s : Server α) : Server α :=
  (s.join slice [s.running]).next idle

/-- A tick of the client that is served. -/
def spend (idle : α) (slice : Nat) (s : Server α) : Server α :=
  if s.left s.running ≤ 1 then s.rejoin idle slice
  else { s with left := update s.left s.running (s.left s.running - 1) }

def step (idle : α) (slice : Nat) (s : Server α) : Event α → Server α
  | .join new => s.join slice new
  | .rejoin => s.rejoin idle slice
  | .leave => s.next idle
  | .tick new => (s.join slice new).spend idle slice

/-! ## Presence -/

/-- The client is served or in the queue. -/
def Present (s : Server α) (x : α) : Prop := x = s.running ∨ x ∈ s.queue

section
variable {idle : α} {slice : Nat} {s : Server α} {x : α}

theorem join_present (here : s.Present x) (new : List α) : (s.join slice new).Present x :=
  here.imp_right (List.mem_append_left new)

omit [DecidableEq α] in
theorem next_present (queued : x ∈ s.queue) : (s.next idle).Present x := by
  unfold next
  split
  · next empty =>
    rw [empty] at queued
    cases queued
  · next y queue first =>
    rw [first] at queued
    exact List.mem_cons.mp queued

theorem rejoin_present (here : s.Present x) : (s.rejoin idle slice).Present x := by
  apply next_present
  rcases here with rfl | queued
  · exact List.mem_append_right _ (List.mem_singleton_self _)
  · exact List.mem_append_left _ queued

theorem spend_present (here : s.Present x) : (s.spend idle slice).Present x := by
  unfold spend
  split
  · exact rejoin_present here
  · exact here

/-- Only a client that is served can leave. -/
theorem step_present {e : Event α} (here : s.Present x) (stays : e = .leave → x ≠ s.running) :
    (s.step idle slice e).Present x := by
  cases e with
  | join new => exact join_present here new
  | rejoin => exact rejoin_present here
  | leave => exact next_present (here.resolve_left (stays rfl))
  | tick new => exact spend_present (join_present here new)

end

/-! ## Order -/

/-- The clients in the queue are those that joined and have not been served. -/
def InOrder (s : Server α) : Prop := s.joined = s.served ++ s.queue

variable {idle : α} {slice : Nat} {s : Server α}

theorem join_order (order : s.InOrder) (new : List α) : (s.join slice new).InOrder := by
  show s.joined ++ new = s.served ++ (s.queue ++ new)
  rw [order, List.append_assoc]

omit [DecidableEq α] in
theorem next_order (order : s.InOrder) : (s.next idle).InOrder := by
  unfold next
  split
  · next empty =>
    exact order
  · next x queue first =>
    show s.joined = s.served ++ [x] ++ queue
    rw [order, first, List.append_assoc]
    rfl

theorem rejoin_order (order : s.InOrder) : (s.rejoin idle slice).InOrder :=
  next_order (join_order order _)

theorem spend_order (order : s.InOrder) : (s.spend idle slice).InOrder := by
  unfold spend
  split
  · exact rejoin_order order
  · exact order

/-- Clients only join, and those of an event do. -/
theorem step_joined (s : Server α) (idle : α) (slice : Nat) (e : Event α) :
    ∃ new, (s.step idle slice e).joined = s.joined ++ new ∧ ∀ x ∈ e.new, x ∈ new := by
  have next_joined : ∀ s : Server α, (s.next idle).joined = s.joined := by
    intro s
    unfold next
    split <;> rfl
  cases e with
  | join new => exact ⟨new, rfl, fun x hx => hx⟩
  | rejoin => exact ⟨[s.running], next_joined _, fun x hx => absurd hx List.not_mem_nil⟩
  | leave => exact ⟨[], (next_joined s).trans (List.append_nil _).symm, fun x hx => hx⟩
  | tick new =>
    show ∃ new', (spend idle slice (s.join slice new)).joined = _ ∧ _
    unfold spend
    split
    · refine ⟨new ++ [s.running], ?_, fun x hx => List.mem_append_left _ hx⟩
      exact (next_joined _).trans (List.append_assoc ..)
    · exact ⟨new, rfl, fun x hx => hx⟩

/-- **Order.** -/
theorem step_order (order : s.InOrder) (e : Event α) : (s.step idle slice e).InOrder := by
  cases e with
  | join new => exact join_order order new
  | rejoin => exact rejoin_order order
  | leave => exact next_order order
  | tick new => exact spend_order (join_order order new)

/-! ## Waiting -/

/-- No client is in two places. -/
def Placed (s : Server α) : Prop := (s.running :: s.queue).Nodup

/-- No client is in two places once those of the event have joined. -/
def Admits (s : Server α) (e : Event α) : Prop := (s.running :: (s.queue ++ e.new)).Nodup

omit [DecidableEq α] in
theorem next_cons (some : s.queue ≠ []) :
    (s.next idle).running :: (s.next idle).queue = s.queue := by
  unfold next
  split
  · next empty => exact absurd empty some
  · next x queue first => exact first.symm

/-- Whoever joins with a tick is in the queue then, or is served. -/
theorem tick_joins {new : List α} {x : α} (joins : x ∈ new) :
    x = (s.step idle slice (.tick new)).running ∨ x ∈ (s.step idle slice (.tick new)).queue := by
  have queued : x ∈ (s.join slice new).queue := List.mem_append_right _ joins
  unfold step spend
  dsimp only
  split
  · have cons := @next_cons α idle ((s.join slice new).join slice [(s.join slice new).running])
      (by simp [join])
    apply List.mem_cons.mp
    unfold rejoin
    rw [cons]
    exact List.mem_append_left _ queued
  · exact Or.inr queued

theorem placed_of_spend (placed : (s.spend idle slice).Placed) : s.Placed := by
  unfold spend at placed
  split at placed
  · have cons := @next_cons α idle (s.join slice [s.running]) (by simp [join])
    have whole : (s.queue ++ [s.running]).Nodup := by
      show (s.join slice [s.running]).queue.Nodup
      rw [← cons]
      exact placed
    exact (List.perm_append_singleton s.running s.queue).nodup_iff.mp whole
  · exact placed

/-- An event between two servers with no client in two places admits its clients. -/
theorem admits_of_step {e : Event α} (placed : s.Placed) (placed' : (s.step idle slice e).Placed) :
    s.Admits e := by
  unfold Admits
  cases e with
  | join new => exact placed'
  | rejoin => exact (List.append_nil s.queue).symm ▸ placed
  | leave => exact (List.append_nil s.queue).symm ▸ placed
  | tick new => exact placed_of_spend (s := s.join slice new) placed'

/-- The client `x` waits behind `ahead` others, for `budget` ticks at most. -/
structure Waits (slice : Nat) (s : Server α) (x : α) (ahead budget : Nat) : Prop where
  place : ∃ front back, s.queue = front ++ x :: back ∧ front.length = ahead
  whole : ∀ y ∈ s.queue, s.left y = slice
  placed : s.Placed
  pos : 0 < s.left s.running
  within : slice * ahead + s.left s.running ≤ budget

variable {x : α} {ahead budget : Nat}

omit [DecidableEq α] in
theorem Waits.mono {budget' : Nat} (waits : s.Waits slice x ahead budget)
    (h : budget ≤ budget') : s.Waits slice x ahead budget' :=
  { waits with within := Nat.le_trans waits.within h }

theorem join_left_running {new : List α} (out : s.running ∉ new) :
    (s.join slice new).left s.running = s.left s.running := if_neg out

theorem join_whole (whole : ∀ y ∈ s.queue, s.left y = slice) (new : List α) :
    ∀ y ∈ (s.join slice new).queue, (s.join slice new).left y = slice := by
  intro y hy
  show (if y ∈ new then slice else s.left y) = slice
  split
  · rfl
  · next out => exact whole y ((List.mem_append.mp hy).resolve_right out)

theorem join_waits {new : List α} (waits : s.Waits slice x ahead budget)
    (nodup : (s.running :: (s.queue ++ new)).Nodup) :
    (s.join slice new).Waits slice x ahead budget := by
  have out : s.running ∉ new := fun h => (List.nodup_cons.mp nodup).1 (List.mem_append_right _ h)
  have same : (s.join slice new).left s.running = s.left s.running := join_left_running out
  obtain ⟨front, back, place, len⟩ := waits.place
  constructor
  · refine ⟨front, back ++ new, ?_, len⟩
    show s.queue ++ new = _
    rw [place, List.append_assoc, List.cons_append]
  · exact join_whole waits.whole new
  · exact nodup
  · exact same ▸ waits.pos
  · exact same ▸ waits.within

omit [DecidableEq α] in
/-- Unless `x` is served, the client ahead of it is, with a whole slice. -/
theorem next_waits {front back : List α} (place : s.queue = front ++ x :: back)
    (whole : ∀ y ∈ s.queue, s.left y = slice) (nodup : s.queue.Nodup) (pos : 0 < slice)
    (other : (s.next idle).running ≠ x) :
    ∃ ahead, front.length = ahead + 1 ∧
      (s.next idle).Waits slice x ahead (slice * front.length) := by
  cases front with
  | nil =>
    have first : s.next idle =
        { s with running := x, queue := back, served := s.served ++ [x] } := by
      simp [next, place]
    rw [first] at other
    exact absurd rfl other
  | cons y front =>
    have first : s.next idle = { s with
        running := y, queue := front ++ x :: back, served := s.served ++ [y] } := by
      simp [next, place]
    rw [place] at whole nodup
    have slice_y : s.left y = slice := whole y List.mem_cons_self
    rw [first]
    refine ⟨front.length, rfl, ⟨front, back, rfl, rfl⟩, ?_, nodup, ?_, ?_⟩
    · exact fun z hz => whole z (List.mem_cons_of_mem y hz)
    · exact slice_y ▸ pos
    · apply Nat.le_of_eq
      show slice * front.length + s.left y = slice * (front.length + 1)
      rw [slice_y, Nat.mul_succ]

omit [DecidableEq α] in
/-- Whoever gives way lets the client ahead of `x` be served. -/
theorem leave_waits (waits : s.Waits slice x ahead budget) (pos : 0 < slice)
    (other : (s.next idle).running ≠ x) :
    ∃ ahead', ahead = ahead' + 1 ∧ (s.next idle).Waits slice x ahead' (slice * ahead) := by
  obtain ⟨front, back, place, rfl⟩ := waits.place
  exact next_waits place waits.whole (List.nodup_cons.mp waits.placed).2 pos other

theorem rejoin_waits (waits : s.Waits slice x ahead budget) (pos : 0 < slice)
    (other : (s.rejoin idle slice).running ≠ x) :
    ∃ ahead', ahead = ahead' + 1 ∧
      (s.rejoin idle slice).Waits slice x ahead' (slice * ahead) := by
  obtain ⟨front, back, place, rfl⟩ := waits.place
  have place' : (s.join slice [s.running]).queue = front ++ x :: (back ++ [s.running]) := by
    show s.queue ++ [s.running] = _
    rw [place, List.append_assoc, List.cons_append]
  have nodup : (s.join slice [s.running]).queue.Nodup :=
    (List.nodup_cons.mp waits.placed).2.append (List.nodup_singleton _)
      (List.disjoint_singleton.mpr (List.nodup_cons.mp waits.placed).1)
  exact next_waits place' (join_whole waits.whole _) nodup pos other

theorem spend_waits (waits : s.Waits slice x ahead budget) (pos : 0 < slice)
    (other : (s.spend idle slice).running ≠ x) : ∃ ahead' budget', ahead' ≤ ahead ∧
      budget' + 1 = budget ∧ (s.spend idle slice).Waits slice x ahead' budget' := by
  have within := waits.within
  have left := waits.pos
  unfold spend at other ⊢
  split
  · next last =>
    rw [if_pos last] at other
    obtain ⟨ahead', rfl, waits'⟩ := rejoin_waits waits pos other
    exact ⟨ahead', budget - 1, by omega, by omega, waits'.mono (by omega)⟩
  · next more =>
    have out := (List.nodup_cons.mp waits.placed).1
    refine ⟨ahead, budget - 1, Nat.le_refl ahead, by omega, waits.place, ?_, waits.placed, ?_, ?_⟩
    · intro y hy
      have ne : y ≠ s.running := ne_of_mem_of_not_mem hy out
      exact (update_of_ne ne ..).trans (waits.whole y hy)
    all_goals simp only [update_self]
    · omega
    · omega

/-- **Waiting.** A client that an event leaves in the queue has come closer: as many ticks
fewer are left as the event takes. -/
theorem step_waits {e : Event α} (waits : s.Waits slice x ahead budget) (pos : 0 < slice)
    (admits : s.Admits e) (other : (s.step idle slice e).running ≠ x) :
    ∃ ahead' budget', ahead' ≤ ahead ∧ budget' + e.ticks = budget ∧
      (s.step idle slice e).Waits slice x ahead' budget' := by
  have within := waits.within
  cases e with
  | join new => exact ⟨ahead, budget, Nat.le_refl ahead, rfl, join_waits waits admits⟩
  | rejoin =>
    obtain ⟨ahead', rfl, waits'⟩ := rejoin_waits waits pos other
    exact ⟨ahead', budget, Nat.le_succ ahead', rfl, waits'.mono (by omega)⟩
  | leave =>
    obtain ⟨ahead', rfl, waits'⟩ := leave_waits waits pos other
    exact ⟨ahead', budget, Nat.le_succ ahead', rfl, waits'.mono (by omega)⟩
  | tick new => exact spend_waits (join_waits waits admits) pos other

end Server

end RoundRobin
