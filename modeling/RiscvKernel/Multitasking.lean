import Mathlib.Data.Multiset.Filter
import RiscvKernel.Counting
import RiscvKernel.RoundRobin

/-!
# Multitasking

Threads that take turns on a processor and wait for semaphores, for time and for input.

* `System.turn`, `System.change`: what an action does to the processor and to the rest;
* `System.Run`: any number of actions;
* `run_waits`: a thread that waits for a semaphore comes closer with every signal.
-/

namespace Multitasking
open Function Counting RoundRobin

/-- The processor, the threads that live, the semaphores and those of them that are open,
the threads that sleep with the ticks left to them, the threads that wait for input, the
input that nobody has read, and the output. -/
structure System (T S C : Type) where
  server : Server T
  live : Multiset T
  opened : Multiset S
  sem : S → Semaphore T
  alarms : Multiset (T × Nat)
  readers : List T
  typed : List C
  printed : List C

/-- What the thread that runs asks for, or what comes from outside. -/
inductive Action (T S C : Type) where
  | nothing
  | yield
  | leave
  | exit
  | create (t : T)
  | openSem (s : S) (n : Int)
  | closeSem (s : S)
  | wait (s : S)
  | signal (s : S)
  | sleep (n : Nat)
  | read
  | print (c : C)
  | input (cs : List C)
  | tick (woken : List T)

namespace Action
variable {T S C : Type}

/-- The actions that do something to a semaphore. -/
def Uses (s : S) : Action T S C → Prop
  | .openSem s' _ => s' = s
  | .closeSem s' => s' = s
  | .wait s' => s' = s
  | .signal s' => s' = s
  | _ => False

/-- How often an action signals a semaphore. -/
def signals [DecidableEq S] (s : S) : Action T S C → Nat
  | .signal s' => if s' = s then 1 else 0
  | _ => 0

end Action

/-- Either nobody or nothing is left over when input comes to those who wait for it. -/
theorem split_input {T C : Type} {xs ws rest : List T} {ys got left : List C}
    (waiting : xs = ws ++ rest) (input : ys = got ++ left) (length : got.length = ws.length)
    (spare : rest = [] ∨ left = []) :
    xs.take ys.length = ws ∧ xs.drop ys.length = rest ∧ ys.drop xs.length = left := by
  subst waiting input
  rcases spare with rfl | rfl
  · rw [List.append_nil, List.length_append, length]
    refine ⟨List.take_of_length_le (Nat.le_add_right ..), ?_, ?_⟩
    · exact List.drop_eq_nil_of_le (Nat.le_add_right ..)
    · exact List.drop_left' length
  · rw [List.append_nil, length]
    refine ⟨List.take_left, List.drop_left, List.drop_eq_nil_of_le ?_⟩
    rw [List.length_append, length]
    exact Nat.le_add_right ..

namespace System
variable {T S C : Type}

def running (σ : System T S C) : T := σ.server.running

/-- The threads that the next tick wakes. -/
def due (σ : System T S C) : Multiset T := (σ.alarms.filter (·.2 ≤ 1)).map Prod.fst

/-- The alarms that the next tick leaves. -/
def later (σ : System T S C) : Multiset (T × Nat) :=
  (σ.alarms.filter (1 < ·.2)).map fun x => (x.1, x.2 - 1)

/-- What an action is for the processor. -/
def turn (σ : System T S C) : Action T S C → Event T
  | .yield => .rejoin
  | .leave => .leave
  | .exit => .leave
  | .create t => .join [t]
  | .closeSem s => .join (σ.sem s).queue
  | .wait s => if (σ.sem s).val - 1 < 0 then .leave else .join []
  | .signal s => .join (if (σ.sem s).val + 1 ≤ 0 then (σ.sem s).queue.take 1 else [])
  | .sleep n => if n = 0 then .join [] else .leave
  | .read => if σ.typed = [] then .leave else .join []
  | .input cs => .join (σ.readers.take (σ.typed ++ cs).length)
  | .tick woken => .tick woken
  | _ => .join []

section
variable [DecidableEq T] [DecidableEq S]

/-- What an action does to everything but the processor. -/
def change (σ : System T S C) : Action T S C → System T S C
  | .exit => { σ with live := σ.live.erase σ.running }
  | .create t => { σ with live := t ::ₘ σ.live }
  | .openSem s n => { σ with opened := s ::ₘ σ.opened, sem := update σ.sem s ⟨n, []⟩ }
  | .closeSem s => { σ with
      opened := σ.opened.erase s, sem := update σ.sem s ⟨(σ.sem s).val, []⟩ }
  | .wait s => { σ with sem := update σ.sem s ((σ.sem s).wait σ.running) }
  | .signal s => { σ with sem := update σ.sem s (σ.sem s).signal }
  | .sleep n => if n = 0 then σ else { σ with alarms := (σ.running, n) ::ₘ σ.alarms }
  | .read =>
    if σ.typed = [] then { σ with readers := σ.readers ++ [σ.running] }
    else { σ with typed := σ.typed.tail }
  | .print c => { σ with printed := σ.printed ++ [c] }
  | .input cs => { σ with
      readers := σ.readers.drop (σ.typed ++ cs).length
      typed := (σ.typed ++ cs).drop σ.readers.length }
  | .tick _ => { σ with alarms := σ.later }
  | _ => σ

/-- `idle` runs when no thread is ready. -/
def step (idle : T) (slice : Nat) (σ : System T S C) (a : Action T S C) : System T S C :=
  { σ.change a with server := σ.server.step idle slice (σ.turn a) }

/-- The action can happen: new threads and semaphores are new, semaphores are open, and
the threads that wake are those whose time is up. -/
def Enabled (σ : System T S C) : Action T S C → Prop
  | .exit => σ.running ∈ σ.live
  | .create t => t ∉ σ.live
  | .openSem s _ => s ∉ σ.opened
  | .closeSem s => s ∈ σ.opened
  | .wait s => s ∈ σ.opened
  | .signal s => s ∈ σ.opened
  | .tick woken => (woken : Multiset T) = σ.due
  | _ => True

/-- A system that starts with one thread, which is ready. -/
structure Initial (idle : T) (slice : Nat) (σ : System T S C) : Prop where
  running : σ.running = idle
  ready : ∃ t, t ≠ idle ∧ σ.server.queue = [t] ∧ σ.server.left t = slice ∧ σ.live = {t}
  order : σ.server.InOrder
  opened : σ.opened = 0
  queue : ∀ s, (σ.sem s).queue = []
  alarms : σ.alarms = 0
  readers : σ.readers = []
  typed : σ.typed = []
  printed : σ.printed = []

/-- From `σ` the actions `as` lead to a system. -/
inductive Run (idle : T) (slice : Nat) (σ : System T S C) :
    List (Action T S C) → System T S C → Prop where
  | start : Run idle slice σ [] σ
  | next {as σ' a} (run : Run idle slice σ as σ') (enabled : σ'.Enabled a) :
      Run idle slice σ (as ++ [a]) (σ'.step idle slice a)

/-! ## Waiting for a semaphore -/

/-- No more threads wait for an open semaphore than its count lies below zero. -/
def Backed (σ : System T S C) : Prop :=
  ∀ s ∈ σ.opened, (σ.sem s).queue.length ≤ (-(σ.sem s).val).toNat

variable {idle : T} {slice : Nat} {σ σ' : System T S C} {a : Action T S C}
  {as : List (Action T S C)} {s : S} {t : T} {i : Nat}

theorem change_unused (unused : ¬ a.Uses s) :
    (σ.change a).sem s = σ.sem s ∧ (s ∈ (σ.change a).opened ↔ s ∈ σ.opened) := by
  cases a with
  | openSem s' n =>
    have ne : s ≠ s' := fun same => unused same.symm
    exact ⟨update_of_ne ne .., by simp [change, ne]⟩
  | closeSem s' =>
    have ne : s ≠ s' := fun same => unused same.symm
    exact ⟨update_of_ne ne .., Multiset.mem_erase_of_ne ne⟩
  | wait s' => exact ⟨update_of_ne (fun same => unused same.symm) .., Iff.rfl⟩
  | signal s' => exact ⟨update_of_ne (fun same => unused same.symm) .., Iff.rfl⟩
  | sleep n => by_cases zero : n = 0 <;> simp [change, zero]
  | read => by_cases empty : σ.typed = [] <;> simp [change, empty]
  | _ => exact ⟨rfl, Iff.rfl⟩

/-- A wait queues behind those who wait. -/
theorem wait_sem (σ : System T S C) (s : S) :
    (σ.change (.wait s)).sem s = (σ.sem s).wait σ.running := update_self ..

theorem signal_sem (σ : System T S C) (s : S) :
    (σ.change (.signal s)).sem s = (σ.sem s).signal := update_self ..

theorem step_backed (backed : σ.Backed) : (σ.step idle slice a).Backed := by
  intro s opened
  show ((σ.change a).sem s).queue.length ≤ (-((σ.change a).sem s).val).toNat
  have opened : s ∈ (σ.change a).opened := opened
  by_cases uses : a.Uses s
  · cases a with
    | openSem s' n =>
      obtain rfl : s' = s := uses
      have fresh : (σ.change (.openSem s' n)).sem s' = ⟨n, []⟩ := update_self ..
      rw [fresh]
      exact Nat.zero_le _
    | closeSem s' =>
      obtain rfl : s' = s := uses
      have empty : (σ.change (.closeSem s')).sem s' = ⟨(σ.sem s').val, []⟩ := update_self ..
      rw [empty]
      exact Nat.zero_le _
    | wait s' =>
      obtain rfl : s' = s := uses
      have before := backed s' opened
      rw [wait_sem]
      show (if _ then _ else _ : List T).length ≤ (-((σ.sem s').val - 1)).toNat
      split
      · rw [List.length_append, List.length_singleton]
        omega
      · omega
    | signal s' =>
      obtain rfl : s' = s := uses
      have before := backed s' opened
      rw [signal_sem]
      show (if _ then _ else _ : List T).length ≤ (-((σ.sem s').val + 1)).toNat
      split
      · rw [List.length_tail]
        omega
      · omega
    | _ => exact uses.elim
  · obtain ⟨same, still⟩ := @change_unused T S C _ _ σ a s uses
    rw [same]
    exact backed s (still.mp opened)

theorem run_backed (run : Run idle slice σ as σ') (initial : σ.Initial idle slice) :
    σ'.Backed := by
  induction run with
  | start =>
    intro s opened
    rw [initial.opened] at opened
    exact absurd opened (Multiset.notMem_zero s)
  | next _ _ ih => exact step_backed ih

/-- Whoever waits for a semaphore stays where it is, unless the semaphore is signalled
or closed. -/
theorem step_stays (opened : s ∈ σ.opened) (waits : (σ.sem s).queue[i]? = some t)
    (enabled : σ.Enabled a) (kept : a ≠ .closeSem s) (quiet : a ≠ .signal s) :
    ((σ.step idle slice a).sem s).queue[i]? = some t := by
  show ((σ.change a).sem s).queue[i]? = some t
  by_cases uses : a.Uses s
  · cases a with
    | openSem s' n =>
      obtain rfl : s' = s := uses
      exact absurd opened enabled
    | closeSem s' =>
      obtain rfl : s' = s := uses
      exact absurd rfl kept
    | wait s' =>
      obtain rfl : s' = s := uses
      obtain ⟨inside, -⟩ := List.getElem?_eq_some_iff.mp waits
      rw [wait_sem]
      show (if _ then _ else _ : List T)[i]? = some t
      split
      · rw [List.getElem?_append_left inside]
        exact waits
      · exact waits
    | signal s' =>
      obtain rfl : s' = s := uses
      exact absurd rfl quiet
    | _ => exact uses.elim
  · rw [(change_unused uses).1]
    exact waits

/-- A signal wakes the thread that waits first, and the others come closer. -/
theorem signal_closer (backed : σ.Backed) (opened : s ∈ σ.opened)
    (waits : (σ.sem s).queue[i]? = some t) :
    (i = 0 → σ.turn (.signal s) = .join [t]) ∧
      (0 < i → ((σ.step idle slice (.signal s)).sem s).queue[i - 1]? = some t) := by
  obtain ⟨inside, -⟩ := List.getElem?_eq_some_iff.mp waits
  have below : (σ.sem s).val + 1 ≤ 0 := by
    have := backed s opened
    omega
  constructor
  · rintro rfl
    show Event.join (if _ then _ else _) = _
    rw [if_pos below]
    cases queue : (σ.sem s).queue with
    | nil => simp [queue] at waits
    | cons w ws =>
      rw [queue] at waits
      obtain rfl : w = t := Option.some.inj waits
      rfl
  · intro pos
    show ((σ.change (.signal s)).sem s).queue[i - 1]? = some t
    rw [signal_sem]
    show (if _ then _ else _ : List T)[i - 1]? = some t
    rw [if_pos below, List.getElem?_tail]
    exact (Nat.sub_add_cancel pos).symm ▸ waits

theorem step_opened (opened : s ∈ σ.opened) (kept : a ≠ .closeSem s) :
    s ∈ (σ.step idle slice a).opened := by
  show s ∈ (σ.change a).opened
  by_cases uses : a.Uses s
  · cases a with
    | openSem s' n => exact Multiset.mem_cons_of_mem opened
    | closeSem s' =>
      obtain rfl : s' = s := uses
      exact absurd rfl kept
    | wait => exact opened
    | signal => exact opened
    | _ => exact uses.elim
  · exact (change_unused uses).2.mpr opened

/-- How often the actions signal a semaphore. -/
def signals (s : S) : List (Action T S C) → Nat
  | [] => 0
  | a :: as => a.signals s + signals s as

omit [DecidableEq T] in
theorem signals_append (s : S) (as : List (Action T S C)) (a : Action T S C) :
    signals s (as ++ [a]) = signals s as + a.signals s := by
  induction as with
  | nil => exact Nat.add_comm ..
  | cons x as ih =>
    show x.signals s + signals s (as ++ [a]) = x.signals s + signals s as + a.signals s
    rw [ih, Nat.add_assoc]

/-- **Waiting.** The thread at place `i` of the queue of a semaphore is woken by the signal
`i + 1`, unless the semaphore is closed before. -/
theorem run_waits (run : Run idle slice σ as σ') (backed : σ.Backed) (opened : s ∈ σ.opened)
    (kept : .closeSem s ∉ as) (waits : (σ.sem s).queue[i]? = some t) :
    σ'.Backed ∧ s ∈ σ'.opened ∧ ∃ new, σ'.server.joined = σ.server.joined ++ new ∧
      (signals s as ≤ i → (σ'.sem s).queue[i - signals s as]? = some t) ∧
      (i < signals s as → t ∈ new) := by
  induction run with
  | start =>
    refine ⟨backed, opened, [], (List.append_nil _).symm, fun _ => waits, ?_⟩
    intro signalled
    exact absurd signalled (Nat.not_lt_zero i)
  | @next as σ' a run enabled ih =>
    rw [List.mem_append, List.mem_singleton, not_or] at kept
    obtain ⟨backed', opened', new, joined, before, woken⟩ := ih kept.1
    have notClosed : a ≠ .closeSem s := fun same => kept.2 same.symm
    obtain ⟨new', joined', among⟩ := Server.step_joined σ'.server idle slice (σ'.turn a)
    have total := signals_append s as a
    refine ⟨step_backed backed', step_opened opened' notClosed, new ++ new', ?_, ?_, ?_⟩
    · show (σ'.server.step idle slice (σ'.turn a)).joined = _
      rw [joined', joined, List.append_assoc]
    · intro few
      rw [total] at few ⊢
      have waits' := before (by omega)
      by_cases quiet : a = .signal s
      · subst quiet
        have one : (Action.signal s : Action T S C).signals s = 1 := if_pos rfl
        rw [one] at few ⊢
        rw [Nat.sub_add_eq]
        exact (signal_closer backed' opened' waits').2 (by omega)
      · have none : a.signals s = 0 := by
          cases a with
          | signal s' => exact if_neg fun same => quiet (congrArg _ same)
          | _ => rfl
        rw [none, Nat.add_zero]
        exact step_stays opened' waits' enabled notClosed quiet
    · intro many
      rw [total] at many
      by_cases early : i < signals s as
      · exact List.mem_append_left _ (woken early)
      · have waits' := before (by omega)
        cases a with
        | signal s' =>
          by_cases same : s' = s
          · subst same
            have one : (Action.signal s' : Action T S C).signals s' = 1 := if_pos rfl
            rw [one] at many
            have first := (@signal_closer T S C _ _ idle slice σ' s' t _ backed' opened' waits').1
              (by omega)
            apply List.mem_append_right
            apply among
            rw [first]
            exact List.mem_singleton_self t
          · have none : (Action.signal s' : Action T S C).signals s = 0 := if_neg same
            omega
        | _ => exact absurd many early

end

end System

end Multitasking
