import Mathlib.Logic.Function.Iterate
import Mathlib.Logic.Nontrivial.Basic

/-!
# The lock of the test programs (`lock.S`, `printing.cpp`)

Threads take turns on one hart, and a thread switch may come between any two instructions.

* `exec`: one instruction of `LOCK`, `UNLOCK` or `copy_and_swap`;
* `Inv`: what holds when thread switches drop the hart's reservation;
* `lock_excludes_iff`: without that two threads can hold the lock. `irq_wrap` does not drop it.
-/

namespace RiscvKernel.SpinLock
open Function

/-- The instructions, with the calls and tests of the two macros as one instruction each. -/
inductive Pc where
  | outside
  | lockCall
  | lockTest
  | dispatch
  | critical
  | unlockCall
  | unlockTest
  | lr
  | bne
  | sc
  | bnez
  | success
  | fail
  deriving DecidableEq

/-- The registers of a thread; `a0` is the result of `copy_and_swap`. -/
structure Regs where
  pc : Pc
  ra : Pc
  a0 : Nat
  a1 : Nat
  a2 : Nat
  t0 : Nat
  deriving DecidableEq

/-- The hart: the registers of the thread that runs, the word `lockPrint`, and whether the hart
has a reservation for it. -/
structure Core where
  regs : Regs
  lock : Nat
  reserved : Bool
  deriving DecidableEq

/-- One instruction. A store-conditional needs the reservation, and it may fail without a reason
when it is not `lucky`; it takes the reservation away in any case. -/
def exec (lucky : Bool) (c : Core) : Core :=
  let r := c.regs
  match r.pc with
  | .outside => { c with regs := { r with pc := .lockCall } }
  | .lockCall => { c with regs := { r with pc := .lr, ra := .lockTest, a1 := 0, a2 := 1 } }
  | .lockTest => { c with regs := { r with pc := if r.a0 ≠ 0 then .dispatch else .critical } }
  | .dispatch => { c with regs := { r with pc := .lockCall } }
  | .critical => { c with regs := { r with pc := .unlockCall } }
  | .unlockCall => { c with regs := { r with pc := .lr, ra := .unlockTest, a1 := 1, a2 := 0 } }
  | .unlockTest => { c with regs := { r with pc := if r.a0 ≠ 0 then .unlockCall else .outside } }
  | .lr => { c with regs := { r with pc := .bne, t0 := c.lock }, reserved := true }
  | .bne => { c with regs := { r with pc := if r.t0 ≠ r.a1 then .fail else .sc } }
  | .sc =>
    if c.reserved && lucky then
      { regs := { r with pc := .bnez, t0 := 0 }, lock := r.a2, reserved := false }
    else { c with regs := { r with pc := .bnez, t0 := 1 }, reserved := false }
  | .bnez => { c with regs := { r with pc := if r.t0 ≠ 0 then .lr else .success } }
  | .success => { c with regs := { r with pc := r.ra, a0 := 0 } }
  | .fail => { c with regs := { r with pc := r.ra, a0 := 1 } }

/-! ## One thread -/

/-- The thread has set the lock and has not cleared it. -/
def Regs.Owns (r : Regs) : Prop :=
  match r.pc with
  | .critical | .unlockCall => True
  | .lr | .bne | .sc | .fail => r.ra = .unlockTest
  | .bnez => if r.ra = .unlockTest then r.t0 ≠ 0 else r.t0 = 0
  | .success => r.ra = .lockTest
  | .lockTest => r.a0 = 0
  | .unlockTest => r.a0 ≠ 0
  | .outside | .lockCall | .dispatch => False

/-- The thread is in `copy_and_swap`. -/
def Pc.Swaps (pc : Pc) : Prop := pc ∈ [Pc.lr, .bne, .sc, .bnez, .success, .fail]

/-- In `copy_and_swap` the arguments are those of the call. -/
structure Regs.Sound (r : Regs) : Prop where
  args : r.pc.Swaps → r.ra = .lockTest ∧ r.a1 = 0 ∧ r.a2 = 1 ∨
    r.ra = .unlockTest ∧ r.a1 = 1 ∧ r.a2 = 0
  same : r.pc = .sc → r.t0 = r.a1

/-- With a reservation, the word is as the thread has loaded it. -/
def Core.Fresh (c : Core) : Prop :=
  c.reserved = true → c.regs.pc = .bne ∨ c.regs.pc = .sc → c.regs.t0 = c.lock

theorem exec_sound {c : Core} (sound : c.regs.Sound) (lucky : Bool) :
    (exec lucky c).regs.Sound := by
  obtain ⟨⟨pc, ra, a0, a1, a2, t0⟩, lock, reserved⟩ := c
  obtain ⟨args, same⟩ := sound
  constructor
  · cases pc <;> simp_all [exec, Pc.Swaps] <;> grind
  · cases pc <;> simp_all [exec, Pc.Swaps] <;> grind

theorem exec_fresh {c : Core} (sound : c.regs.Sound) (fresh : c.Fresh) (lucky : Bool) :
    (exec lucky c).Fresh := by
  obtain ⟨⟨pc, ra, a0, a1, a2, t0⟩, lock, reserved⟩ := c
  obtain ⟨args, -⟩ := sound
  unfold Core.Fresh at fresh ⊢
  cases pc <;> simp_all [exec, Pc.Swaps] <;> grind

/-- An instruction sets the lock, clears it, or leaves it alone. -/
inductive Moves (c c' : Core) : Prop where
  | quiet (lock : c'.lock = c.lock) (owns : c'.regs.Owns ↔ c.regs.Owns)
  | set (free : c.lock = 0) (lock : c'.lock = 1) (owns : c'.regs.Owns)
  | clear (before : c.regs.Owns) (lock : c'.lock = 0) (owns : ¬ c'.regs.Owns)

theorem exec_moves {c : Core} (sound : c.regs.Sound) (fresh : c.Fresh) (lucky : Bool) :
    Moves c (exec lucky c) := by
  obtain ⟨⟨pc, ra, a0, a1, a2, t0⟩, lock, reserved⟩ := c
  obtain ⟨args, same⟩ := sound
  unfold Core.Fresh at fresh
  by_cases store : pc = .sc ∧ reserved = true ∧ lucky = true
  · obtain ⟨rfl, rfl, rfl⟩ := store
    have loaded : lock = a1 := (fresh rfl (Or.inr rfl)).symm.trans (same rfl)
    rcases args (by simp [Pc.Swaps]) with ⟨rfl, rfl, rfl⟩ | ⟨rfl, rfl, rfl⟩
    · exact .set loaded rfl rfl
    · exact .clear rfl rfl (by simp [exec, Regs.Owns])
  · have fails : pc = .sc → (reserved && lucky) = false := fun sc => by
      simpa [sc] using store
    apply Moves.quiet
    · cases pc <;> simp_all [exec]; grind
    · cases pc <;> simp_all [exec, Regs.Owns, Pc.Swaps] <;> grind

/-! ## All threads -/

/-- The threads on the hart, one of which runs. -/
structure State (Thread : Type) where
  regs : Thread → Regs
  lock : Nat
  reserved : Bool
  current : Thread

variable {Thread : Type}

namespace State

def core (s : State Thread) : Core := ⟨s.regs s.current, s.lock, s.reserved⟩

/-- The kernel gives the hart to the thread `t`; `drops` says whether it drops the reservation. -/
def switch (drops : Bool) (s : State Thread) (t : Thread) : State Thread :=
  { s with current := t, reserved := s.reserved && !drops }

/-- At most one thread is in its critical section. -/
def Excludes (s : State Thread) : Prop :=
  ∀ t t', (s.regs t).pc = .critical → (s.regs t').pc = .critical → t = t'

/-- The lock is set while a thread owns it, and only one does. -/
inductive Owned (s : State Thread) : Prop where
  | free (lock : s.lock = 0) (nobody : ∀ t, ¬ (s.regs t).Owns)
  | held (owner : Thread) (lock : s.lock = 1) (only : ∀ t, (s.regs t).Owns ↔ t = owner)

/-- The invariant. -/
structure Inv (s : State Thread) : Prop where
  sound : ∀ t, (s.regs t).Sound
  fresh : s.core.Fresh
  owned : s.Owned

theorem Inv.excludes {s : State Thread} (inv : s.Inv) : s.Excludes := by
  intro t t' critical critical'
  have owns : (s.regs t).Owns := by simp [Regs.Owns, critical]
  have owns' : (s.regs t').Owns := by simp [Regs.Owns, critical']
  cases inv.owned with
  | free _ nobody => exact absurd owns (nobody t)
  | held owner _ only => exact ((only t).mp owns).trans ((only t').mp owns').symm

end State

/-- At first no thread is in the lock. -/
def start (t : Thread) : State Thread where
  regs := fun _ => ⟨.outside, .outside, 0, 0, 0, 0⟩
  lock := 0
  reserved := false
  current := t

theorem start_inv (t : Thread) : (start t).Inv := by
  constructor
  · exact fun _ => ⟨fun swaps => by simp [start, Pc.Swaps] at swaps, nofun⟩
  · exact nofun
  · exact .free rfl fun _ owns => owns

/-- A thread switch that drops the reservation keeps the invariant. -/
theorem switch_inv {s : State Thread} (inv : s.Inv) (t : Thread) : (s.switch true t).Inv where
  sound := inv.sound
  fresh := fun reserved => by simp [State.core, State.switch] at reserved
  owned := by
    cases inv.owned with
    | free lock nobody => exact .free lock nobody
    | held owner lock only => exact .held owner lock only

section
variable [DecidableEq Thread]

/-- The thread that runs has come to `c`. -/
def State.load (s : State Thread) (c : Core) : State Thread :=
  { s with regs := update s.regs s.current c.regs, lock := c.lock, reserved := c.reserved }

/-- The states in which the threads can get. -/
inductive Reachable (drops : Bool) : State Thread → Prop where
  | start (t : Thread) : Reachable drops (start t)
  | exec {s : State Thread} (reached : Reachable drops s) (lucky : Bool) :
      Reachable drops (s.load (exec lucky s.core))
  | switch {s : State Thread} (reached : Reachable drops s) (t : Thread) :
      Reachable drops (s.switch drops t)

variable {drops : Bool} {s : State Thread}

theorem load_mine (s : State Thread) (c : Core) : (s.load c).regs s.current = c.regs :=
  update_self ..

theorem load_other (c : Core) {t : Thread} (ne : t ≠ s.current) : (s.load c).regs t = s.regs t :=
  update_of_ne ne ..

theorem load_core (s : State Thread) (c : Core) : (s.load c).core = c := by
  unfold State.core
  exact congrArg (Core.mk · c.lock c.reserved) (load_mine s c)

theorem load_owned {c : Core} (owned : s.Owned) (moves : Moves s.core c) : (s.load c).Owned := by
  cases moves with
  | quiet lock owns =>
    have same : ∀ t, ((s.load c).regs t).Owns ↔ (s.regs t).Owns := by
      intro t
      by_cases h : t = s.current
      · rw [h, load_mine]
        exact owns
      · rw [load_other c h]
    cases owned with
    | free free nobody => exact .free (lock.trans free) fun t => (same t).not.mpr (nobody t)
    | held owner held only => exact .held owner (lock.trans held) fun t => (same t).trans (only t)
  | set free lock owns =>
    cases owned with
    | free _ nobody =>
      apply State.Owned.held s.current lock
      intro t
      by_cases h : t = s.current
      · rw [h, load_mine]
        exact iff_of_true owns rfl
      · rw [load_other c h]
        exact iff_of_false (nobody t) h
    | held owner held only =>
      have free : s.lock = 0 := free
      omega
  | clear before lock owns =>
    cases owned with
    | free _ nobody => exact absurd before (nobody s.current)
    | held owner held only =>
      have mine : s.current = owner := (only s.current).mp before
      apply State.Owned.free lock
      intro t
      by_cases h : t = s.current
      · rw [h, load_mine]
        exact owns
      · rw [load_other c h]
        exact fun owns => h (((only t).mp owns).trans mine.symm)

theorem exec_inv (inv : s.Inv) (lucky : Bool) : (s.load (exec lucky s.core)).Inv := by
  have sound : s.core.regs.Sound := inv.sound s.current
  constructor
  · intro t
    by_cases h : t = s.current
    · rw [h, load_mine]
      exact exec_sound sound lucky
    · rw [load_other _ h]
      exact inv.sound t
  · rw [load_core]
    exact exec_fresh sound inv.fresh lucky
  · exact load_owned inv.owned (exec_moves sound inv.fresh lucky)

theorem reachable_inv (reached : Reachable true s) : s.Inv := by
  induction reached with
  | start t => exact start_inv t
  | exec _ lucky ih => exact exec_inv ih lucky
  | switch _ t ih => exact switch_inv ih t

/-! ## A kernel that keeps the reservation -/

theorem load_load (s : State Thread) (c c' : Core) : (s.load c).load c' = s.load c' := by
  unfold State.load
  congr 1
  exact update_idem ..

/-- The thread that runs executes `n` instructions, each of them lucky. -/
theorem reachable_execs (reached : Reachable drops s) (n : Nat) :
    Reachable drops (s.load ((exec true)^[n] s.core)) := by
  induction n with
  | zero =>
    have same : s.load s.core = s := by
      unfold State.load State.core
      rw [update_eq_self]
    exact same.symm ▸ reached
  | succ n ih =>
    have next := ih.exec true
    rw [load_core, load_load] at next
    exact (iterate_succ_apply' ..).symm ▸ next

/-- The threads `a` and `b` can come to these registers when no switch drops the reservation. -/
def Meets (a b : Thread) (ra rb : Regs) (lock : Nat) (reserved : Bool) : Prop :=
  ∃ s : State Thread, Reachable false s ∧ s.regs a = ra ∧ s.regs b = rb ∧ s.lock = lock ∧
    s.reserved = reserved

/-- The kernel switches to `a`, which executes `n` instructions. -/
theorem Meets.slice {a b : Thread} (ne : a ≠ b) {ra rb : Regs} {lock : Nat} {reserved : Bool}
    (meets : Meets a b ra rb lock reserved) (n : Nat) :
    let c := (exec true)^[n] ⟨ra, lock, reserved⟩
    Meets b a rb c.regs c.lock c.reserved := by
  obtain ⟨s, reached, rfl, rfl, rfl, rfl⟩ := meets
  have core : (s.switch false a).core = ⟨s.regs a, s.lock, s.reserved⟩ := by
    simp [State.core, State.switch]
  have ran := reachable_execs (reached.switch a) n
  rw [core] at ran
  refine ⟨_, ran, ?_, ?_, rfl, rfl⟩
  · exact load_other _ ne.symm
  · exact load_mine ..

/-- `a` stops before its store-conditional and `b` after the load in `UNLOCK`; the store of `a`
then succeeds on the reservation of `b`, and `b` clears the lock that both took. -/
theorem reachable_clash {a b : Thread} (ne : a ≠ b) :
    ∃ s : State Thread, Reachable false s ∧ ¬ s.Excludes := by
  have begun : Meets a b ⟨.outside, .outside, 0, 0, 0, 0⟩
    ⟨.outside, .outside, 0, 0, 0, 0⟩ 0 false :=
    ⟨start a, .start a, rfl, rfl, rfl, rfl⟩
  have ran := (((begun.slice ne 4).slice ne.symm 11).slice ne 4).slice ne.symm 17
  obtain ⟨s, reached, inA, inB, -, -⟩ := ran
  refine ⟨s, reached, fun excludes => ne (excludes a b ?_ ?_)⟩
  · rw [inA]
    rfl
  · rw [inB]
    rfl

end

/-- Mutual exclusion needs a thread switch that drops the reservation. -/
theorem lock_excludes_iff (Thread : Type) [DecidableEq Thread] [Nontrivial Thread] (drops : Bool) :
    (∀ s : State Thread, Reachable drops s → s.Excludes) ↔ drops = true := by
  constructor
  · intro excludes
    cases drops with
    | true => rfl
    | false =>
      obtain ⟨a, b, ne⟩ := exists_pair_ne Thread
      obtain ⟨s, reached, clash⟩ := reachable_clash ne
      exact absurd (excludes s reached) clash
  · rintro rfl s reached
    exact (reachable_inv reached).excludes

theorem lock_excludes_iff_small :
    ¬ ∀ s : State Bool, Reachable false s → s.Excludes := by
  intro excludes
  cases (lock_excludes_iff Bool false).mp excludes

end RiscvKernel.SpinLock
