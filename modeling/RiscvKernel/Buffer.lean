import RiscvKernel.Counting
import RiscvKernel.Machine
import Mathlib.Data.Finset.Image
import Mathlib.Data.Finset.Lattice.Lemmas
import Mathlib.Order.Interval.Finset.Nat

/-!
# The bounded buffer (`test/buffer.cpp`)

`Buffer::put` and `Buffer::get` are the same steps on different members:

* `put` waits for `spaceAvailable` and then `mutexTail`, stores at `tail`, moves `tail`,
  and signals `mutexTail` and then `itemAvailable`;
* `get` waits for `itemAvailable` and then `mutexHead`, reads at `head`, moves `head`,
  and signals `mutexHead` and then `spaceAvailable`.

Here threads take these steps in any order over counting semaphores.

* `BufferStep`: one step of one thread;
* `BufferState.Inv`: the values of the semaphores count the threads at each step;
* `step_inv`: every step keeps it;
* `BufferState.Inv.safe`: what it says about the slots.
-/

namespace RiscvKernel
open Function Counting

inductive Side where
  | put
  | get
  deriving DecidableEq, Repr

def Side.other : Side → Side
  | .put => .get
  | .get => .put

/-- The semaphores of a buffer: `available .put` is `spaceAvailable`, `available .get` is
`itemAvailable`, and `mutex` are `mutexTail` and `mutexHead`. -/
inductive BufferSem where
  | available (side : Side)
  | mutex (side : Side)
  deriving DecidableEq, Repr

/-- The next step of a `put` or a `get`. -/
inductive Line where
  | waitAvailable
  | waitMutex
  | loadIndex
  | access
  | reload
  | advance
  | signalMutex
  | signalAvailable
  deriving DecidableEq, Repr

/-- A call of `put` or `get`: the index it has loaded, and the value it puts or has read. -/
structure Call where
  side : Side
  line : Line
  reg : Int
  val : Int
  deriving DecidableEq, Repr

namespace Call

def waitsFor (c : Call) : Option BufferSem :=
  match c.line with
  | .waitAvailable => some (.available c.side)
  | .waitMutex => some (.mutex c.side)
  | _ => none

def signalsTo (c : Call) : Option BufferSem :=
  match c.line with
  | .signalMutex => some (.mutex c.side)
  | .signalAvailable => some (.available c.side.other)
  | _ => none

/-- What is left of the call behind a wait or a signal. -/
def next (c : Call) : Option Call :=
  match c.line with
  | .waitAvailable => some { c with line := .waitMutex }
  | .waitMutex => some { c with line := .loadIndex }
  | .signalMutex => some { c with line := .signalAvailable }
  | _ => none

/-- The semaphore that the call has waited for last. -/
def waitedFor (c : Call) : Option BufferSem :=
  match c.line with
  | .waitMutex => some (.available c.side)
  | .loadIndex => some (.mutex c.side)
  | _ => none

end Call

/-- The members of the buffer: `index .put` is `tail` and `index .get` is `head`. `done` and
`unread` are history variables: the values stored and read, in order, and the slots that are
stored and not read. -/
structure Buffer.Members where
  index : Side → Int
  slots : Int → Int
  done : Side → List Int
  unread : Finset Int

/-- `(index + 1) % cap` -/
def nextIndex (cap index : Int) : Int := (toI32 (index + 1)).tmod cap

/-- A step of a call that is no system call. -/
inductive Call.Moves (cap : Int) : Call → Buffer.Members → Call → Buffer.Members → Prop
  | loadIndex (side r v) (m : Buffer.Members) :
      Moves cap ⟨side, .loadIndex, r, v⟩ m ⟨side, .access, m.index side, v⟩ m
  | store (r v) (m : Buffer.Members) :
      Moves cap ⟨.put, .access, r, v⟩ m ⟨.put, .reload, r, v⟩ { m with
        slots := update m.slots r v
        done := update m.done .put (m.done .put ++ [v])
        unread := insert r m.unread }
  | read (r v) (m : Buffer.Members) :
      Moves cap ⟨.get, .access, r, v⟩ m ⟨.get, .reload, r, m.slots r⟩ { m with
        done := update m.done .get (m.done .get ++ [m.slots r])
        unread := m.unread.erase r }
  | reload (side r v) (m : Buffer.Members) :
      Moves cap ⟨side, .reload, r, v⟩ m ⟨side, .advance, m.index side, v⟩ m
  | advance (side r v) (m : Buffer.Members) :
      Moves cap ⟨side, .advance, r, v⟩ m ⟨side, .signalMutex, r, v⟩
        { m with index := update m.index side (nextIndex cap r) }

/-- The buffer, its semaphores, and the calls that are under way. -/
structure BufferState (α : Type) where
  sems : BufferSem → Semaphore α
  call : α → Option Call
  members : Buffer.Members

section
variable {α : Type} [DecidableEq α]

/-- A step of the thread `t`, which waits for nothing. -/
inductive BufferStep (cap : Int) (t : α) : BufferState α → BufferState α → Prop
  | start {σ} (side v) (running : ∀ m, t ∉ (σ.sems m).queue) (idle : σ.call t = none) :
      BufferStep cap t σ { σ with
        call := update σ.call t (some ⟨side, .waitAvailable, 0, v⟩) }
  | wait {σ c m} (running : ∀ m, t ∉ (σ.sems m).queue) (here : σ.call t = some c)
      (waits : c.waitsFor = some m) :
      BufferStep cap t σ { σ with
        sems := update σ.sems m ((σ.sems m).wait t), call := update σ.call t c.next }
  | signal {σ c m} (running : ∀ m, t ∉ (σ.sems m).queue) (here : σ.call t = some c)
      (signals : c.signalsTo = some m) :
      BufferStep cap t σ { σ with
        sems := update σ.sems m (σ.sems m).signal, call := update σ.call t c.next }
  | moves {σ c c' members'} (running : ∀ m, t ∉ (σ.sems m).queue) (here : σ.call t = some c)
      (moves : Call.Moves cap c σ.members c' members') :
      BufferStep cap t σ { σ with call := update σ.call t (some c'), members := members' }

end

/-! ## The invariant -/

/-- Between the wait for the semaphore and the slot. -/
def Line.before : Line → Bool
  | .waitMutex | .loadIndex | .access => true
  | _ => false

/-- Between the slot and the signal. -/
def Line.after : Line → Bool
  | .reload | .advance | .signalMutex | .signalAvailable => true
  | _ => false

/-- Between the wait for the mutex and its signal. -/
def Line.inside : Line → Bool
  | .loadIndex | .access | .reload | .advance | .signalMutex => true
  | _ => false

/-- Between the slot and the new index. -/
def Line.moving : Line → Bool
  | .reload | .advance => true
  | _ => false

/-- The call is on this side, and at a line with the property `φ`. -/
def onLine (side : Side) (φ : Line → Bool) (c : Option Call) : Bool :=
  c.any fun c => decide (c.side = side) && φ c.line

namespace BufferState
variable {α : Type}

/-- The number of calls of `put` or `get` that are at a line with the property `φ`. -/
def count (σ : BufferState α) (busy : Finset α) (side : Side) (φ : Line → Bool) : Nat :=
  crowd busy σ.call (onLine side φ)

/-- The units that a semaphore of the buffer is opened with. -/
def units (c : Nat) : BufferSem → Int
  | .available .put => c
  | .available .get => 0
  | .mutex _ => 1

/-- What holds between the steps of a buffer for `c` values, where `busy` are the threads with a
call under way. -/
structure Inv (σ : BufferState α) (c : Nat) (busy : Finset α) : Prop where
  known : ∀ t, σ.call t ≠ none → t ∈ busy
  available : ∀ side, (σ.sems (.available side)).val = units c (.available side) +
    (σ.members.done side.other).length - σ.count busy side.other Line.after -
    (σ.members.done side).length - σ.count busy side Line.before
  mutex : ∀ side, (σ.sems (.mutex side)).val = 1 - σ.count busy side Line.inside
  balanced : ∀ m, (σ.sems m).Balanced
  nodup : ∀ m, (σ.sems m).queue.Nodup
  queued : ∀ m, ∀ t ∈ (σ.sems m).queue, ∃ c, σ.call t = some c ∧ c.waitedFor = some m
  index : ∀ side, σ.members.index side =
    ((σ.members.done side).length - σ.count busy side Line.moving) % (c + 1)
  reg : ∀ t call, σ.call t = some call → call.line = .access ∨ call.line = .advance →
    call.reg = σ.members.index call.side
  behind : (σ.members.done .get).length ≤ (σ.members.done .put).length
  within : (σ.members.done .put).length ≤ (σ.members.done .get).length + c
  order : σ.members.done .get <+: σ.members.done .put
  slots : ∀ j (hj : j < (σ.members.done .put).length), (σ.members.done .get).length ≤ j →
    σ.members.slots ((j : Int) % (c + 1)) = (σ.members.done .put)[j]
  unread : σ.members.unread = (Finset.Ico (σ.members.done .get).length
    (σ.members.done .put).length).image fun j : Nat => (j : Int) % (c + 1)

/-- A buffer that nobody uses and where nothing is stored. -/
theorem inv_built {σ : BufferState α} {c : Nat} (val : ∀ m, (σ.sems m).val = units c m)
    (queue : ∀ m, (σ.sems m).queue = []) (idle : ∀ t, σ.call t = none)
    (index : ∀ side, σ.members.index side = 0) (done : ∀ side, σ.members.done side = [])
    (unread : σ.members.unread = ∅) : σ.Inv c ∅ := by
  have zero : ∀ side φ, σ.count ∅ side φ = 0 := fun _ _ => rfl
  refine ⟨fun t some => absurd (idle t) some, fun side => ?_, fun side => ?_, fun m => ?_,
    fun m => ?_, fun m t ht => ?_, fun side => ?_, fun t call here => ?_, ?_, ?_, ?_,
    fun j hj => ?_, ?_⟩
  · rw [val, done, done, zero, zero]
    simp
  · rw [val, zero]
    rfl
  · have nonneg : 0 ≤ units c m := by
      rcases m with (_ | _) | _ <;> simp [units]
    show (σ.sems m).queue.length = (-(σ.sems m).val).toNat
    rw [queue, val, List.length_nil]
    omega
  · rw [queue]
    exact List.nodup_nil
  · rw [queue] at ht
    exact absurd ht List.not_mem_nil
  · rw [index, done, zero]
    simp
  · rw [idle] at here
    cases here
  · rw [done, done]
  · rw [done, done]
    simp
  · rw [done, done]
  · simp [done] at hj
  · rw [unread, done, done]
    rfl

/-! ## Mutual exclusion and credit -/

section
variable [DecidableEq α] {σ : BufferState α} {c : Nat} {busy : Finset α} {t : α} {call : Call}

theorem onLine_some {side : Side} {φ : Line → Bool} :
    onLine side φ (some call) = (decide (call.side = side) && φ call.line) := rfl

/-- Together with the queue, the threads `ts` are in the crowd. -/
theorem Inv.crowded (inv : σ.Inv c busy) (m : BufferSem) (side : Side) (φ : Line → Bool)
    (queue : ∀ call : Call, call.waitedFor = some m → call.side = side ∧ φ call.line = true)
    (ts : List α) (nodup : ts.Nodup) (apart : ∀ x ∈ ts, x ∉ (σ.sems m).queue)
    (all : ∀ x ∈ ts, onLine side φ (σ.call x) = true) :
    ts.length + (σ.sems m).queue.length ≤ σ.count busy side φ := by
  have here : ∀ x, onLine side φ (σ.call x) = true → x ∈ busy := fun x seen =>
    inv.known x fun none => by simp [none, onLine] at seen
  rw [← List.length_append]
  refine length_le_crowd (List.nodup_append.mpr ⟨nodup, inv.nodup m, ?_⟩) fun x hx => ?_
  · rintro x hx y hy rfl
    exact apart x hx hy
  · rcases List.mem_append.mp hx with hx | hx
    · exact ⟨here x (all x hx), all x hx⟩
    · obtain ⟨call, called, waited⟩ := inv.queued m x hx
      have seen : onLine side φ (σ.call x) = true := by
        obtain ⟨same, at'⟩ := queue call waited
        rw [called, onLine_some, same, at']
        simp
      exact ⟨here x seen, seen⟩

theorem waitedFor_mutex {side : Side} (h : call.waitedFor = some (.mutex side)) :
    call.side = side ∧ call.line = .loadIndex := by
  unfold Call.waitedFor at h
  split at h
  · cases h
  · next line => exact ⟨by simpa using h, line⟩
  · cases h

theorem waitedFor_available {side : Side} (h : call.waitedFor = some (.available side)) :
    call.side = side ∧ call.line = .waitMutex := by
  unfold Call.waitedFor at h
  split at h
  · next line => exact ⟨by simpa using h, line⟩
  · cases h
  · cases h

/-- **Mutual exclusion.** Two threads that are past the wait for a mutex are one. -/
theorem Inv.alone (inv : σ.Inv c busy) {x : α} {call' : Call}
    (running : ∀ m, t ∉ (σ.sems m).queue) (here : σ.call t = some call)
    (inside : call.line.inside = true) (there : σ.call x = some call')
    (same : call'.side = call.side) (inside' : call'.line.inside = true)
    (past : call'.line ≠ .loadIndex) : x = t := by
  by_contra ne
  have crowded := inv.crowded (.mutex call.side) call.side Line.inside
    (fun c waited => by
      obtain ⟨side, line⟩ := waitedFor_mutex waited
      exact ⟨side, by rw [line]; rfl⟩)
    [t, x] (by simp [Ne.symm ne])
    (fun y hy => by
      simp only [List.mem_cons, List.not_mem_nil, or_false] at hy
      rcases hy with rfl | rfl
      · exact running _
      · intro queued
        obtain ⟨c, called, waited⟩ := inv.queued _ y queued
        rw [there] at called
        cases called
        exact past (waitedFor_mutex waited).2)
    (fun y hy => by
      simp only [List.mem_cons, List.not_mem_nil, or_false] at hy
      rcases hy with rfl | rfl
      · rw [here, onLine_some, inside]
        simp
      · rw [there, onLine_some, inside', same]
        simp)
  have val := inv.mutex call.side
  have balanced : (σ.sems (.mutex call.side)).queue.length = (-(σ.sems _).val).toNat :=
    inv.balanced (.mutex call.side)
  simp only [List.length_cons, List.length_nil] at crowded
  omega

/-- **Credit.** A thread that is past its first wait and not past its slot holds a unit. -/
theorem Inv.credit (inv : σ.Inv c busy) (running : ∀ m, t ∉ (σ.sems m).queue)
    (here : σ.call t = some call) (before : call.line.before = true) :
    ((σ.members.done call.side).length : Int) + 1 ≤
      units c (.available call.side) + (σ.members.done call.side.other).length := by
  have crowded := inv.crowded (.available call.side) call.side Line.before
    (fun c waited => by
      obtain ⟨side, line⟩ := waitedFor_available waited
      exact ⟨side, by rw [line]; rfl⟩)
    [t] (by simp) (fun y hy => by
      rw [List.mem_singleton.mp hy]
      exact running _)
    (fun y hy => by
      rw [List.mem_singleton.mp hy, here, onLine_some, before]
      simp)
  have val := inv.available call.side
  have balanced : (σ.sems (.available call.side)).queue.length = (-(σ.sems _).val).toNat :=
    inv.balanced (.available call.side)
  simp only [List.length_cons, List.length_nil] at crowded
  omega

/-! ## The steps -/

omit [DecidableEq α] in
theorem Inv.mem (inv : σ.Inv c busy) (here : σ.call t = some call) : t ∈ busy :=
  inv.known t (by simp [here])

/-- The counts after `t` has come to `call'`. -/
theorem count_step (mem : t ∈ busy) (call' : Option Call) (side : Side) (φ : Line → Bool) :
    crowd busy (update σ.call t call') (onLine side φ) + (onLine side φ (σ.call t)).toNat =
      σ.count busy side φ + (onLine side φ call').toNat := crowd_update mem call'

/-- Nobody who is at a line that the invariant does not count changes a count. -/
theorem count_start (idle : σ.call t = none) {side' : Side} {v : Int} (side : Side)
    {φ : Line → Bool} (first : φ .waitAvailable = false) :
    crowd (insert t busy) (update σ.call t (some ⟨side', .waitAvailable, 0, v⟩)) (onLine side φ) =
      σ.count busy side φ := by
  have off : onLine side φ (some ⟨side', .waitAvailable, 0, v⟩) = false := by
    rw [onLine_some, first, Bool.and_false]
  rw [crowd_insert (by rw [update_self, off])]
  refine crowd_congr fun x _ => ?_
  by_cases h : x = t
  · rw [h, update_self, off, idle]
    rfl
  · rw [update_of_ne h]

theorem Inv.start (inv : σ.Inv c busy) (idle : σ.call t = none) (side : Side) (v : Int) :
    Inv { σ with call := update σ.call t (some ⟨side, .waitAvailable, 0, v⟩) } c
      (insert t busy) := by
  have counts : ∀ (s : Side) {φ : Line → Bool}, φ .waitAvailable = false →
      BufferState.count { σ with call := update σ.call t (some ⟨side, .waitAvailable, 0, v⟩) }
        (insert t busy) s φ = σ.count busy s φ := fun s _ first => count_start idle s first
  refine ⟨fun x some => ?_, fun s => ?_, fun s => ?_, inv.balanced, inv.nodup, fun m x hx => ?_,
    fun s => ?_, fun x call called at' => ?_, inv.behind, inv.within, inv.order, inv.slots,
    inv.unread⟩
  · by_cases h : x = t
    · rw [h]
      exact Finset.mem_insert_self t busy
    · have some : σ.call x ≠ none := by simpa [h] using some
      exact Finset.mem_insert_of_mem (inv.known x some)
  · rw [counts _ rfl, counts _ rfl]
    exact inv.available s
  · rw [counts _ rfl]
    exact inv.mutex s
  · obtain ⟨call, called, waited⟩ := inv.queued m x hx
    have ne : x ≠ t := by
      rintro rfl
      rw [idle] at called
      cases called
    exact ⟨call, (update_of_ne ne _ _).trans called, waited⟩
  · rw [counts _ rfl]
    exact inv.index s
  · by_cases h : x = t
    · subst h
      have first : update σ.call x (some ⟨side, .waitAvailable, 0, v⟩) x = some call := called
      rw [update_self] at first
      cases first
      simp at at'
    · have called : σ.call x = some call := (update_of_ne h _ _).symm.trans called
      exact inv.reg x call called at'

/-- A step of `t` on the semaphores. -/
theorem Inv.sync (inv : σ.Inv c busy) (running : ∀ m, t ∉ (σ.sems m).queue)
    (here : σ.call t = some call) {sems : BufferSem → Semaphore α} {call' : Option Call}
    (available : ∀ side, (sems (.available side)).val + (onLine side.other Line.after call').toNat +
        (onLine side Line.before call').toNat = (σ.sems (.available side)).val +
      (onLine side.other Line.after (some call)).toNat +
        (onLine side Line.before (some call)).toNat)
    (mutex : ∀ side, (sems (.mutex side)).val + (onLine side Line.inside call').toNat =
      (σ.sems (.mutex side)).val + (onLine side Line.inside (some call)).toNat)
    (balanced : ∀ m, (sems m).Balanced) (nodup : ∀ m, (sems m).queue.Nodup)
    (queue : ∀ m, ∀ x ∈ (sems m).queue, x ∈ (σ.sems m).queue ∨
      x = t ∧ ∃ call, call' = some call ∧ call.waitedFor = some m)
    (moving : ∀ side, onLine side Line.moving call' = onLine side Line.moving (some call))
    (away : ∀ call, call' = some call → call.line ≠ .access ∧ call.line ≠ .advance) :
    Inv { σ with sems, call := update σ.call t call' } c busy := by
  have mem := inv.mem here
  have counts : ∀ side φ, BufferState.count { σ with sems, call := update σ.call t call' } busy side
      φ + (onLine side φ (some call)).toNat = σ.count busy side φ + (onLine side φ call').toNat :=
    fun side φ => here ▸ count_step mem call' side φ
  refine ⟨fun x some => ?_, fun side => ?_, fun side => ?_, balanced, nodup, fun m x hx => ?_,
    fun side => ?_, fun x call₁ called at' => ?_, inv.behind, inv.within, inv.order, inv.slots,
    inv.unread⟩
  · by_cases h : x = t
    · rw [h]
      exact mem
    · exact inv.known x (by simpa [h] using some)
  · have before := inv.available side
    have after' := counts side.other Line.after
    have before' := counts side Line.before
    have change := available side
    dsimp only
    omega
  · have before := inv.mutex side
    have inside' := counts side Line.inside
    have change := mutex side
    dsimp only
    omega
  · rcases queue m x hx with old | ⟨rfl, call, rfl, waited⟩
    · obtain ⟨call, called, waited⟩ := inv.queued m x old
      have ne : x ≠ t := by
        rintro rfl
        exact running m old
      exact ⟨call, (update_of_ne ne _ _).trans called, waited⟩
    · exact ⟨call, update_self .., waited⟩
  · have same := counts side Line.moving
    rw [moving] at same
    rw [Nat.add_right_cancel same]
    exact inv.index side
  · by_cases h : x = t
    · subst h
      have now : update σ.call x call' x = some call₁ := called
      rw [update_self] at now
      have off := away call₁ now
      exact absurd at' (not_or.mpr off)
    · exact inv.reg x call₁ ((update_of_ne h _ _).symm.trans called) at'

theorem Inv.wait (inv : σ.Inv c busy) (running : ∀ m, t ∉ (σ.sems m).queue)
    (here : σ.call t = some call) {m : BufferSem} (waits : call.waitsFor = some m) :
    Inv { σ with
      sems := update σ.sems m ((σ.sems m).wait t), call := update σ.call t call.next } c busy := by
  have val : ∀ m', (update σ.sems m ((σ.sems m).wait t) m').val =
      (σ.sems m').val - if m' = m then 1 else 0 := by
    intro m'
    by_cases h : m' = m
    · subst h
      simp [Semaphore.wait]
    · simp [h]
  have queue : ∀ m', (update σ.sems m ((σ.sems m).wait t) m').queue = (σ.sems m').queue ∨
      m' = m ∧ (update σ.sems m ((σ.sems m).wait t) m').queue = (σ.sems m').queue ++ [t] := by
    intro m'
    by_cases h : m' = m
    · subst h
      rw [update_self]
      unfold Semaphore.wait
      dsimp only
      split
      · exact Or.inr ⟨rfl, rfl⟩
      · exact Or.inl rfl
    · exact Or.inl (by rw [update_of_ne h])
  obtain ⟨s, line, r, v⟩ := call
  refine inv.sync running here (fun side => ?_) (fun side => ?_) (fun m' => ?_) (fun m' => ?_)
    (fun m' x hx => ?_) (fun side => ?_) (fun call next => ?_)
  · rw [val]
    cases line <;> cases waits
    · cases s <;> cases side <;> simp [onLine, Call.next, Line.before, Line.after, Side.other]
    · cases s <;> cases side <;> simp [onLine, Call.next, Line.before, Line.after, Side.other]
  · rw [val]
    cases line <;> cases waits
    · cases s <;> cases side <;> simp [onLine, Call.next, Line.inside]
    · cases s <;> cases side <;> simp [onLine, Call.next, Line.inside]
  · by_cases h : m' = m
    · subst h
      rw [update_self]
      exact (inv.balanced m').wait t
    · rw [update_of_ne h]
      exact inv.balanced m'
  · rcases queue m' with same | ⟨-, more⟩
    · rw [same]
      exact inv.nodup m'
    · rw [more]
      refine List.nodup_append.mpr ⟨inv.nodup m', List.nodup_singleton t, ?_⟩
      rintro x hx y hy rfl
      rw [List.mem_singleton.mp hy] at hx
      exact running m' hx
  · rcases queue m' with same | ⟨rfl, more⟩
    · rw [same] at hx
      exact Or.inl hx
    · rw [more] at hx
      rcases List.mem_append.mp hx with old | new
      · exact Or.inl old
      · refine Or.inr ⟨List.mem_singleton.mp new, ?_⟩
        cases line <;> cases waits
        · exact ⟨_, rfl, rfl⟩
        · exact ⟨_, rfl, rfl⟩
  · cases line <;> cases waits <;> simp [onLine, Call.next, Line.moving]
  · cases line <;> cases waits <;> cases next <;> exact ⟨Line.noConfusion, Line.noConfusion⟩

theorem Inv.signal (inv : σ.Inv c busy) (running : ∀ m, t ∉ (σ.sems m).queue)
    (here : σ.call t = some call) {m : BufferSem} (signals : call.signalsTo = some m) :
    Inv { σ with
      sems := update σ.sems m (σ.sems m).signal, call := update σ.call t call.next } c busy := by
  have val : ∀ m', (update σ.sems m (σ.sems m).signal m').val =
      (σ.sems m').val + if m' = m then 1 else 0 := by
    intro m'
    by_cases h : m' = m
    · subst h
      simp [Semaphore.signal]
    · simp [h]
  have queue : ∀ m', (update σ.sems m (σ.sems m).signal m').queue <:+ (σ.sems m').queue := by
    intro m'
    by_cases h : m' = m
    · subst h
      rw [update_self, (inv.balanced m').signal_queue]
      exact List.tail_suffix _
    · rw [update_of_ne h]
  obtain ⟨s, line, r, v⟩ := call
  refine inv.sync running here (fun side => ?_) (fun side => ?_) (fun m' => ?_) (fun m' => ?_)
    (fun m' x hx => Or.inl ((queue m').subset hx)) (fun side => ?_) (fun call next => ?_)
  · rw [val]
    cases line <;> cases signals
    · cases s <;> cases side <;> simp [onLine, Call.next, Line.before, Line.after, Side.other]
    · cases s <;> cases side <;> simp [onLine, Call.next, Line.before, Line.after, Side.other]
  · rw [val]
    cases line <;> cases signals
    · cases s <;> cases side <;> simp [onLine, Call.next, Line.inside]
    · cases s <;> cases side <;> simp [onLine, Call.next, Line.inside, Side.other]
  · by_cases h : m' = m
    · subst h
      rw [update_self]
      exact (inv.balanced m').signal
    · rw [update_of_ne h]
      exact inv.balanced m'
  · exact (inv.nodup m').sublist (queue m').sublist
  · cases line <;> cases signals <;> simp [onLine, Call.next, Line.moving]
  · cases line <;> cases signals
    · cases next
      exact ⟨Line.noConfusion, Line.noConfusion⟩
    · cases next

/-- The threads in the queues are where they were when `t` takes a step. -/
theorem Inv.queued_step (inv : σ.Inv c busy) (running : ∀ m, t ∉ (σ.sems m).queue)
    (call' : Option Call) (m : BufferSem) (x : α) (queued : x ∈ (σ.sems m).queue) :
    ∃ call, update σ.call t call' x = some call ∧ call.waitedFor = some m := by
  obtain ⟨call, called, waited⟩ := inv.queued m x queued
  have ne : x ≠ t := by
    rintro rfl
    exact running m queued
  exact ⟨call, (update_of_ne ne _ _).trans called, waited⟩

theorem Inv.known_step (inv : σ.Inv c busy) (here : σ.call t = some call) (call' : Option Call)
    (x : α) (some : update σ.call t call' x ≠ none) : x ∈ busy := by
  by_cases h : x = t
  · rw [h]
    exact inv.mem here
  · exact inv.known x (by rwa [update_of_ne h] at some)

/-- `t` loads the index. -/
theorem Inv.load (inv : σ.Inv c busy) (running : ∀ m, t ∉ (σ.sems m).queue)
    (here : σ.call t = some call) {call' : Call} (side : call'.side = call.side)
    (reg : call'.reg = σ.members.index call.side)
    (same : ∀ φ ∈ [Line.before, Line.after, Line.inside, Line.moving], φ call'.line = φ call.line) :
    Inv { σ with call := update σ.call t (some call') } c busy := by
  have counts : ∀ side, ∀ φ ∈ [Line.before, Line.after, Line.inside, Line.moving],
      BufferState.count { σ with call := update σ.call t (some call') } busy side φ =
        σ.count busy side φ := by
    intro side' φ mem
    have step := @count_step _ _ σ busy t (inv.mem here) (some call') side' φ
    rw [here, onLine_some, onLine_some, same φ mem, side] at step
    exact Nat.add_right_cancel step
  refine ⟨inv.known_step here _, fun side => ?_, fun side => ?_, inv.balanced, inv.nodup,
    inv.queued_step running _, fun side => ?_, fun x call₁ called at' => ?_, inv.behind, inv.within,
    inv.order, inv.slots, inv.unread⟩
  · rw [counts side.other _ (by simp), counts side _ (by simp)]
    exact inv.available side
  · rw [counts side _ (by simp)]
    exact inv.mutex side
  · rw [counts side _ (by simp)]
    exact inv.index side
  · by_cases h : x = t
    · subst h
      have now : update σ.call x (some call') x = some call₁ := called
      rw [update_self] at now
      cases now
      rw [side]
      exact reg
    · exact inv.reg x call₁ ((update_of_ne h _ _).symm.trans called) at'

/-- No index is being moved while `t` is at its slot. -/
theorem Inv.still (inv : σ.Inv c busy) (running : ∀ m, t ∉ (σ.sems m).queue)
    (here : σ.call t = some call) (at' : call.line = .access) :
    σ.count busy call.side Line.moving = 0 := by
  by_contra some
  obtain ⟨x, -, moves⟩ := exists_of_crowd_pos (Nat.pos_of_ne_zero some)
  cases there : σ.call x with
  | none =>
    rw [there] at moves
    cases moves
  | some call' =>
    rw [there, onLine_some] at moves
    simp only [Bool.and_eq_true, decide_eq_true_eq] at moves
    obtain ⟨same, moving⟩ := moves
    have inside : call'.line.inside = true ∧ call'.line ≠ .loadIndex ∧ call'.line ≠ .access := by
      cases line : call'.line <;> simp_all [Line.moving, Line.inside]
    have self := inv.alone running here (by rw [at']; rfl) there same inside.1 inside.2.1
    rw [self, here] at there
    cases there
    exact inside.2.2 at'

/-- The slot that `t` comes to. -/
theorem Inv.slot (inv : σ.Inv c busy) (running : ∀ m, t ∉ (σ.sems m).queue)
    (here : σ.call t = some call) (at' : call.line = .access) :
    call.reg = ((σ.members.done call.side).length : Int) % (c + 1) := by
  rw [inv.reg t call here (Or.inl at'), inv.index, inv.still running here at']
  simp

/-- `t` is done with its slot. -/
theorem Inv.accessed (inv : σ.Inv c busy) (running : ∀ m, t ∉ (σ.sems m).queue)
    (here : σ.call t = some call) (at' : call.line = .access) (call' : Call)
    (side : call'.side = call.side) (line : call'.line = .reload) (members : Buffer.Members)
      {w : Int}
    (index : members.index = σ.members.index)
    (done : members.done = update σ.members.done call.side (σ.members.done call.side ++ [w]))
    (behind : (members.done .get).length ≤ (members.done .put).length)
    (within : (members.done .put).length ≤ (members.done .get).length + c)
    (order : members.done .get <+: members.done .put)
    (slots : ∀ j (hj : j < (members.done .put).length), (members.done .get).length ≤ j →
      members.slots ((j : Int) % (c + 1)) = (members.done .put)[j])
    (unread : members.unread = (Finset.Ico (members.done .get).length
      (members.done .put).length).image fun j : Nat => (j : Int) % (c + 1)) :
    Inv { σ with call := update σ.call t (some call'), members } c busy := by
  have counts : ∀ side φ,
      BufferState.count { σ with call := update σ.call t (some call'), members } busy side φ +
        (decide (call.side = side) && φ .access).toNat =
      σ.count busy side φ + (decide (call.side = side) && φ .reload).toNat := by
    intro side' φ
    have step := @count_step _ _ σ busy t (inv.mem here) (some call') side' φ
    rw [here, onLine_some, onLine_some, at', side, line] at step
    exact step
  have lengths : ∀ side, (members.done side).length =
      (σ.members.done side).length + (decide (call.side = side)).toNat := by
    intro side
    rw [done]
    by_cases h : side = call.side
    · subst h
      simp
    · simp [h, Ne.symm h]
  refine ⟨inv.known_step here _, fun side => ?_, fun side => ?_, inv.balanced, inv.nodup,
    inv.queued_step running _, fun side => ?_, fun x call₁ called at'' => ?_, behind, within, order,
    slots, unread⟩
  · have val := inv.available side
    have after := counts side.other Line.after
    have before := counts side Line.before
    have here := lengths side
    have there := lengths side.other
    simp only [Line.after, Line.before, Bool.and_true, Bool.and_false,
      Bool.toNat_false] at after before
    dsimp only
    omega
  · have val := inv.mutex side
    have inside := counts side Line.inside
    simp only [Line.inside] at inside
    dsimp only
    omega
  · have moving := counts side Line.moving
    have here := lengths side
    simp only [Line.moving, Bool.and_true, Bool.and_false, Bool.toNat_false] at moving
    have val := inv.index side
    dsimp only
    rw [index, val]
    congr 1
    omega
  · by_cases h : x = t
    · subst h
      have now : update σ.call x (some call') x = some call₁ := called
      rw [update_self] at now
      cases now
      rw [line] at at''
      simp at at''
    · have called : σ.call x = some call₁ := (update_of_ne h _ _).symm.trans called
      have old := inv.reg x call₁ called at''
      dsimp only
      rw [index, old]

/-- `(index + 1) % cap`, without an overflow. -/
theorem nextIndex_eq (small : c < 2 ^ 31 - 1) (x : Int) :
    nextIndex (c + 1) (x % (c + 1)) = (x + 1) % (c + 1) := by
  have lo : 0 ≤ x % ((c : Int) + 1) := Int.emod_nonneg x (by omega)
  have hi : x % ((c : Int) + 1) < c + 1 := Int.emod_lt_of_pos x (by omega)
  unfold nextIndex
  rw [toI32_eq (by omega) (by omega), Int.tmod_eq_emod_of_nonneg (by omega), Int.emod_add_emod]

/-- `t` moves the index. -/
theorem Inv.advance (inv : σ.Inv c busy) (small : c < 2 ^ 31 - 1)
    (running : ∀ m, t ∉ (σ.sems m).queue) (here : σ.call t = some call)
    (at' : call.line = .advance) {call' : Call} (side : call'.side = call.side)
    (line : call'.line = .signalMutex) :
    Inv { σ with
      call := update σ.call t (some call')
      members := { σ.members with
        index := update σ.members.index call.side (nextIndex (c + 1) call.reg) } } c busy := by
  have counts : ∀ side φ, crowd busy (update σ.call t (some call')) (onLine side φ) +
        (decide (call.side = side) && φ .advance).toNat =
      σ.count busy side φ + (decide (call.side = side) && φ .signalMutex).toNat := by
    intro side' φ
    have step := @count_step _ _ σ busy t (inv.mem here) (some call') side' φ
    rw [here, onLine_some, onLine_some, at', side, line] at step
    exact step
  have same : ∀ side, ∀ φ ∈ [Line.before, Line.after, Line.inside],
      crowd busy (update σ.call t (some call')) (onLine side φ) = σ.count busy side φ := by
    intro side φ mem
    have step := counts side φ
    have lines : φ .advance = φ .signalMutex := by
      simp only [List.mem_cons, List.not_mem_nil, or_false] at mem
      rcases mem with rfl | rfl | rfl <;> rfl
    rw [lines] at step
    exact Nat.add_right_cancel step
  refine ⟨inv.known_step here _, fun side => ?_, fun side => ?_, inv.balanced, inv.nodup,
    inv.queued_step running _, fun side => ?_, fun x call₁ called at'' => ?_, inv.behind,
      inv.within,
    inv.order, inv.slots, inv.unread⟩
  · unfold count
    dsimp only
    rw [same side.other _ (by simp), same side _ (by simp)]
    exact inv.available side
  · unfold count
    dsimp only
    rw [same side _ (by simp)]
    exact inv.mutex side
  · have step := counts side Line.moving
    have val := inv.index side
    unfold count
    dsimp only
    by_cases h : side = call.side
    · subst h
      have one : crowd busy (update σ.call t (some call')) (onLine call.side Line.moving) + 1 =
          σ.count busy call.side Line.moving := by simpa [Line.moving] using step
      rw [update_self, inv.reg t call here (Or.inr at'), val, nextIndex_eq small]
      congr 1
      omega
    · have none : crowd busy (update σ.call t (some call')) (onLine side Line.moving) =
          σ.count busy side Line.moving := by simpa [Line.moving, Ne.symm h] using step
      rw [update_of_ne h, none, val]
  · by_cases h : x = t
    · subst h
      have now : update σ.call x (some call') x = some call₁ := called
      rw [update_self] at now
      cases now
      rw [line] at at''
      simp at at''
    · have there : σ.call x = some call₁ := (update_of_ne h _ _).symm.trans called
      have old := inv.reg x call₁ there at''
      have apart : call₁.side ≠ call.side := fun sides => by
        have inside : call₁.line.inside = true ∧ call₁.line ≠ .loadIndex := by
          rcases at'' with line | line <;> rw [line] <;> exact ⟨rfl, Line.noConfusion⟩
        exact h (inv.alone running here (by rw [at']; rfl) there sides inside.1 inside.2)
      dsimp only
      rw [update_of_ne apart, old]

/-! ## Slots -/

/-- Positions less than `cap` apart have slots of their own. -/
theorem slot_ne {i j : Nat} (lt : i < j) (near : j < i + (c + 1)) :
    (i : Int) % (c + 1) ≠ (j : Int) % (c + 1) := by
  intro same
  have zero := Int.emod_eq_emod_iff_emod_sub_eq_zero.mp same.symm
  have le := Int.le_of_dvd (by omega) (Int.dvd_of_emod_eq_zero zero)
  omega

/-- `t` stores its value. -/
theorem Inv.store (inv : σ.Inv c busy) (running : ∀ m, t ∉ (σ.sems m).queue) {r v : Int}
    (here : σ.call t = some ⟨.put, .access, r, v⟩) :
    Inv { σ with
      call := update σ.call t (some ⟨.put, .reload, r, v⟩)
      members := { σ.members with
        slots := update σ.members.slots r v
        done := update σ.members.done .put (σ.members.done .put ++ [v])
        unread := insert r σ.members.unread } } c busy := by
  have slot : r = ((σ.members.done .put).length : Int) % (c + 1) := inv.slot running here rfl
  have credit : ((σ.members.done .put).length : Int) + 1 ≤ c + (σ.members.done .get).length :=
    inv.credit running here rfl
  have behind := inv.behind
  have put : update σ.members.done .put (σ.members.done .put ++ [v]) .put =
      σ.members.done .put ++ [v] := update_self ..
  have get : update σ.members.done .put (σ.members.done .put ++ [v]) .get = σ.members.done .get :=
    update_of_ne Side.noConfusion ..
  refine inv.accessed running here rfl ⟨.put, .reload, r, v⟩ rfl rfl { σ.members with
    slots := update σ.members.slots r v
    done := update σ.members.done .put (σ.members.done .put ++ [v])
    unread := insert r σ.members.unread } rfl rfl ?_ ?_ ?_ ?_ ?_
  all_goals simp only [put, get, List.length_append, List.length_singleton]
  · omega
  · omega
  · exact inv.order.trans (List.prefix_append ..)
  · intro j hj le
    by_cases last : j = (σ.members.done .put).length
    · subst last
      rw [← slot, update_self, List.getElem_concat_length rfl]
    · have ne : (j : Int) % (c + 1) ≠ r := by
        rw [slot]
        exact slot_ne (by omega) (by omega)
      rw [update_of_ne ne, List.getElem_append_left (by omega)]
      exact inv.slots j (by omega) le
  · rw [inv.unread, slot, Nat.Ico_succ_right_eq_insert_Ico behind, Finset.image_insert]

/-- `t` reads the value that was stored first. -/
theorem Inv.read (inv : σ.Inv c busy) (running : ∀ m, t ∉ (σ.sems m).queue) {r v : Int}
    (here : σ.call t = some ⟨.get, .access, r, v⟩) :
    Inv { σ with
      call := update σ.call t (some ⟨.get, .reload, r, σ.members.slots r⟩)
      members := { σ.members with
        done := update σ.members.done .get (σ.members.done .get ++ [σ.members.slots r])
        unread := σ.members.unread.erase r } } c busy := by
  have slot : r = ((σ.members.done .get).length : Int) % (c + 1) := inv.slot running here rfl
  have credit : ((σ.members.done .get).length : Int) + 1 ≤ 0 + (σ.members.done .put).length :=
    inv.credit running here rfl
  have within := inv.within
  have lt : (σ.members.done .get).length < (σ.members.done .put).length := by omega
  have value : σ.members.slots r = (σ.members.done .put)[(σ.members.done .get).length] := by
    rw [slot]
    exact inv.slots _ lt le_rfl
  have get : update σ.members.done .get (σ.members.done .get ++ [σ.members.slots r]) .get =
      σ.members.done .get ++ [σ.members.slots r] := update_self ..
  have put : update σ.members.done .get (σ.members.done .get ++ [σ.members.slots r]) .put =
      σ.members.done .put := update_of_ne Side.noConfusion ..
  refine inv.accessed running here rfl ⟨.get, .reload, r, σ.members.slots r⟩ rfl rfl
    { σ.members with
    done := update σ.members.done .get (σ.members.done .get ++ [σ.members.slots r])
    unread := σ.members.unread.erase r } rfl rfl ?_ ?_ ?_ ?_ ?_
  all_goals simp only [put, get, List.length_append, List.length_singleton]
  · omega
  · omega
  · have take := List.take_succ_eq_append_getElem lt
    rw [← List.prefix_iff_eq_take.mp inv.order, ← value] at take
    rw [← take]
    exact List.take_prefix ..
  · exact fun j hj le => inv.slots j hj (by omega)
  · have first : Finset.Ico (σ.members.done .get).length (σ.members.done .put).length =
        insert (σ.members.done .get).length
          (Finset.Ico ((σ.members.done .get).length + 1) (σ.members.done .put).length) := by
      ext j
      simp only [Finset.mem_Ico, Finset.mem_insert]
      omega
    rw [inv.unread, first, Finset.image_insert, ← slot, Finset.erase_insert]
    intro mem
    obtain ⟨j, hj, same⟩ := Finset.mem_image.mp mem
    have bounds := Finset.mem_Ico.mp hj
    rw [slot] at same
    exact slot_ne (by omega) (by omega) same.symm

omit [DecidableEq α] in
/-- No count exceeds the capacity or a single unit. -/
theorem Inv.val_le (inv : σ.Inv c busy) (m : BufferSem) : (σ.sems m).val ≤ max (c : Int) 1 := by
  have behind := inv.behind
  have within := inv.within
  cases m with
  | available side =>
    have val := inv.available side
    cases side with
    | put =>
      simp only [units, Side.other] at val
      omega
    | get =>
      simp only [units, Side.other] at val
      omega
  | mutex side =>
    have val := inv.mutex side
    omega

/-- **Steps.** -/
theorem step_inv {σ' : BufferState α} (inv : σ.Inv c busy) (small : c < 2 ^ 31 - 1)
    (step : BufferStep (c + 1) t σ σ') : ∃ busy', σ'.Inv c busy' := by
  cases step with
  | start side v _ idle => exact ⟨_, inv.start idle side v⟩
  | wait running here waits => exact ⟨_, inv.wait running here waits⟩
  | signal running here signals => exact ⟨_, inv.signal running here signals⟩
  | moves running here moves =>
    cases moves with
    | loadIndex side r v =>
      refine ⟨_, inv.load running here rfl rfl fun φ mem => ?_⟩
      simp only [List.mem_cons, List.not_mem_nil, or_false] at mem
      rcases mem with rfl | rfl | rfl | rfl <;> rfl
    | store r v => exact ⟨_, inv.store running here⟩
    | read r v => exact ⟨_, inv.read running here⟩
    | reload side r v =>
      refine ⟨_, inv.load running here rfl rfl fun φ mem => ?_⟩
      simp only [List.mem_cons, List.not_mem_nil, or_false] at mem
      rcases mem with rfl | rfl | rfl | rfl <;> rfl
    | advance side r v => exact ⟨_, inv.advance small running here rfl rfl rfl⟩

/-- What the invariant says about the slots: at most `c` values are stored, what was read is
the first of what was stored, a thread that comes to store finds its slot free, and one
that comes to read finds the next value there. -/
structure Safe (σ : BufferState α) (c : Nat) : Prop where
  few : σ.members.unread.card ≤ c
  order : σ.members.done .get <+: σ.members.done .put
  free : ∀ t r v, (∀ m, t ∉ (σ.sems m).queue) → σ.call t = some ⟨.put, .access, r, v⟩ →
    r ∉ σ.members.unread
  stored : ∀ t r v, (∀ m, t ∉ (σ.sems m).queue) → σ.call t = some ⟨.get, .access, r, v⟩ →
    r ∈ σ.members.unread

theorem Inv.safe (inv : σ.Inv c busy) : σ.Safe c := by
  have behind := inv.behind
  have within := inv.within
  refine ⟨?_, inv.order, fun t r v running here mem => ?_, fun t r v running here => ?_⟩
  · rw [inv.unread]
    refine Finset.card_image_le.trans ?_
    rw [Nat.card_Ico]
    omega
  · have slot : r = ((σ.members.done .put).length : Int) % (c + 1) := inv.slot running here rfl
    have credit : ((σ.members.done .put).length : Int) + 1 ≤ c + (σ.members.done .get).length :=
      inv.credit running here rfl
    rw [inv.unread] at mem
    obtain ⟨j, hj, same⟩ := Finset.mem_image.mp mem
    have bounds := Finset.mem_Ico.mp hj
    rw [slot] at same
    exact slot_ne (by omega) (by omega) same
  · have slot : r = ((σ.members.done .get).length : Int) % (c + 1) := inv.slot running here rfl
    have credit : ((σ.members.done .get).length : Int) + 1 ≤ 0 + (σ.members.done .put).length :=
      inv.credit running here rfl
    rw [inv.unread, slot]
    exact Finset.mem_image_of_mem _ (Finset.mem_Ico.mpr ⟨le_rfl, by omega⟩)

end

end BufferState

end RiscvKernel
