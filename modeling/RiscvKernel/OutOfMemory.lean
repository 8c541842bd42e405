import RiscvKernel.Api

/-!
# Running out of memory

Four calls of the API allocate.

* `memAlloc_null`, `memAlloc_takes`: the index after `__mem_alloc`, by its result;
* `AllocCall.Clean`: the call reports a failure and leaves the kernel as it was;
* `out_of_memory_iff`: which calls do when `__mem_alloc` returns 0.
-/

namespace RiscvKernel
open Function Tiling

/-! ## The index -/

/-- `__mem_alloc` returns 0. -/
def Heap.Refuses (h : Heap) (nblocks : Nat) : Prop := ∃ h', memAlloc nblocks h = .ok (0, h')

section
variable {h h' : Heap} {live : Multiset (Nat × Nat)} {nb p : Nat}

theorem memAlloc_nonnull (holds : h.Holds live) (pos : 0 < nb) (room : h.HasRoom nb)
    (taken : memAlloc nb h = .ok (p, h')) : p ≠ 0 ∧ h'.Holds ((p, nb) ::ₘ live) := by
  obtain ⟨p', h₁, eq, -, holds'⟩ := memAlloc_spec holds pos room
  rw [taken] at eq
  cases eq
  exact ⟨(holds'.starts.2 (p, nb) (Multiset.mem_cons_self _ _)).ne', holds'⟩

/-- A refused request leaves the index as it is. -/
theorem memAlloc_null (holds : h.Holds live) (pos : 0 < nb) (bound : nb < 2 ^ 58)
    (null : memAlloc nb h = .ok (0, h')) : ¬ h.HasRoom nb ∧ h'.memIndex = h.memIndex := by
  have full : ¬ h.HasRoom nb := fun room => (memAlloc_nonnull holds pos room null).1 rfl
  refine ⟨full, ?_⟩
  rcases memAlloc_ends holds full bound with
    ⟨-, h₁, eq, -, same⟩ | ⟨-, panics | ⟨h₁, eq, -⟩⟩
  · rw [null] at eq
    cases eq
    exact same
  · rw [null] at panics
    cases panics
  · have addr := holds.ok.blockAddr_eq (Nat.le_refl h.nMemBlocks)
    have two := holds.ok.two
    have zero : (0 : Nat) = h.blockAddr h.nMemBlocks :=
      congrArg Prod.fst (Except.ok.inj (null.symm.trans eq))
    omega

/-- A request that is served changes the index. -/
theorem memAlloc_takes (holds : h.Holds live) (pos : 0 < nb) (room : h.HasRoom nb)
    (taken : memAlloc nb h = .ok (p, h')) : h'.memIndex ≠ h.memIndex := by
  obtain ⟨pre, k, post, h₁, tiles, -, eq, -, tiles'⟩ := memAlloc_carves holds pos room
  rw [taken] at eq
  cases eq
  intro same
  rw [same, List.append_assoc] at tiles'
  have free := List.append_cancel_left (tiles.det tiles')
  unfold carve at free
  split at free <;> simp at free

end

/-! ## Refused requests -/

section
variable {k : Kernel} {heap : Heap} {context : Nat}

theorem handleSemOpen_refused (null : memAlloc (sizeInBlocks 16) k.heap = .ok (0, heap)) :
    handleSemOpen k context =
      .ok ({ k with heap }.setContext context regA0 (u64 semCreateNoMemory)) := by
  unfold handleSemOpen
  rw [semOpen_refused null]
  rfl

theorem handleThreadCreate_refused (null : memAlloc (sizeInBlocks 56) k.heap = .ok (0, heap)) :
    handleThreadCreate k context =
      .ok ({ k with heap }.setContext context regA0 (u64 threadCreateNoMemory)) := by
  unfold handleThreadCreate threadCreate Kernel.alloc
  dsimp only
  rw [null]
  rfl

/-- The record is written before the result of `__mem_alloc` is looked at. -/
theorem newSleeping_refused (null : memAlloc (sizeInBlocks 40) k.heap = .ok (0, heap))
    (thread semaphore delta : Nat) :
    newSleeping k thread semaphore delta = .error .nullPointer := by
  unfold newSleeping Kernel.alloc
  rw [null]
  rfl

theorem schedulerTimeout_first_refused (null : memAlloc (sizeInBlocks 40) k.heap = .ok (0, heap))
    (empty : k.scheduler.sleepingThreads = 0) (thread time semaphore : Nat) :
    schedulerTimeout k thread time semaphore = .error .nullPointer := by
  unfold schedulerTimeout
  simp only [empty, ↓reduceIte, newSleeping_refused null]
  rfl

theorem schedulerTimeout_refused (null : memAlloc (sizeInBlocks 40) k.heap = .ok (0, heap))
    {thread time semaphore : Nat} {k' : Kernel} :
    schedulerTimeout k thread time semaphore ≠ .ok k' := by
  intro done
  unfold schedulerTimeout at done
  dsimp only at done
  split at done
  · rw [newSleeping_refused null] at done
    cases done
  split at done
  · rw [newSleeping_refused (k := k.modifySleeping _ _) null] at done
    cases done
  obtain ⟨⟨node, delta⟩, -, done⟩ := ok_bind done
  rw [newSleeping_refused null] at done
  cases done

theorem handleTimedSleep_refused (null : memAlloc (sizeInBlocks 40) k.heap = .ok (0, heap))
    (nonzero : k.context context regA1 ≠ 0) (k' : Kernel) :
    handleTimedSleep k context ≠ .ok k' := by
  intro done
  unfold handleTimedSleep at done
  dsimp only at done
  rw [if_neg nonzero] at done
  obtain ⟨k₁, timeout, -⟩ := ok_bind done
  exact schedulerTimeout_refused (k := k.setContext context regA0 0) null timeout

theorem handleSemTimedWait_refused (null : memAlloc (sizeInBlocks 40) k.heap = .ok (0, heap))
    (k' : Kernel) : handleSemTimedWait k context ≠ .ok k' := by
  intro done
  obtain ⟨waited, timed, -⟩ := ok_bind done
  obtain ⟨k₁, timeout, -⟩ := ok_bind timed
  exact schedulerTimeout_refused
    (k := k.modifyThread k.scheduler.threadCurrent fun t => { t with timeLeft := 0 }) null timeout

end

/-! ## The calls that allocate -/

inductive AllocCall where
  | semOpen (handle cnt : Nat)
  | threadCreate (handle startF arg : Nat)
  | timeSleep (time : Nat)
  | semTimedWait (handle timeout : Nat)

/-- The call, where its traps find `u 0`, `u 1` and `u 2`. -/
def AllocCall.run (k : Kernel) (u : Nat → Trap) : AllocCall → Except Halt (Int × Kernel)
  | .semOpen handle cnt => Api.semOpen k (u 0) handle cnt
  | .threadCreate handle startF arg => Api.threadCreate k u handle startF arg
  | .timeSleep time => Api.timeSleep k (u 0) time
  | .semTimedWait handle timeout => Api.semTimedWait k (u 0) handle timeout

/-- `__mem_alloc` returns 0 for a request of the call. -/
def AllocCall.Refused (k : Kernel) : AllocCall → Prop
  | .semOpen _ _ => k.heap.Refuses (sizeInBlocks 16)
  | .threadCreate _ _ _ => k.heap.Refuses (sizeInBlocks defaultStackSize) ∨
      k.heap.HasRoom (sizeInBlocks defaultStackSize) ∧
        ∃ p h, memAlloc (sizeInBlocks defaultStackSize) k.heap = .ok (p, h) ∧
          h.Refuses (sizeInBlocks 56)
  | .timeSleep time => time ≠ 0 ∧ k.heap.Refuses (sizeInBlocks 40)
  | .semTimedWait _ _ => k.heap.Refuses (sizeInBlocks 40)

/-- The index, the ready queue and the counter of user threads, the sleeping list with its
times, and the semaphores with their rings. -/
structure Kernel.SameTables (k k' : Kernel) : Prop where
  memIndex : k'.heap.memIndex = k.heap.memIndex
  links : k'.links = k.links
  scheduler : k'.scheduler = k.scheduler
  sleepLinks : k'.sleepLinks = k.sleepLinks
  sleeping : k'.sleeping = k.sleeping
  sem : k'.sem = k.sem

/-- The call returns with a negative code, and the kernel is as it was. -/
def AllocCall.Clean (c : AllocCall) (k : Kernel) (u : Nat → Trap) : Prop :=
  ∃ r k', c.run k u = .ok (r, k') ∧ r < 0 ∧ k.SameTables k'

/-- The call opens a semaphore, or it creates a thread and finds no room for its stack. -/
def AllocCall.Safe (k : Kernel) : AllocCall → Prop
  | .semOpen _ _ => True
  | .threadCreate _ _ _ => ¬ k.heap.HasRoom (sizeInBlocks defaultStackSize)
  | .timeSleep _ => False
  | .semTimedWait _ _ => False

/-! ## The calls, one by one -/

section
variable {k : Kernel} {heap : Heap}

/-- A request that changes nothing but the heap and `a0` of its frame. -/
theorem ecall_refused (v : Trap) (code : Nat) (args : List Nat) {a0 : Nat}
    (same : heap.memIndex = k.heap.memIndex)
    (run : handleSyscall (bumpSepc (enter k (v.ecall code args)) 4) (v.ecall code args).frame code =
      .ok ({ bumpSepc (enter k (v.ecall code args)) 4 with heap }.setContext
        (v.ecall code args).frame regA0 a0)) :
    ∃ k', ecall k v code args = .ok (a0, k') ∧ k'.heap = heap ∧ k.SameTables k' := by
  have called := ecall_answers run rfl rfl
  exact ⟨_, called, rfl, same, rfl, rfl, rfl, rfl, rfl⟩

/-- The first argument of a request. -/
theorem ecall_arg_one (k : Kernel) (v : Trap) (code arg : Nat) :
    (bumpSepc (enter k (v.ecall code [arg])) 4).context (v.ecall code [arg]).frame regA1 = arg :=
  enter_arg k (v.ecall code [arg]) (i := regA1) (by decide) (by decide)

theorem apiMemAlloc_null (v : Trap) (nbytes : Nat) (same : heap.memIndex = k.heap.memIndex)
    (null : memAlloc (userBlocks nbytes) k.heap = .ok (0, heap)) :
    ∃ k', Api.memAlloc k v nbytes = .ok (0, k') ∧ k.SameTables k' := by
  have arg := ecall_arg_one k v syscallMemAlloc (userBlocks nbytes)
  obtain ⟨k', called, -, tables⟩ := ecall_refused v syscallMemAlloc
    [userBlocks nbytes] same ((handleMemAlloc_run (by rw [arg]; exact null)).trans rfl)
  exact ⟨k', called, tables⟩

/-- `mem_alloc` of the API, when it is served. -/
theorem apiMemAlloc_run (v : Trap) (nbytes : Nat) {p : Nat}
    (run : memAlloc (userBlocks nbytes) k.heap = .ok (p, heap)) :
    ∃ k', Api.memAlloc k v nbytes = .ok (p, k') ∧ k'.heap = heap := by
  have arg := ecall_arg_one k v syscallMemAlloc (userBlocks nbytes)
  let tr := v.ecall syscallMemAlloc [userBlocks nbytes]
  let k₁ := (bumpSepc (enter k tr) 4).memAlloced p (userBlocks nbytes) heap
  have handled : handleSyscall (bumpSepc (enter k tr) 4) tr.frame syscallMemAlloc =
      .ok (k₁.setContext tr.frame regA0 p) := by
    show handleMemAlloc (bumpSepc (enter k tr) 4) tr.frame = _
    rw [handleMemAlloc_run (by rw [arg]; exact run), arg]
  have kept : k₁.hart.sscratch = tr.frame ∧ k₁.mem = (enter k tr).mem ∧ k₁.heap = heap := by
    simp only [k₁, Kernel.memAlloced]
    split
    · exact ⟨rfl, rfl, rfl⟩
    · exact ⟨rfl, rfl, rfl⟩
  exact ⟨_, ecall_answers handled kept.1 kept.2.1, kept.2.2⟩

/-- `mem_free` of the API is no request that the kernel knows. -/
theorem apiMemFree_run (k : Kernel) (v : Trap) (ptr : Nat) :
    ∃ r k', Api.memFree k v ptr = .ok (r, k') ∧ k'.heap = k.heap := by
  have unknown : syscallMemFree ∉ syscallCodes := by decide
  refine ⟨toI32 syscallMemFree, leave (bumpSepc (enter k (v.ecall syscallMemFree [ptr])) 4), ?_,
    rfl⟩
  unfold Api.memFree
  rw [ecall_unknown unknown]
  rfl

theorem failed_negative : toI32 (u64 (-1)) = -1 := by decide

theorem semOpen_clean {u : Nat → Trap} (same : heap.memIndex = k.heap.memIndex)
    (null : memAlloc (sizeInBlocks 16) k.heap = .ok (0, heap)) (handle cnt : Nat) :
    (AllocCall.semOpen handle cnt).Clean k u := by
  obtain ⟨k', called, -, tables⟩ := ecall_refused (u 0) syscallSemOpen
    [handle, cnt] same (handleSemOpen_refused null)
  refine ⟨toI32 (u64 semCreateNoMemory), k', ?_, ?_, tables⟩
  · show Api.semOpen k (u 0) handle cnt = _
    unfold Api.semOpen
    rw [called]
    rfl
  · rw [failed_negative]
    decide

theorem threadCreate_clean {u : Nat → Trap} (same : heap.memIndex = k.heap.memIndex)
    (null : memAlloc (sizeInBlocks defaultStackSize) k.heap = .ok (0, heap))
    (handle startF arg : Nat) : (AllocCall.threadCreate handle startF arg).Clean k u := by
  have blocks : userBlocks defaultStackSize = sizeInBlocks defaultStackSize := by decide
  obtain ⟨k', called, tables⟩ := apiMemAlloc_null (u 0) defaultStackSize same
    (by rw [blocks]; exact null)
  refine ⟨threadCreateNoMemory, k', ?_, by decide, tables⟩
  show Api.threadCreate k u handle startF arg = _
  unfold Api.threadCreate
  rw [called]
  rfl

/-- A thread that is refused after its stack was served keeps the stack. -/
theorem threadCreate_keeps_stack {u : Nat → Trap} {p : Nat} {heap' : Heap} (nonzero : p ≠ 0)
    (served : memAlloc (sizeInBlocks defaultStackSize) k.heap = .ok (p, heap))
    (same : heap'.memIndex = heap.memIndex)
    (null : memAlloc (sizeInBlocks 56) heap = .ok (0, heap')) (handle startF arg : Nat) :
    ∃ r k', Api.threadCreate k u handle startF arg = .ok (r, k') ∧
      k'.heap.memIndex = heap.memIndex := by
  have blocks : userBlocks defaultStackSize = sizeInBlocks defaultStackSize := by decide
  obtain ⟨k₁, stack, heap₁⟩ := apiMemAlloc_run (k := k) (u 0) defaultStackSize
    (by rw [blocks]; exact served)
  subst heap₁
  let newStack := u64 (p + (defaultStackSize - 8 : Nat))
  obtain ⟨k₂, created, heap₂, -⟩ := ecall_refused (u 1) syscallThreadCreate
    [handle, startF, arg, newStack] same (handleThreadCreate_refused null)
  obtain ⟨r, k₃, freed, heap₃⟩ := apiMemFree_run k₂ (u 2) (u64 (newStack - defaultStackSize + 8))
  have failed : toI32 (u64 threadCreateNoMemory) ≠ 0 := by
    rw [failed_negative]
    decide
  refine ⟨toI32 (u64 threadCreateNoMemory), k₃, ?_, by rw [heap₃, heap₂, same]⟩
  unfold Api.threadCreate
  rw [stack]
  dsimp only [bind, Except.bind]
  rw [if_neg nonzero, created]
  dsimp only
  rw [if_pos failed, freed]
  rfl

/-- A request whose handler does not return does not return. -/
theorem ecall_stops {v : Trap} {code : Nat} {args : List Nat}
    (stops : ∀ k', handleSyscall (bumpSepc (enter k (v.ecall code args)) 4)
      (v.ecall code args).frame code ≠ .ok k') (r : Nat × Kernel) :
    ecall k v code args ≠ .ok r := by
  intro called
  obtain ⟨k₁, taken, -⟩ := ok_bind called
  rw [trap_user rfl, ecall_code] at taken
  obtain ⟨k₂, handled, -⟩ := ok_bind taken
  exact stops k₂ handled

theorem timeSleep_stops {u : Nat → Trap} {time : Nat} (nonzero : time ≠ 0)
    (null : memAlloc (sizeInBlocks 40) k.heap = .ok (0, heap)) :
    ¬ (AllocCall.timeSleep time).Clean k u := by
  rintro ⟨r, k', done, -⟩
  have stops := @handleTimedSleep_refused
    (bumpSepc (enter k ((u 0).ecall syscallTimedSleep [time])) 4) heap
    ((u 0).ecall syscallTimedSleep [time]).frame null (by rw [ecall_arg_one]; exact nonzero)
  obtain ⟨a0, called, -⟩ := ok_bind done
  exact @ecall_stops k (u 0) syscallTimedSleep [time] stops a0 called

theorem semTimedWait_stops {u : Nat → Trap} {handle timeout : Nat}
    (null : memAlloc (sizeInBlocks 40) k.heap = .ok (0, heap)) :
    ¬ (AllocCall.semTimedWait handle timeout).Clean k u := by
  rintro ⟨r, k', done, -⟩
  have stops := @handleSemTimedWait_refused
    (bumpSepc (enter k ((u 0).ecall syscallSemTimedWait [handle, timeout])) 4) heap
    ((u 0).ecall syscallSemTimedWait [handle, timeout]).frame null
  obtain ⟨a0, called, -⟩ := ok_bind done
  exact @ecall_stops k (u 0) syscallSemTimedWait [handle, timeout] stops a0 called

end

/-! ## When a call is clean -/

/-- **Out of memory.** When `__mem_alloc` returns 0 for a request of the call, the call reports it
and leaves the kernel as it was exactly when it opens a semaphore, or creates a thread and
there is no room for the stack either. -/
theorem out_of_memory_iff {k : Kernel} {live : Multiset (Nat × Nat)} {c : AllocCall}
    (holds : k.heap.Holds live) (refused : c.Refused k) (u : Nat → Trap) :
    c.Clean k u ↔ c.Safe k := by
  cases c with
  | semOpen handle cnt =>
    obtain ⟨heap, null⟩ := refused
    obtain ⟨-, same⟩ := memAlloc_null holds (by decide) (by decide) null
    exact ⟨fun _ => trivial, fun _ => semOpen_clean same null handle cnt⟩
  | threadCreate handle startF arg =>
    rcases refused with ⟨heap, null⟩ | ⟨room, p, heap, served, heap', null⟩
    · obtain ⟨full, same⟩ := memAlloc_null holds (by decide) (by decide) null
      exact ⟨fun _ => full, fun _ => threadCreate_clean same null handle startF arg⟩
    · refine ⟨fun clean => ?_, fun full => absurd room full⟩
      obtain ⟨r, k', done, -, tables⟩ := clean
      obtain ⟨nonzero, holds'⟩ := memAlloc_nonnull holds (by decide) room served
      obtain ⟨-, same⟩ := memAlloc_null holds' (by decide) (by decide) null
      obtain ⟨r', k'', kept, index⟩ := threadCreate_keeps_stack (u := u) nonzero served same null
        handle startF arg
      have done : Api.threadCreate k u handle startF arg = .ok (r, k') := done
      rw [kept] at done
      cases done
      exact absurd (index.symm.trans tables.memIndex) (memAlloc_takes holds (by decide) room served)
  | timeSleep time =>
    obtain ⟨nonzero, heap, null⟩ := refused
    exact ⟨fun clean => timeSleep_stops nonzero null clean, False.elim⟩
  | semTimedWait handle timeout =>
    obtain ⟨heap, null⟩ := refused
    exact ⟨fun clean => semTimedWait_stops null clean, False.elim⟩

/-! ## A full machine -/

/-- The small machine with a heap that booting fills. -/
def fullKernel : Kernel :=
  { smallKernel with heap := { smallHeap with heapEnd := 4096 + 174 * memBlockSize } }

theorem fullKernel_platform : fullKernel.Platform := by
  obtain ⟨-, -, supervisor, noThreads, noSems, noBlocks, noInput, noOutput, untouched⟩ :=
    smallKernel_platform
  exact ⟨by constructor <;> decide, by decide, supervisor, noThreads, noSems, noBlocks, noInput,
    noOutput, untouched⟩

/-- A request for one block returns 0. -/
def isFull (booted : Except Halt Kernel) : Bool :=
  match booted with
  | .error _ => false
  | .ok k => match memAlloc 1 k.heap with
    | .error _ => false
    | .ok (p, _) => p == 0

theorem refuses_of_isFull {k : Kernel} (full : isFull (.ok k) = true) : k.heap.Refuses 1 := by
  unfold isFull at full
  dsimp only at full
  split at full
  · cases full
  · next p h eq =>
    rw [beq_iff_eq] at full
    exact ⟨h, full ▸ eq⟩

/-- The first user thread of the full machine. -/
theorem full_user : ∃ k b p, FirstUser fullKernel k b p ∧ k.heap.Refuses 1 := by
  obtain ⟨k, b, p, user, -, -, -, -, ⟨k₁, booted, heap, -⟩, -⟩ :=
    first_user fullKernel_platform anyTrap fun _ _ => trivial
  have full : isFull (boot fullKernel) = true := by decide +kernel
  rw [booted] at full
  refine ⟨k, b, p, user, ?_⟩
  rw [heap]
  exact refuses_of_isFull full

theorem out_of_memory_iff_small : ∃ k, Run anyTrap fullKernel k ∧
    (AllocCall.semOpen 3072 1).Clean k fun _ => userCall k 0 0 0 := by
  obtain ⟨k, b, p, user, full⟩ := full_user
  exact ⟨k, user.run, (@out_of_memory_iff _ _ (.semOpen 3072 1) user.rest.inv.owns full _).mpr
    trivial⟩

/-- The first user thread of a machine with a full heap sleeps, and the kernel writes through the
null pointer. -/
theorem sleep_out_of_memory : ∃ k, Run anyTrap fullKernel k ∧ k.hart.supervisor = false ∧
    (AllocCall.timeSleep 5).Refused k ∧ ∀ u : Nat → Trap,
      (AllocCall.timeSleep 5).run k u = .error .nullPointer ∧
      ¬ (AllocCall.timeSleep 5).Clean k u := by
  obtain ⟨k, b, p, user, heap, null⟩ := full_user
  have nonzero : 5 ≠ 0 := by decide
  refine ⟨k, user.run, user.mode, ⟨nonzero, heap, null⟩, fun u =>
    ⟨?_, timeSleep_stops nonzero null⟩⟩
  have empty : k.scheduler.sleepingThreads = 0 := user.rest.places.sleepers
  have stops := schedulerTimeout_first_refused
    (k := (bumpSepc (enter k ((u 0).ecall syscallTimedSleep [5])) 4).setContext
      ((u 0).ecall syscallTimedSleep [5]).frame regA0 0) null empty
  have handled : handleTimedSleep (bumpSepc (enter k ((u 0).ecall syscallTimedSleep [5])) 4)
      ((u 0).ecall syscallTimedSleep [5]).frame = .error .nullPointer := by
    unfold handleTimedSleep
    rw [ecall_arg_one]
    dsimp only
    rw [if_neg nonzero, stops]
    rfl
  have taken : trap k ((u 0).ecall syscallTimedSleep [5]) = .error .nullPointer := by
    rw [trap_user rfl, ecall_code]
    show handleTimedSleep _ _ >>= _ = _
    rw [handled]
    rfl
  show Api.timeSleep k (u 0) 5 = _
  unfold Api.timeSleep ecall
  rw [taken]
  rfl

end RiscvKernel
