import RiscvKernel.Handled

/-!
# Booting

`boot_spec`: on a heap with room for the boot-time allocations, `main` builds a
kernel that keeps the invariant, with the user's main thread in the ready queue.
-/

namespace RiscvKernel
open Function Intrusive Placement

/-- The machine when `main` starts: nothing has happened yet, and the heap has
room for what `main` allocates. -/
structure Kernel.Platform (k : Kernel) : Prop where
  fresh : k.heap.Fresh
  room : 163 + (4 * ((k.heap.heapEnd - k.heap.heapStart) / memBlockSize) + memBlockSize - 1) /
    memBlockSize ≤ (k.heap.heapEnd - k.heap.heapStart) / memBlockSize
  supervisor : k.hart.supervisor = true
  noThreads : k.hist.live = []
  noSems : k.hist.opened = []
  noBlocks : k.hist.userBlocks = []
  noInput : k.console.device.rxReads = 0 ∧ k.hist.handed = [] ∧ k.hist.inputBlocked = [] ∧
    k.hist.served = []
  noOutput : k.console.device.transmitted = [] ∧ k.hist.accepted = []
  untouched : k.console.receiveBuffer.reach = 0 ∧ k.console.sendBuffer.reach = 0

/-- An allocation when room for `m` more blocks must be left. -/
theorem memAlloc_next {h : Heap} {live : Multiset (Nat × Nat)} (nb m : Nat) (holds : h.Holds live)
    (pos : 0 < nb) (pos' : 0 < m) (room : h.HasRoom (nb + m)) :
    ∃ p h', memAlloc nb h = .ok (p, h') ∧ h'.Holds ((p, nb) ::ₘ live) ∧ p ≠ 0 ∧ h'.HasRoom m := by
  obtain ⟨p, h', eq, -, holds'⟩ := memAlloc_spec holds pos (room.mono (by omega))
  have nonzero := (holds'.starts.2 (p, nb) (Multiset.mem_cons_self _ _)).ne'
  exact ⟨p, h', eq, holds', nonzero, memAlloc_room holds pos pos' room eq⟩

theorem Heap.Holds.block_end {h : Heap} {live : Multiset (Nat × Nat)} (holds : h.Holds live)
    {a : Nat × Nat} (ha : a ∈ live) :
    h.heapStart ≤ a.1 ∧ a.1 + a.2 * 64 ≤ h.heapEnd ∧ h.heapEnd < 2 ^ 64 := by
  have bounds := holds.bounds ha
  have blocks := holds.ok.blocks
  have := holds.ok.addressable
  have := holds.ok.ordered
  simp only [memBlockSize] at bounds blocks
  omega

/-- The stack at `p` ends at `p + 4088`, and the kernel finds it from there. -/
theorem stack_addresses {h : Heap} {live : Multiset (Nat × Nat)} {p : Nat} (holds : h.Holds live)
    (mem : (p, sizeInBlocks defaultStackSize) ∈ live) :
    u64 (p + defaultStackSize - 8) = p + 4088 ∧
      u64 ((p + 4088 : Nat) - (defaultStackSize - 8)) = p ∧
      stackBlock (p + 4088) = (p, sizeInBlocks defaultStackSize) := by
  have bounds := holds.block_end mem
  have size : sizeInBlocks defaultStackSize = 64 := rfl
  rw [size] at bounds
  simp only at bounds
  refine ⟨?_, ?_, ?_⟩
  · rw [defaultStackSize, u64_eq] <;> omega
  · rw [defaultStackSize, u64_eq] <;> omega
  · have back : ((p + 4088 : Nat) : Int) - (defaultStackSize : Nat) + 8 = p := by
      simp only [defaultStackSize]
      omega
    unfold stackBlock
    rw [back, u64_natCast (by omega)]

/-- The kernel before the user's main thread is created. -/
def Kernel.prepared (k : Kernel) (heap : Heap) (receive send main sched system : Nat) : Kernel :=
  { k with
    heap
    console := { k.console with
      receiveBuffer := { k.console.receiveBuffer with addr := receive }
      sendBuffer := { k.console.sendBuffer with addr := send }
      receiveCnt := 0
      sendCnt := 0 }
    threadsWaitingForInput := 0
    thread := update k.thread main { k.thread main with bp := 0, timeLeft := 1 }
    schedulerPtr := sched
    scheduler := {
      userThreadCount := 0, readyThreads := 0, sleepingThreads := 0
      kernelMain := main, threadCurrent := main }
    systemStack := system + 4088 }

/-- Before the first thread is created, only `kernel_main` has a place. -/
def bootBoard (main : Nat) : Threads :=
  (Board.empty : Threads).move main (some .running) (Board.loose_of_none rfl)

theorem prepared_places {k : Kernel} (platform : k.Platform) (heap : Heap)
    (receive send main sched system : Nat) :
    (k.prepared heap receive send main sched system).view.Places (bootBoard main) [] := by
  have loc : ∀ t, (bootBoard main).loc t = if t = main then some (.spot .running) else none :=
    fun t => update_apply ..
  refine ⟨⟨fun i hi => ?_, fun _ _ => rfl⟩, rfl, ?_, by simp, by simp [DeltaList.times], ?_, ?_,
    ?_, ?_⟩
  · cases i with
    | ready => rfl
    | input => rfl
    | sem s =>
      have opened : s ∈ k.hist.opened := hi
      rw [platform.noSems] at opened
      exact absurd opened List.not_mem_nil
  · intro t r
    rw [loc]
    split <;> simp
  · intro t ht
    rw [loc] at ht
    split at ht
    · next h => exact Or.inr h
    · exact absurd rfl ht
  · intro p hp
    rw [loc] at hp
    split at hp
    · exact Or.inr (Option.some.inj hp).symm
    · cases hp
  · intro t ht
    have ht : t = main := ht.resolve_left fun live => by
      have live : t ∈ k.hist.live := live
      rw [platform.noThreads] at live
      exact absurd live List.not_mem_nil
    refine Or.inl ?_
    show (update k.thread main _ t).timeLeft = 1
    rw [ht, update_self]
  · show 0 = k.hist.live.length
    rw [platform.noThreads]
    rfl

/-- **Booting.** -/
theorem boot_spec {k : Kernel} (platform : k.Platform) :
    ∃ h h' receive send main sched system stack p b,
      boot k = .ok ((k.prepared h receive send main sched system).threadCreated
        k.image.userMainVar k.image.userMain 0 (stack + 4088) p h') ∧
      ((k.prepared h receive send main sched system).threadCreated
        k.image.userMainVar k.image.userMain 0 (stack + 4088) p h').Inv b [] ∧
      b.queue = update (fun _ => []) .ready [p] ∧
      (h'.heapStart ≤ stack ∧ stack + 64 * 64 ≤ h'.heapEnd ∧ h'.heapEnd < 2 ^ 64) ∧
      ∀ m, 0 < m → m + 163 + (4 * ((k.heap.heapEnd - k.heap.heapStart) / memBlockSize) +
        memBlockSize - 1) / memBlockSize ≤ (k.heap.heapEnd - k.heap.heapStart) / memBlockSize →
        h'.HasRoom m := by
  obtain ⟨h₀, eq₀, holds₀, start, end_, -, room₀⟩ := memInit_spec platform.fresh
  have len := holds₀.ok.indexLen
  have blocks := holds₀.ok.blocks
  have room := platform.room
  rw [start, end_] at blocks
  rw [← blocks, ← len] at room
  -- what the allocations of the boot leave free
  obtain ⟨left, total⟩ := Nat.exists_eq_add_of_le room
  obtain ⟨receive, h₁, eq₁, holds₁, -, room₁⟩ := memAlloc_next 16 (147 + left) holds₀
    (by omega) (by omega) (room₀.mono (by omega))
  obtain ⟨send, h₂, eq₂, holds₂, -, room₂⟩ := memAlloc_next 16 (131 + left) holds₁
    (by omega) (by omega) (room₁.mono (by omega))
  obtain ⟨main, h₃, eq₃, holds₃, main₀, room₃⟩ := memAlloc_next 1 (130 + left) holds₂
    (by omega) (by omega) (room₂.mono (by omega))
  obtain ⟨sched, h₄, eq₄, holds₄, sched₀, room₄⟩ := memAlloc_next 1 (129 + left) holds₃
    (by omega) (by omega) (room₃.mono (by omega))
  obtain ⟨system, h₅, eq₅, holds₅, system₀, room₅⟩ := memAlloc_next 64 (65 + left) holds₄
    (by omega) (by omega) (room₄.mono (by omega))
  obtain ⟨stack, h₆, eq₆, holds₆, stack₀, room₆⟩ := memAlloc_next 64 (1 + left) holds₅
    (by omega) (by omega) (room₅.mono (by omega))
  obtain ⟨p, h₇, eq₇, -, holds₇⟩ := memAlloc_spec holds₆ (by omega)
    (room₆.mono (Nat.le_add_right 1 left))
  have free : ∀ m, 0 < m → m + 163 + (4 * ((k.heap.heapEnd - k.heap.heapStart) / memBlockSize) +
      memBlockSize - 1) / memBlockSize ≤ (k.heap.heapEnd - k.heap.heapStart) / memBlockSize →
      h₇.HasRoom m := by
    intro m pos le
    rw [← blocks, ← len] at le
    exact memAlloc_room holds₆ Nat.one_pos pos (room₆.mono (by omega)) eq₇
  have p₀ : p ≠ 0 := (holds₇.starts.2 (p, 1) (Multiset.mem_cons_self _ _)).ne'
  obtain ⟨top, -, block⟩ := stack_addresses (p := stack) holds₆ (Multiset.mem_cons_self _ _)
  have bounds := holds₇.block_end (a := (stack, 64)) (by simp)
  obtain ⟨systemTop, systemBack, -⟩ :=
    stack_addresses (p := system) holds₅ (Multiset.mem_cons_self _ _)
  let k₁ := k.prepared h₆ receive send main sched system
  have running : ∀ {t}, (bootBoard main).loc t = some (.spot .running) ↔
      t = k₁.scheduler.threadCurrent := by
    intro t
    have loc : (bootBoard main).loc t = if t = main then some (.spot .running) else none :=
      update_apply ..
    have current : k₁.scheduler.threadCurrent = main := rfl
    rw [loc, current]
    split <;> simp [*]
  have owned : View.owned { k₁.view with
      userBlocks := k₁.view.userBlocks.erase (stackBlock (stack + 4088)) } [] =
      (system, 64) ::ₘ (sched, 1) ::ₘ (main, 1) ::ₘ (send, 16) ::ₘ (receive, 16) ::ₘ 0 := by
    have live : k₁.view.live = [] := platform.noThreads
    have opened : k₁.view.opened = [] := platform.noSems
    have userBlocks : k₁.view.userBlocks = [] := platform.noBlocks
    have boot : k₁.view.boot = [(receive, 16), (send, 16), (main, 1), (sched, 1),
      (system, 64)] := by
      have at_top : k₁.systemStack = system + 4088 := rfl
      show k₁.bootBlocks = _
      unfold Kernel.bootBlocks
      rw [at_top, systemBack]
      rfl
    simp only [View.owned, View.kept, live, opened, userBlocks, boot]
    exact Quotient.sound (List.reverse_perm _).symm
  rw [← owned] at holds₇
  have holds : ∀ a, a = (stack, sizeInBlocks defaultStackSize) →
      h₇.Holds ((p, sizeInBlocks 56) ::ₘ a ::ₘ View.owned { k₁.view with
        userBlocks := k₁.view.userBlocks.erase (stackBlock (stack + 4088)) } []) := by
    rintro _ rfl
    exact holds₇
  obtain ⟨b, inv, queue⟩ := threadCreated_inv (prepared_places platform h₆ receive send main sched
    system) running (fun {t} ht => by
      have ht : t ∈ k.hist.live := ht
      rw [platform.noThreads] at ht
      exact absurd ht List.not_mem_nil) (holds _ block) k.image.userMainVar k.image.userMain 0
  refine ⟨h₆, h₇, receive, send, main, sched, system, stack, p, b, ?_, inv, queue, bounds, free⟩
  have created : threadCreate k₁ k₁.image.userMainVar k₁.image.userMain 0 (stack + 4088) .user =
      .ok (0, k₁.threadCreated k.image.userMainVar k.image.userMain 0 (stack + 4088) p h₇) := by
    have eq : k₁.alloc (sizeInBlocks 56) = .ok (p, { k₁ with heap := h₇ }) := by
      have heap : k₁.heap = h₆ := rfl
      have one : sizeInBlocks 56 = 1 := rfl
      unfold Kernel.alloc
      rw [heap, one, eq₇]
      rfl
    unfold threadCreate
    rw [eq]
    exact if_neg p₀
  have s₁ : sizeInBlocks consoleBufferSize = 16 := rfl
  have s₂ : sizeInBlocks 56 = 1 := rfl
  have s₃ : sizeInBlocks 40 = 1 := rfl
  have s₄ : sizeInBlocks defaultStackSize = 64 := rfl
  unfold boot
  rw [eq₀]
  simp only [bind, Except.bind, consoleInit, Kernel.alloc, s₁, s₂, s₃, s₄, eq₁, eq₂, eq₃, eq₄, eq₅,
    eq₆, pure, Except.pure, schedulerInit, main₀, sched₀, system₀, stack₀, ↓reduceIte, systemTop,
    top, Kernel.modifyThread]
  simp only [k₁, Kernel.prepared] at created ⊢
  rw [created]
  rfl

theorem alloc_geometry {k k' : Kernel} {nb p : Nat} (ran : k.alloc nb = .ok (p, k')) :
    k'.heap.toGeometry = k.heap.toGeometry := by
  unfold Kernel.alloc at ran
  obtain ⟨⟨q, h⟩, alloc, ran⟩ := ok_bind ran
  cases ran
  exact memAllocLoop_geometry _ _ _ _ alloc

theorem semOpen_geometry {k k' : Kernel} {handle init : Nat} {r : Int}
    (opened : semOpen k handle init = .ok (r, k')) : k'.heap.toGeometry = k.heap.toGeometry := by
  unfold semOpen at opened
  obtain ⟨⟨q, k₁⟩, alloc, opened⟩ := ok_bind opened
  have same := alloc_geometry alloc
  dsimp only at opened
  split at opened
  all_goals
    obtain rfl := congrArg Prod.snd (Except.ok.inj opened)
    exact same

theorem semOpened_geometry {k : Kernel} {handle init s : Nat} {heap : Heap}
    (opened : semOpen k handle init = .ok (0, k.semOpened handle init s heap)) :
    heap.toGeometry = k.heap.toGeometry := semOpen_geometry opened

theorem threadCreate_geometry {k k' : Kernel} {handle startF arg stackSpace : Nat}
    {mode : ExecMode} {r : Int}
    (ran : threadCreate k handle startF arg stackSpace mode = .ok (r, k')) :
    k'.heap.toGeometry = k.heap.toGeometry := by
  unfold threadCreate at ran
  obtain ⟨⟨p, k₁⟩, alloc, ran⟩ := ok_bind ran
  have same := alloc_geometry alloc
  dsimp only at ran
  split at ran
  · cases ran
    exact same
  · cases mode <;> (cases ran; exact same)

/-- Booting does not move the heap. -/
theorem boot_bounds {k k' : Kernel} (platform : k.Platform) (booted : boot k = .ok k') :
    k'.heap.heapStart = k.heap.heapStart ∧ k'.heap.heapEnd = k.heap.heapEnd := by
  obtain ⟨h₀, eq₀, -, start, end_, -⟩ := memInit_spec platform.fresh
  have moved : k'.heap.toGeometry = h₀.toGeometry := by
    unfold boot at booted
    rw [eq₀] at booted
    have booted := (ok_bind booted)
    obtain ⟨_, ⟨⟩, booted⟩ := booted
    obtain ⟨k₁, console, booted⟩ := ok_bind booted
    obtain ⟨⟨receive, k₂⟩, alloc₂, console⟩ := ok_bind console
    obtain ⟨⟨send, k₃⟩, alloc₃, console⟩ := ok_bind console
    cases console
    obtain ⟨⟨main, k₄⟩, alloc₄, booted⟩ := ok_bind booted
    dsimp only at booted
    split at booted
    · cases booted
    obtain ⟨k₅, init, booted⟩ := ok_bind booted
    obtain ⟨⟨sched, k₆⟩, alloc₅, init⟩ := ok_bind init
    dsimp only at init
    split at init
    · cases init
    cases init
    obtain ⟨⟨system, k₇⟩, alloc₆, booted⟩ := ok_bind booted
    obtain ⟨⟨stack, k₈⟩, alloc₇, booted⟩ := ok_bind booted
    dsimp only at booted
    split at booted
    · cases booted
    split at booted
    · cases booted
    obtain ⟨⟨failed, k₉⟩, create, booted⟩ := ok_bind booted
    dsimp only at booted
    split at booted
    · cases booted
    cases booted
    have created := threadCreate_geometry create
    dsimp only at created
    calc k'.heap.toGeometry = k₈.heap.toGeometry := created
      _ = k₇.heap.toGeometry := alloc_geometry alloc₇
      _ = k₆.heap.toGeometry := (alloc_geometry alloc₆).trans rfl
      _ = k₄.heap.toGeometry := (alloc_geometry alloc₅).trans rfl
      _ = k₃.heap.toGeometry := (alloc_geometry alloc₄).trans rfl
      _ = k₂.heap.toGeometry := alloc_geometry alloc₃
      _ = h₀.toGeometry := (alloc_geometry alloc₂).trans rfl
  exact ⟨(congrArg Geometry.heapStart moved).trans start,
    (congrArg Geometry.heapEnd moved).trans end_⟩

end RiscvKernel
