import RiscvKernel.Conservation

/-!
# The table of semaphores

`__sem_open` enters a semaphore in `semaphores`, and `__sem_close` does not take it out.

* `Kernel.Registry`: the table lists the open semaphores;
* `TableEffect`: what a trap does to the table and to the open semaphores;
* `registry_exact`: the table is right as long as nothing is closed and at most ten
  semaphores are opened.
-/

namespace RiscvKernel
open Function Intrusive Placement

/-- The length of `semaphores`. -/
abbrev semTableSize : Nat := 10

/-- `semaphores[0 .. sem_cnt)` -/
def SemTable.listed (t : SemTable) : List Nat := (List.range t.semCnt).map t.semaphores

/-- The table lists every open semaphore once and nothing else. -/
structure Kernel.Registry (k : Kernel) : Prop where
  room : k.semTable.semCnt ≤ semTableSize
  listed : ∀ s, s ∈ k.semTable.listed ↔ s ∈ k.hist.opened
  once : k.semTable.listed.Nodup
  first : k.semTable.firstSemaphore ≠ 0 → k.semTable.firstSemaphore ∈ k.hist.opened

/-- The trap closes no semaphore, and opens one only into a free slot of the table. -/
structure RegistrySafe (k : Kernel) (tr : Trap) : Prop where
  noClose : ¬ tr.Calls syscallSemClose
  slot : tr.Calls syscallSemOpen → k.heap.HasRoom (sizeInBlocks 16) →
    k.semTable.semCnt < semTableSize

theorem listed_add (t : SemTable) (s : Nat) : (t.add s).listed = t.listed ++ [s] := by
  have old : (List.range t.semCnt).map (update t.semaphores t.semCnt s) =
      (List.range t.semCnt).map t.semaphores := by
    refine List.map_congr_left fun i hi => ?_
    rw [update_of_ne (List.mem_range.mp hi).ne]
  show (List.range (t.semCnt + 1)).map (update t.semaphores t.semCnt s) = _
  rw [List.range_succ, List.map_append, old, List.map_singleton, update_self]
  rfl

/-! ## Steps that leave the table alone -/

theorem switch_semTable (k : Kernel) : (switch k).semTable = k.semTable := by
  unfold switch yield schedulerNext
  repeat' split
  all_goals rfl

theorem dispatch_semTable (k : Kernel) : (dispatch k).semTable = k.semTable := by
  rw [dispatch_eq, switch_semTable]
  rfl

theorem pushAll_semTable (ts : List Nat) : ∀ k : Kernel, (pushAll k ts).semTable = k.semTable := by
  induction ts with
  | nil => exact fun _ => rfl
  | cons t ts ih => exact fun k => ih (schedulerPush k t)

theorem semClosed_table (k : Kernel) (s : Nat) (ts : List Nat) (heap : Heap) :
    (k.semClosed s ts heap).semTable = k.semTable ∧
      (k.semClosed s ts heap).hist.opened = k.hist.opened.erase s := by
  let k₀ := k.note fun h => { h with opened := h.opened.erase s }
  exact ⟨pushAll_semTable ts k₀, (pushAll_sameSems k₀ ts).opened⟩

theorem unblocked_table (k : Kernel) (s w : Nat) : (k.unblocked s w).semTable = k.semTable ∧
    (k.unblocked s w).hist.opened = k.hist.opened := ⟨rfl, rfl⟩

/-- What a trap does to the table and to the open semaphores. `calls` says which system
call the trap is, and `arg` are its arguments. -/
inductive TableEffect (calls : Nat → Prop) (arg : Nat → Nat) (k k' : Kernel) : Prop where
  | kept (table : k'.semTable = k.semTable) (opened : k'.hist.opened = k.hist.opened)
  | opened (call : calls syscallSemOpen) (s : Nat) (fresh : s ∉ k.hist.opened)
      (table : k'.semTable = k.semTable.add s) (opened : k'.hist.opened = s :: k.hist.opened)
  | closed (call : calls syscallSemClose) (table : k'.semTable = k.semTable)
      (opened : k'.hist.opened = k.hist.opened.erase (arg regA1))

section
variable {k k' k₁ : Kernel} {context code : Nat} {b b' : Threads} {recs recs' : List Nat}
  {tr : Trap}

theorem Called.table {calls : Nat → Prop} {arg : Nat → Nat}
    (called : Called k context b recs code k' b' recs') (call : calls code)
    (args : k.context context regA1 = arg regA1) : TableEffect calls arg k k' := by
  by_cases sem : code ∈ [syscallSemOpen, syscallSemClose, syscallSemWait, syscallSemSignal]
  case neg =>
    refine .kept ?_ (called.sameSems sem).1.opened
    cases called with
    | unknown => rfl
    | memAlloc p heap =>
      unfold Kernel.memAlloced
      split <;> rfl
    | getcByte => rfl
    | getcBlocked => exact switch_semTable k
    | putcAccepted => rfl
    | putcRefused => exact dispatch_semTable _
    | createRefused => rfl
    | created => rfl
    | exited => exact switch_semTable _
    | dispatched => exact dispatch_semTable k
    | sleepZero => rfl
    | @slept k₁ p front back b' put queue =>
      rw [switch_semTable, put.frame]
      rfl
    | _ => simp at sem
  cases called with
  | openRefused => exact .kept rfl rfl
  | @opened s heap nonzero fresh => exact .opened call s fresh rfl rfl
  | @closed s b' arg₁ heap queue =>
    obtain ⟨table, opened⟩ := semClosed_table k s (b.queue (.sem s)) heap
    rw [arg₁] at args
    exact .closed call table (args ▸ opened)
  | waited => exact .kept rfl rfl
  | @blocked s b' arg₁ blocks queue =>
    have table := switch_semTable (k.waited s)
    exact .kept table (switch_sameSems (k.waited s)).opened
  | signalled => exact .kept rfl rfl
  | unheard => exact .kept rfl rfl
  | @woke s w ws b' arg₁ below first queue =>
    obtain ⟨table, opened⟩ := unblocked_table (k.signalled s) s w
    exact .kept table opened
  | unknown none =>
    exact absurd (by simp at sem; rcases sem with rfl | rfl | rfl | rfl <;> decide) none
  | _ => simp at sem

theorem ticked_semTable {gone left : List Nat} (ticked : k.Ticked k₁ recs gone left) :
    k₁.semTable = k.semTable := by
  rw [ticked.frame]
  exact pushAll_semTable _ _

/-- **Traps.** -/
theorem Handled.table (handled : Handled (enter k tr) b recs k₁ b' recs') :
    TableEffect tr.Calls tr.regs k (leave k₁) := by
  cases handled with
  | ignored => exact .kept rfl rfl
  | console _ _ _ delivered =>
    refine .kept ?_ ?_
    · show (consoleReceive (enter k tr)).semTable = _
      rw [delivered.frame]
      rfl
    · show (consoleReceive (enter k tr)).hist.opened = _
      rw [delivered.frame]
      rfl
  | ticked _ ticked =>
    have table := ticked_semTable ticked
    exact .kept table (ticked_sameSems ticked).opened
  | preempted _ ticked =>
    have table := ticked_semTable ticked
    exact .kept ((dispatch_semTable _).trans table)
      ((ticked_sameSems ticked).trans (dispatch_sameSems _)).opened
  | called cause called =>
    have code : (enter k tr).context tr.frame regA0 = tr.regs regA0 :=
      enter_arg k tr (by decide) (by decide)
    have effect := @Called.table _ _ _ _ _ _ _ _ tr.Calls tr.regs called ⟨cause, code.symm⟩
      called_arg
    cases effect with
    | kept table opened => exact .kept table opened
    | opened call s fresh table opened => exact .opened call s fresh table opened
    | closed call table opened => exact .closed call table opened
  | mainIgnored => exact .kept rfl rfl
  | mainDispatched => exact .kept (switch_semTable _) (switch_sameSems _).opened

/-! ## One trap -/

theorem Kernel.Registry.opened (registry : k.Registry) {s : Nat} (fresh : s ∉ k.hist.opened)
    (slot : k.semTable.semCnt < semTableSize) (table : k'.semTable = k.semTable.add s)
    (opened : k'.hist.opened = s :: k.hist.opened) : k'.Registry where
  room := by
    rw [table]
    exact slot
  listed x := by
    rw [table, opened, listed_add, List.mem_append, List.mem_singleton, List.mem_cons,
      registry.listed x, or_comm]
  once := by
    rw [table, listed_add]
    refine registry.once.append (List.nodup_singleton s) ?_
    simpa [registry.listed] using fresh
  first some := by
    rw [table] at some ⊢
    rw [opened]
    by_cases none : k.semTable.firstSemaphore = 0
    · simp [SemTable.add, none]
    · simp [SemTable.add, none, registry.first none]

theorem Kernel.Registry.kept (registry : k.Registry) (table : k'.semTable = k.semTable)
    (opened : k'.hist.opened = k.hist.opened) : k'.Registry := by
  obtain ⟨room, listed, once, first⟩ := registry
  exact ⟨by rwa [table], by rwa [table, opened], by rwa [table], by rwa [table, opened]⟩

/-- The entry of a semaphore outlives it. -/
theorem Kernel.Registry.not_closed (registry : k.Registry) {s : Nat} (mem : s ∈ k.hist.opened)
    (nodup : k.hist.opened.Nodup) (table : k'.semTable = k.semTable)
    (opened : k'.hist.opened = k.hist.opened.erase s) : ¬ k'.Registry := by
  intro registry'
  have still := (registry'.listed s).mp (by rw [table]; exact (registry.listed s).mpr mem)
  rw [opened] at still
  exact nodup.not_mem_erase still

/-- **One trap.** -/
theorem trap_registry (rest : k.Rest b recs) (registry : k.Registry) (fits : tr.Fits k)
    (taken : trap k tr = .ok k') : k'.Registry ↔ RegistrySafe k tr := by
  obtain ⟨k₁, b', recs', rfl, handled, rest'⟩ := trap_rest rest fits taken
  constructor
  · intro registry'
    refine ⟨fun call => ?_, fun call room => ?_⟩
    · have mem := (fits.request call.1).sem (by simp [call.2])
      have nodup := (owned_nodup rest.inv.owns).2.2
      cases handled.table with
      | kept table opened =>
        have closes := (handled.call call).closesSem ((enter_inv rest.inv tr).congr rfl rfl)
          (rest'.inv.congr rfl rfl) called_arg
        exact absurd (opened ▸ mem) closes.closed
      | opened call' => exact absurd (call.2.symm.trans call'.2) (by decide)
      | closed _ table opened => exact registry.not_closed mem nodup table opened registry'
    · rcases semOpen_trap rest fits call taken with ⟨-, s, h', -, done⟩ | ⟨full, -⟩
      · have room := registry'.room
        rw [done] at room
        exact room
      · exact absurd room full
  · intro safe
    cases handled.table with
    | kept table opened => exact registry.kept table opened
    | opened call s fresh table opened =>
      rcases semOpen_trap rest fits call taken with ⟨room, -⟩ | ⟨-, h', done⟩
      · exact registry.opened fresh (safe.slot call room) table opened
      · rw [done] at opened
        exact absurd opened (List.cons_ne_self s _).symm
    | closed call => exact absurd call safe.noClose

/-! ## Runs -/

/-- Booting leaves the table as the program's image has it. -/
theorem boot_registry {k₀ : Kernel} (platform : k₀.Platform) (booted : boot k₀ = .ok k)
    (unused : k₀.semTable.semCnt = 0 ∧ k₀.semTable.firstSemaphore = 0) : k.Registry := by
  obtain ⟨h, h', receive, send, main, sched, system, stack, p, b, eq, -, -⟩ := boot_spec platform
  rw [eq] at booted
  obtain rfl := Except.ok.inj booted
  generalize hk : (k₀.prepared h receive send main sched system).threadCreated _ _ _ _ _ _ = k
  have table : k.semTable = k₀.semTable := by rw [← hk]; rfl
  have opened : k.hist.opened = k₀.hist.opened := by rw [← hk]; rfl
  have none : k.semTable.listed = [] := by simp [SemTable.listed, table, unused.1]
  refine ⟨?_, ?_, ?_, ?_⟩
  · rw [table, unused.1]
    exact Nat.zero_le _
  · rw [none, opened, platform.noSems]
    exact fun s => Iff.rfl
  · rw [none]
    exact List.nodup_nil
  · rw [table]
    exact absurd unused.2

theorem run_registry {k₀ : Kernel}
    (unused : k₀.semTable.semCnt = 0 ∧ k₀.semTable.firstSemaphore = 0)
    (run : Run RegistrySafe k₀ k) : k.Registry := by
  induction run with
  | boot platform booted => exact boot_registry platform booted unused
  | trap run fits safe taken ih =>
    obtain ⟨b, recs, rest⟩ := run_rest run
    exact (trap_registry rest ih fits taken).mpr safe

end

/-- **The table of semaphores** lists the open ones in any run that closes none and opens
none when the table is full, and a trap that does either breaks it. -/
theorem registry_exact {k₀ k : Kernel}
    (unused : k₀.semTable.semCnt = 0 ∧ k₀.semTable.firstSemaphore = 0)
    (run : Run RegistrySafe k₀ k) : k.Registry ∧
      ∀ tr k', tr.Fits k → trap k tr = .ok k' → (k'.Registry ↔ RegistrySafe k tr) := by
  obtain ⟨b, recs, rest⟩ := run_rest run
  have registry := run_registry unused run
  exact ⟨registry, fun tr k' fits taken => trap_registry rest registry fits taken⟩

theorem firstCall_safe (k : Kernel) : RegistrySafe k (firstCall k) := by
  have kernel : ∀ code, ¬ (firstCall k).Calls code := fun _ call =>
    absurd call.1 (show irqEcallKernel ≠ irqEcallUser by decide)
  exact ⟨kernel _, fun call => absurd call (kernel _)⟩

theorem Kernel.Registry.count {k : Kernel} {b : Threads} {recs : List Nat} (registry : k.Registry)
    (inv : k.Inv b recs) : k.semTable.semCnt = k.hist.opened.length := by
  have nodup : k.hist.opened.Nodup := (owned_nodup inv.owns).2.2
  have perm := (List.perm_ext_iff_of_nodup registry.once nodup).mpr registry.listed
  have length := perm.length_eq
  rwa [SemTable.listed, List.length_map, List.length_range] at length

/-- The first user thread of the small machine opens some semaphores. -/
theorem registry_opens (n : Nat) (few : n ≤ semTableSize) : ∃ k b p, FirstUser smallKernel k b p ∧
    k.hist.opened.length = n ∧ Run RegistrySafe smallKernel k := by
  induction n with
  | zero =>
    obtain ⟨k, b, p, user, opened, -, -, -, -, run⟩ :=
      first_user smallKernel_platform RegistrySafe fun k _ => firstCall_safe k
    exact ⟨k, b, p, user, by rw [opened]; rfl, run⟩
  | succ n ih =>
    obtain ⟨k, b, p, user, length, run⟩ := ih (Nat.le_of_succ_le few)
    have count := (run_registry ⟨rfl, rfl⟩ run).count user.rest.inv
    have lt : n < 20 := few.trans (by decide)
    have room : k.heap.HasRoom (sizeInBlocks 16) := small_room user.rest.inv user.start user.stop
      user.live user.userBlocks (by rw [length, List.length_nil]; omega)
    have safe : RegistrySafe k (openCall k 1) := by
      refine ⟨fun call => absurd call.2 (show syscallSemOpen ≠ syscallSemClose by decide), ?_⟩
      intro _ _
      rw [count, length]
      exact few
    obtain ⟨k', s, user', opened, -, -, -, -, -, -, run'⟩ :=
      user.opens run room (show 1 < 2 ^ 64 by decide) safe
    exact ⟨k', b, p, user', by rw [opened, List.length_cons, length], run'⟩

/-- Two semaphores are open. A wait keeps the table, and a close does not. -/
theorem registry_exact_small : ∃ (k k₁ k₂ : Kernel) (s s' : Nat), k.hist.opened = [s, s'] ∧
    k.Registry ∧ trap k (userCall k syscallSemWait s 0) = .ok k₁ ∧ k₁.Registry ∧
    trap k (userCall k syscallSemClose s' 0) = .ok k₂ ∧ ¬ k₂.Registry := by
  obtain ⟨k, b, p, user, length, run⟩ := registry_opens 2 (by decide)
  obtain ⟨s, s', opened⟩ := List.length_eq_two.mp length
  obtain ⟨registry, keeps⟩ := registry_exact ⟨rfl, rfl⟩ run
  obtain ⟨fits₁, k₁, taken₁⟩ := userCall_sem user.rest user.mode syscallSemWait s (by simp)
    (by simp [opened])
  obtain ⟨fits₂, k₂, taken₂⟩ := userCall_sem user.rest user.mode syscallSemClose s' (by simp)
    (by simp [opened])
  refine ⟨k, k₁, k₂, s, s', opened, registry, taken₁, ?_, taken₂, fun kept => ?_⟩
  · refine (keeps _ k₁ fits₁ taken₁).mpr ⟨fun call => ?_, fun call => ?_⟩
    · exact absurd call.2 (show syscallSemWait ≠ syscallSemClose by decide)
    · exact absurd call.2 (show syscallSemWait ≠ syscallSemOpen by decide)
  · exact ((keeps _ k₂ fits₂ taken₂).mp kept).noClose ⟨rfl, rfl⟩

/-- Opening a semaphore and closing it again leaves the freed block in the table. -/
theorem registry_lists_closed : ∃ k k' s, Run anyTrap smallKernel k ∧ k.hist.opened = [s] ∧
    (userCall k syscallSemClose s 0).Fits k ∧
    trap k (userCall k syscallSemClose s 0) = .ok k' ∧ ¬ k'.Registry := by
  obtain ⟨k, b, p, user, length, run⟩ := registry_opens 1 (by decide)
  obtain ⟨s, opened⟩ := List.length_eq_one_iff.mp length
  obtain ⟨fits, k', taken⟩ := userCall_sem user.rest user.mode syscallSemClose s (by simp)
    (by simp [opened])
  refine ⟨k, k', s, user.run, opened, fits, taken, fun registry => ?_⟩
  have safe := (trap_registry user.rest (run_registry ⟨rfl, rfl⟩ run) fits taken).mp registry
  exact safe.noClose ⟨rfl, rfl⟩

end RiscvKernel
