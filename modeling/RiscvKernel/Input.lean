import RiscvKernel.Runs

/-!
# Console input is delivered in order

`input_in_order`: in every run, the bytes read from the device are those handed
to `getc` calls and those in the buffer, in order, and the threads that blocked
in `getc` get a byte each in the order in which they blocked.
-/

namespace RiscvKernel
open Function Intrusive Placement Console

/-- The input between two traps. -/
structure Kernel.InputInOrder (k : Kernel) : Prop where
  order : k.console.received = k.hist.handed ++ k.console.unread
  fifo : ∃ waiting, IsRing k.links k.threadsWaitingForInput waiting ∧
    k.hist.inputBlocked = k.hist.served.map Prod.fst ++ waiting ∧
    (∀ ready, IsRing k.links k.scheduler.readyThreads ready → waiting.Disjoint ready) ∧
    k.scheduler.threadCurrent ∉ waiting
  empty : k.threadsWaitingForInput ≠ 0 → k.console.receiveCnt = 0
  room : k.console.receiveCnt ≤ consoleBufferSize
  inside : k.console.receiveBuffer.reach ≤ consoleBufferSize

/-- A trap gives the threads `ws` a byte each, the next ones of the input. -/
structure Kernel.Gives (k k' : Kernel) (ws : List Nat) (bytes : List UInt8) : Prop where
  length : bytes.length = ws.length
  handed : k'.hist.handed = k.hist.handed ++ bytes
  once : ws.Nodup
  pushed : k'.hist.pushed = k.hist.pushed ++ ws
  frames : ∀ x ∈ ws.zip bytes, (∀ w ∈ ws, (k'.saved w).sp = (k'.saved x.1).sp → w = x.1) →
    k'.context (k'.saved x.1).sp regA0 = x.2.toNat

section
variable {k k' : Kernel} {b b' : Threads} {recs recs' : List Nat}

/-- The invariant of the input. -/
structure Kernel.InputInv (k : Kernel) (b : Threads) : Prop where
  order : k.console.received = k.hist.handed ++ k.console.unread
  fifo : k.hist.inputBlocked = k.hist.served.map Prod.fst ++ b.queue .input
  empty : b.queue .input ≠ [] → k.console.receiveCnt = 0
  inside : k.console.receiveBuffer.reach ≤ consoleBufferSize

theorem Kernel.InputStep.zip_fst {waiting waiting' : List Nat} {input bytes : List UInt8}
    {ws blocked : List Nat} (step : k.InputStep k' waiting waiting' input bytes ws blocked) :
    (ws.zip bytes).map Prod.fst = ws := by
  refine List.map_fst_zip ?_
  cases ws with
  | nil => exact Nat.zero_le _
  | cons w ws => exact (step.given (by simp)).length.ge

theorem Kernel.InputStep.keeps {input bytes : List UInt8} {ws blocked : List Nat}
    (step : k.InputStep k' (b.queue .input) (b'.queue .input) input bytes ws blocked)
    (inv : k.InputInv b) : k'.InputInv b' where
  order := by
    rw [step.received, inv.order, step.handed, List.append_assoc, step.unread, List.append_assoc]
  fifo := by
    obtain ⟨rest, waiting, waiting'⟩ := step.left
    rw [step.inputBlocked, inv.fifo, step.served, waiting, waiting', List.map_append, step.zip_fst]
    simp
  empty := step.empty inv.empty
  inside := by
    have := step.reach
    have := inv.inside
    omega

theorem Kernel.Given.gives {ws rest : List Nat} {bytes : List UInt8} (given : k.Given k' ws bytes)
    (handed : k'.hist.handed = k.hist.handed ++ bytes)
    (nodup : (ws ++ rest).Nodup) (out : ∀ w ∈ ws, w ≠ k.scheduler.threadCurrent) :
    k.Gives k' ws bytes where
  length := given.length
  handed := handed
  once := (List.nodup_append.mp nodup).1
  pushed := given.pushed
  frames := by
    intro x hx own
    have sp : ∀ w ∈ ws, (k'.saved w).sp = k.sp w := by
      intro w hw
      rw [given.saved, saved_other (out w hw)]
      rfl
    have fst := List.map_fst_zip given.length.ge
    have mine : x.1 ∈ ws := fst ▸ List.mem_map_of_mem hx
    obtain ⟨front, back, split⟩ := List.append_of_mem hx
    have nodup : ((front ++ x :: back).map Prod.fst).Nodup := by
      rw [← split, fst]
      exact (List.nodup_append.mp nodup).1
    have words : ws.zip (bytes.map UInt8.toNat) =
        front.map (Prod.map id UInt8.toNat) ++
          (x.1, x.2.toNat) :: back.map (Prod.map id UInt8.toNat) := by
      rw [List.zip_map_right, split, List.map_append, List.map_cons]
      rfl
    rw [sp x.1 mine]
    unfold Kernel.context
    rw [given.mem, words]
    refine answers_last (fun y hy same => ?_) k.mem
    obtain ⟨z, hz, rfl⟩ := List.mem_map.mp hy
    -- no later byte goes to the same frame
    have theirs : z.1 ∈ ws := fst ▸ List.mem_map_of_mem (split ▸ by simp [hz])
    have eq : z.1 = x.1 := own z.1 theirs (by rw [sp z.1 theirs, sp x.1 mine]; exact same)
    rw [List.map_append, List.map_cons, List.nodup_append, List.nodup_cons] at nodup
    exact absurd (eq ▸ List.mem_map_of_mem hz) nodup.2.1.1

theorem Kernel.Booted.inputInv {k₀ : Kernel} {p stackSpace : Nat}
    (booted : k₀.Booted k b p stackSpace) (platform : k₀.Platform) : k.InputInv b := by
  obtain ⟨noReads, noneHanded, noneBlocked, noneServed⟩ := platform.noInput
  have console := booted.console
  have hist := booted.hist
  refine ⟨?_, ?_, fun waits => ?_, ?_⟩
  · rw [console, hist]
    simp [Console.received, Console.unread, noReads, noneHanded]
  · rw [hist, booted.queue]
    simp [noneBlocked, noneServed]
  · simp [booted.queue] at waits
  · rw [console]
    simp [platform.untouched.1]

theorem Kernel.Rest.inputInOrder (rest : k.Rest b recs) (inv : k.InputInv b) :
    k.InputInOrder where
  order := inv.order
  fifo := by
    refine ⟨b.queue .input, rest.places.rings.ring .input trivial, inv.fifo,
      fun ready ring t waits readies => ?_, fun waits => ?_⟩
    · rw [ring.unique (rest.places.rings.ring .ready trivial)] at readies
      exact absurd (b.apart waits readies) (by simp)
    · exact absurd ((b.mem_queue.mp waits).symm.trans rest.inv.current) (by simp)
  empty some := by
    refine inv.empty fun none => some ?_
    exact (rest.places.rings.ring .input trivial).head_null.mpr none
  room := rest.receiveRoom
  inside := inv.inside

theorem Handled.inputInv {tr : Trap} {k₁ : Kernel}
    (handled : Handled (enter k tr) b recs k₁ b' recs')
    (rest : k.Rest b recs) (inv : k.InputInv b) : (leave k₁).InputInv b' := by
  obtain ⟨input, bytes, ws, blocked, step⟩ := handled.input rest.receiveRoom rest.sendRoom
  obtain ⟨order, fifo, empty, inside⟩ := step.keeps ⟨inv.order, inv.fifo, inv.empty, inv.inside⟩
  exact ⟨order, fifo, empty, inside⟩

end

/-- The small machine with a device that has one byte. -/
def byteKernel : Kernel := { smallKernel with
  console := { smallKernel.console with
    device := ⟨fun n => if n = 0 then consoleStatusReceive else 0, fun _ => 7, 0, 0, []⟩ } }

theorem byteKernel_platform : byteKernel.Platform := by
  obtain ⟨fresh, room, supervisor, noThreads, noSems, noBlocks, -, -, untouched⟩ :=
    smallKernel_platform
  exact ⟨fresh, room, supervisor, noThreads, noSems, noBlocks, ⟨rfl, rfl, rfl, rfl⟩, ⟨rfl, rfl⟩,
    untouched⟩

theorem receiveLoop_one {c : Console} (ready : c.status &&& consoleStatusReceive ≠ 0)
    (empty : ¬ c.statusRead.receiveByte.status &&& consoleStatusReceive ≠ 0) (n : Nat) :
    c.receiveLoop (n + 2) = c.statusRead.receiveByte.statusRead := by
  rw [Console.receiveLoop, if_pos ready, Console.receiveLoop, if_neg empty]

/-- The byte that the device has goes to the thread that waits. -/
theorem consoleReceive_gives {k : Kernel} {p : Nat} (nonzero : p ≠ 0)
    (waits : k.threadsWaitingForInput = p) (none : k.console.receiveCnt = 0)
    (ready : k.console.status &&& consoleStatusReceive ≠ 0)
    (empty : ¬ k.console.statusRead.receiveByte.status &&& consoleStatusReceive ≠ 0) :
    (consoleReceive k).hist.served =
      k.hist.served ++ [(p, k.console.device.rxData k.console.device.rxReads)] := by
  have loop : k.console.receiveLoop (consoleBufferSize - k.console.receiveCnt) =
      k.console.statusRead.receiveByte.statusRead := by
    rw [none]
    exact receiveLoop_one ready empty 1022
  have cnt : k.console.statusRead.receiveByte.statusRead.receiveCnt = 1 := by
    show k.console.receiveCnt + 1 = 1
    rw [none]
  have byte : k.console.statusRead.receiveByte.statusRead.receiveBuffer.data 0 =
      k.console.device.rxData k.console.device.rxReads := by
    show update k.console.receiveBuffer.data k.console.receiveCnt _ 0 = _
    rw [none, update_self]
    rfl
  generalize k.console.statusRead.receiveByte.statusRead = c at loop cnt byte
  unfold consoleReceive
  simp only [loop, cnt]
  have some : ({ k with console := c } : Kernel).threadsWaitingForInput ≠ 0 :=
    fun zero => nonzero (waits.symm.trans zero)
  rw [unblockLoop, if_pos some, ← byte, ← waits]
  rfl

/-- A console interrupt of whoever runs. -/
def inputTrap (k : Kernel) : Trap where
  scause := irqHw
  sepc := 0x80000500
  sstatus := if k.hart.supervisor then 2 ^ 8 else 0
  regs := fun i => if i = regSp then 2048 else 0
  mem := k.mem
  plic := 10

theorem inputTrap_fits (k : Kernel) : (inputTrap k).Fits k := by
  have causes : irqHw ≠ irqEcallUser ∧ irqHw ≠ irqEcallKernel := by decide
  refine ⟨?_, fun h => absurd h causes.1, fun h => absurd h causes.2, fun i => ?_,
    fun h => absurd h causes.1⟩
  · show (if k.hart.supervisor then 2 ^ 8 else 0 : Nat).testBit 8 = _
    cases k.hart.supervisor <;> decide
  · show (if _ then _ else _) < _
    split <;> decide

/-- **Console input is delivered in order**, each byte once, in any run. -/
theorem input_in_order {k₀ k : Kernel} (run : Run anyTrap k₀ k) : k.InputInOrder ∧
    ∀ tr k', tr.Fits k → trap k tr = .ok k' →
      ∃ ws bytes, k'.hist.served = k.hist.served ++ ws.zip bytes ∧
        (ws ≠ [] → k.Gives k' ws bytes) := by
  obtain ⟨b, recs, rest, inv⟩ := run_invariant (P := fun k b _ => k.InputInv b)
    (fun platform booted => booted.inputInv platform)
    (fun rest _ _ handled _ inv => handled.inputInv rest inv) run
  refine ⟨rest.inputInOrder inv, fun tr k' fits taken => ?_⟩
  obtain ⟨k₁, b', recs', rfl, handled, -⟩ := trap_rest rest fits taken
  obtain ⟨input, bytes, ws, blocked, step⟩ := handled.input rest.receiveRoom rest.sendRoom
  obtain ⟨left, waiting, -⟩ := step.left
  refine ⟨ws, bytes, step.served, fun served => ?_⟩
  have gives := (step.given served).gives step.handed
    (show (_ ++ left).Nodup from waiting ▸ b.nodup .input)
    fun w hw current => by
      have waits : w ∈ b.queue .input := by simp [waiting, hw]
      exact absurd ((b.mem_queue.mp waits).symm.trans (rest.inv.running.mpr current)) (by simp)
  exact ⟨gives.length, gives.handed, gives.once, gives.pushed, gives.frames⟩

/-- The first user thread calls `getc` and blocks, and then the device has a byte for it. -/
theorem input_in_order_small : ∃ (k k₁ k₂ : Kernel) (p : Nat),
    trap k (userCall k syscallGetc 0 0) = .ok k₁ ∧ k₁.InputInOrder ∧
    IsRing k₁.links k₁.threadsWaitingForInput [p] ∧ trap k₁ (inputTrap k₁) = .ok k₂ ∧
    k₂.InputInOrder ∧ k₂.hist.served = k₁.hist.served ++ [(p, 7)] ∧ k₁.Gives k₂ [p] [7] := by
  obtain ⟨k, b, p, user, -, device, none, -, -, run⟩ := first_user byteKernel_platform anyTrap
    fun _ _ => trivial
  -- the call
  let tr := userCall k syscallGetc 0 0
  have fits : tr.Fits k :=
    plainCall_fits user.mode (by decide) (by decide) (by decide) (by decide)
  obtain ⟨k₁, taken⟩ := userCall_returns user.rest (by decide) fits
  have run₁ := Run.trap run fits trivial taken
  have order₁ := (input_in_order run₁).1
  obtain ⟨k', b', recs', rfl, handled, rest'⟩ := trap_rest user.rest fits taken
  have called := handled.userCall rfl
  have code : (enter k tr).context (enter k tr).hart.sscratch regA0 = syscallGetc :=
    enter_arg k tr (by decide) (by decide)
  rw [code] at called
  cases called with
  | unknown other => exact absurd (by decide) other
  | getcByte some => exact absurd none some
  | getcBlocked _ queue =>
    have waiting : b'.queue .input = [p] := by
      rw [queue, update_self]
      show b.queue .input ++ [k.scheduler.threadCurrent] = _
      rw [user.idle, user.current, List.nil_append]
    have ring := rest'.places.rings.ring .input trivial
    rw [waiting] at ring
    have console : (leave (waitingPush (switch (bumpSepc (enter k tr) 4))
      (bumpSepc (enter k tr) 4).scheduler.threadCurrent)).console = k.console := switch_console _
    generalize leave _ = k₁ at taken run₁ order₁ console ring
    rw [← console] at device none
    -- the interrupt
    have received := consoleReceive_gives (k := enter k₁ (inputTrap k₁))
      (fun zero => ring.2.2.2 (by simp [zero])) ring.1 none
      (show k₁.console.device.status k₁.console.device.statusReads &&& _ ≠ 0 by rw [device]; decide)
      (show ¬ k₁.console.device.status (k₁.console.device.statusReads + 1) &&& _ ≠ 0 by
        rw [device]
        decide)
    have byte : k₁.console.device.rxData k₁.console.device.rxReads = 7 := by rw [device]; rfl
    let k₂ := leave (consoleSend (consoleReceive (enter k₁ (inputTrap k₁))))
    have served : k₂.hist.served = k₁.hist.served ++ [(p, 7)] := byte ▸ received
    have taken₂ : trap k₁ (inputTrap k₁) = .ok k₂ := rfl
    obtain ⟨ws, bytes, zip, gives⟩ := (input_in_order run₁).2 _ k₂ (inputTrap_fits k₁) taken₂
    have one : ws.zip bytes = [(p, 7)] := List.append_cancel_left (zip.symm.trans served)
    have some : ws ≠ [] := by
      rintro rfl
      cases one
    have gives := gives some
    have threads : ws = [p] := by
      rw [← List.map_fst_zip gives.length.ge, one]
      rfl
    have given : bytes = [7] := by
      rw [← List.map_snd_zip gives.length.le, one]
      rfl
    rw [threads, given] at gives
    exact ⟨k, k₁, k₂, p, taken, order₁, ring, taken₂,
      (input_in_order (.trap run₁ (inputTrap_fits k₁) trivial taken₂)).1, served, gives⟩

end RiscvKernel
