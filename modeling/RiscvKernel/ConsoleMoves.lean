import RiscvKernel.SemMoves
import RiscvKernel.ConsoleFifo

/-!
# Console operations as moves

* `getc_inv`: a `getc` takes the first byte of the buffer or blocks its thread;
* `consoleReceive_inv`: buffered bytes go to waiting threads, in order, each of
  which goes to the end of the ready queue.
-/

namespace RiscvKernel
open Function Intrusive Placement Console

/-- The view has of the console only where its buffers are. -/
theorem console_view (k : Kernel) {c : Console}
    (receive : c.receiveBuffer.addr = k.console.receiveBuffer.addr)
    (send : c.sendBuffer.addr = k.console.sendBuffer.addr) :
    Kernel.view { k with console := c } = k.view := by
  simp only [Kernel.view, Kernel.bootBlocks, receive, send]
  rfl

section
variable {k : Kernel} {b : Threads} {recs : List Nat}

/-! ## `__getc` -/

/-- `__getc` with a byte in the buffer. -/
def Kernel.getcByte (k : Kernel) : Kernel := { k with
  mem := update k.mem (slot (k.sp k.scheduler.threadCurrent) regA0)
    (k.console.receiveBuffer.data 0).toNat
  console := { k.console with
    receiveCnt := k.console.receiveCnt - 1
    receiveBuffer := (k.console.receiveBuffer.touch 0).shift 1 (k.console.receiveCnt - 1) }
  hist := { k.hist with handed := k.hist.handed ++ [k.console.receiveBuffer.data 0] } }

/-- **Reading.** -/
theorem getc_inv (inv : k.Inv b recs) (user : k.scheduler.threadCurrent ∈ k.hist.live) :
    if k.console.receiveCnt = 0 then
      getc k = (consoleReceiveBufferEmpty, waitingPush (switch k) k.scheduler.threadCurrent) ∧
      ∃ b', (waitingPush (switch k) k.scheduler.threadCurrent).Inv b' recs ∧
        b'.queue = update (update b.queue .ready (b.queue .ready).tail) .input
          (b.queue .input ++ [k.scheduler.threadCurrent])
    else getc k = (0, k.getcByte) ∧ k.getcByte.Inv b recs := by
  split
  · next empty =>
    exact ⟨if_pos empty,
      block_inv inv (i := .input) trivial (by simp) user (waitingPush_view ..) rfl⟩
  · next some =>
    exact ⟨if_neg some, inv.congr (console_view k (shift_addr ..) rfl) rfl⟩

/-! ## `__console_receive` -/

/-- The threads `ws` get the bytes of the buffer from element `first` on. -/
structure Kernel.Served (k k' : Kernel) (first : Nat) (ws : List Nat) (bytes : List UInt8) :
    Prop where
  taken : bytes = firsts (fun i => k.console.receiveBuffer.data (first + i)) ws.length
  frame : k' = { k with
    thread := k'.thread
    links := k'.links
    scheduler := { k.scheduler with readyThreads := k'.scheduler.readyThreads }
    threadsWaitingForInput := k'.threadsWaitingForInput
    mem := answers k.sp (ws.zip (bytes.map UInt8.toNat)) k.mem
    console := { k.console with receiveBuffer :=
      { k.console.receiveBuffer with reach := k'.console.receiveBuffer.reach } }
    hist := { k.hist with
      pushed := k.hist.pushed ++ ws
      handed := k.hist.handed ++ bytes
      served := k.hist.served ++ ws.zip bytes } }
  reach : k'.console.receiveBuffer.reach ≤ max k.console.receiveBuffer.reach (first + ws.length)
  saved : ∀ t, (k'.thread t).saved = (k.thread t).saved
  slices : ∀ t, k'.slice t = if t ∈ ws then defaultTimeSlice else k.slice t

/-- One round of the second loop of `__console_receive`. -/
def Kernel.serve (k : Kernel) (first w : Nat) : Kernel :=
  let k := (waitingPop k).2
  let c := k.console.receiveBuffer.data first
  let k := k.setContext (k.thread w).sp regA0 c.toNat
  let k := { k with
    console := { k.console with receiveBuffer := k.console.receiveBuffer.touch first }
    hist := { k.hist with
      handed := k.hist.handed ++ [c]
      served := k.hist.served ++ [(w, c)] } }
  schedulerPush k w

theorem serve_inv (inv : k.Inv b recs) {w : Nat} {ws : List Nat} (queue : b.queue .input = w :: ws)
    (first : Nat) : (waitingPop k).1 = w ∧ ∃ b', (k.serve first w).Inv b' recs ∧
      b'.queue = update (update b.queue .input ws) .ready (b.queue .ready ++ [w]) := by
  refine wake_inv inv (i := .input) trivial (by simp) queue ?_ rfl
  unfold Kernel.serve
  rw [schedulerPush_view, ← waitingPop_view]
  rfl

theorem unblockLoop_spec (left : Nat) : ∀ first (k : Kernel) (b : Threads), k.Inv b recs →
    ∃ k' b' bytes, unblockLoop left first k =
        (first + ((b.queue .input).take left).length, k') ∧ k'.Inv b' recs ∧
      k.Served k' first ((b.queue .input).take left) bytes ∧
      b'.queue = update (update b.queue .input ((b.queue .input).drop left)) .ready
        (b.queue .ready ++ (b.queue .input).take left) := by
  have done : ∀ first (k : Kernel) (b : Threads), k.Served k first [] [] := fun first k b =>
    ⟨rfl, by simp [answers], Nat.le_max_left .., fun _ => rfl, fun t => by simp⟩
  induction left with
  | zero =>
    intro first k b inv
    exact ⟨k, b, [], rfl, inv, done first k b, by simp⟩
  | succ left ih =>
    intro first k b inv
    have ring := inv.places.rings.ring .input trivial
    cases hq : b.queue .input with
    | nil =>
      have empty : k.threadsWaitingForInput = 0 := ring.head_null.mpr hq
      refine ⟨k, b, [], ?_, inv, done first k b, ?_⟩
      · unfold unblockLoop
        rw [empty]
        rfl
      · rw [List.take_nil, List.drop_nil, List.append_nil, ← hq, update_eq_self, update_eq_self]
    | cons w ws =>
      have some : k.threadsWaitingForInput ≠ 0 := fun e => by simpa [hq] using ring.head_null.mp e
      obtain ⟨head, b₁, inv₁, queue₁⟩ := serve_inv inv hq first
      obtain ⟨k', b', bytes, eq, inv', served, queue'⟩ := ih (first + 1) (k.serve first w) b₁ inv₁
      have input : b₁.queue .input = ws := by simp [queue₁]
      rw [input] at eq served queue'
      refine ⟨k', b', k.console.receiveBuffer.data first :: bytes, ?_, inv', ⟨?_, ?_, ?_, ?_, ?_⟩,
        ?_⟩
      · unfold unblockLoop
        rw [if_pos some, head]
        refine eq.trans ?_
        simp only [List.take_succ_cons, List.length_cons, Prod.mk.injEq, and_true]
        omega
      · rw [List.take_succ_cons, List.length_cons, firsts_cons, served.taken]
        simp only [Nat.add_zero, List.cons.injEq, true_and]
        refine firsts_congr fun i _ => ?_
        show k.console.receiveBuffer.data (first + 1 + i) = _
        rw [Nat.add_assoc, Nat.add_comm 1]
      · have sp : (k.serve first w).sp = k.sp := schedulerPush_sp _ w
        rw [served.frame, sp]
        simp [Kernel.serve, schedulerPush, Kernel.modifyThread, waitingPop, Kernel.setContext,
          Kernel.poke, Buffer.touch, Kernel.sp]
      · have := served.reach
        have touched : (k.serve first w).console.receiveBuffer.reach =
          max k.console.receiveBuffer.reach (first + 1) := rfl
        simp only [List.take_succ_cons, List.length_cons]
        omega
      · intro t
        exact (served.saved t).trans (schedulerPush_thread_saved _ w t)
      · intro t
        have slice : (k.serve first w).slice = update k.slice w defaultTimeSlice :=
          schedulerPush_slice _ w
        rw [served.slices t, slice, List.take_succ_cons, update_apply]
        by_cases ht : t = w <;> simp [ht]
      · rw [queue', queue₁]
        simp [update_comm]

/-- What `__console_receive` does: `input` comes from the device, and the first
bytes of the buffer go to the threads `ws`. -/
structure Kernel.Delivered (k k' : Kernel) (ws : List Nat) (input bytes : List UInt8) : Prop where
  received : k'.console.received = k.console.received ++ input
  unread : k.console.unread ++ input = bytes ++ k'.console.unread
  length : bytes.length = ws.length
  room : k'.console.receiveCnt ≤ consoleBufferSize
  reach : k'.console.receiveBuffer.reach ≤ max k.console.receiveBuffer.reach consoleBufferSize
  output : SameOutput k.console k'.console
  frame : k' = { k with
    thread := k'.thread
    links := k'.links
    scheduler := { k.scheduler with readyThreads := k'.scheduler.readyThreads }
    threadsWaitingForInput := k'.threadsWaitingForInput
    mem := answers k.sp (ws.zip (bytes.map UInt8.toNat)) k.mem
    console := k'.console
    hist := { k.hist with
      pushed := k.hist.pushed ++ ws
      handed := k.hist.handed ++ bytes
      served := k.hist.served ++ ws.zip bytes } }
  saved : ∀ t, (k'.thread t).saved = (k.thread t).saved
  slices : ∀ t, k'.slice t = if t ∈ ws then defaultTimeSlice else k.slice t

theorem Kernel.Delivered.saved_eq {k k' : Kernel} {ws : List Nat} {input bytes : List UInt8}
    (delivered : k.Delivered k' ws input bytes) : k'.saved = k.saved := by
  have frame := delivered.frame
  have hart : k'.hart = k.hart := by rw [frame]
  have current : k'.scheduler.threadCurrent = k.scheduler.threadCurrent := by rw [frame]
  funext t
  unfold Kernel.saved
  rw [hart, current, delivered.saved t]

/-- **Receiving.** Bytes go to the threads that have waited longest; a thread
waits on only when no byte is left. -/
theorem consoleReceive_inv (inv : k.Inv b recs) (room : k.console.receiveCnt ≤ consoleBufferSize) :
    ∃ b' ws rest input bytes, (consoleReceive k).Inv b' recs ∧ b.queue .input = ws ++ rest ∧
      (rest ≠ [] → (consoleReceive k).console.receiveCnt = 0) ∧
      k.Delivered (consoleReceive k) ws input bytes ∧
      b'.queue = update (update b.queue .input rest) .ready (b.queue .ready ++ ws) := by
  obtain ⟨input, h⟩ := receiveLoop_spec (consoleBufferSize - k.console.receiveCnt) k.console
  let c := k.console.receiveLoop (consoleBufferSize - k.console.receiveCnt)
  let k₁ : Kernel := { k with console := c }
  have inv₁ : k₁.Inv b recs :=
    inv.congr (console_view k h.addr (congrArg Buffer.addr h.output.buffer)) rfl
  obtain ⟨k₂, b', bytes, eq, inv', served, queue⟩ := unblockLoop_spec c.receiveCnt 0 k₁ b inv₁
  rw [Nat.zero_add] at eq
  generalize hws : (b.queue .input).take c.receiveCnt = ws at eq served queue
  have run : consoleReceive k = { k₂ with console := k₂.console.dropReceived ws.length } := by
    have run : consoleReceive k = { (unblockLoop c.receiveCnt 0 k₁).2 with
        console := ((unblockLoop c.receiveCnt 0 k₁).2.console.dropReceived
          (unblockLoop c.receiveCnt 0 k₁).1) } := rfl
    rw [run, eq]
  have count : ws.length ≤ c.receiveCnt := by
    rw [← hws, List.length_take]
    exact Nat.min_le_left ..
  have console : k₂.console = { c with receiveBuffer :=
      { c.receiveBuffer with reach := k₂.console.receiveBuffer.reach } } :=
    congrArg Kernel.console served.frame
  have cnt : k₂.console.receiveCnt = c.receiveCnt := by rw [console]
  have data : k₂.console.receiveBuffer.data = c.receiveBuffer.data := by rw [console]
  obtain ⟨drop, reach⟩ := dropReceived_spec k₂.console (count.trans cnt.ge)
  have bytes_eq := served.taken
  simp only [Nat.zero_add] at bytes_eq
  have unread : k₂.console.unread = c.unread := by
    rw [Console.unread, cnt, data]
    rfl
  have short : c.receiveCnt ≤ k.console.receiveCnt + (consoleBufferSize - k.console.receiveCnt) :=
    h.cnt
  rw [run]
  refine ⟨b', ws, (b.queue .input).drop c.receiveCnt, input, bytes, ?_, ?_, ?_, ?_, queue⟩
  · refine inv'.congr (console_view k₂ ?_ rfl) rfl
    exact shift_addr ..
  · rw [← hws, List.take_append_drop]
  · intro rest
    show k₂.console.receiveCnt - ws.length = 0
    have := List.length_pos_iff.mpr rest
    rw [List.length_drop] at this
    rw [cnt, ← hws, List.length_take]
    omega
  · refine ⟨?_, ?_, ?_, ?_, ?_, ?_, ?_, served.saved, served.slices⟩
    · have received : k₂.console.received = c.received := by
        rw [console]
        rfl
      exact received.trans h.received
    · rw [← h.unread, bytes_eq]
      rw [unread, data] at drop
      exact drop
    · rw [bytes_eq, firsts_length]
    · show k₂.console.receiveCnt - ws.length ≤ _
      omega
    · have reach₁ : c.receiveBuffer.reach ≤ max k.console.receiveBuffer.reach
        (k.console.receiveCnt + (consoleBufferSize - k.console.receiveCnt)) := h.reach
      have reach₂ : k₂.console.receiveBuffer.reach ≤ max c.receiveBuffer.reach (0 + ws.length) :=
        served.reach
      show (k₂.console.dropReceived ws.length).receiveBuffer.reach ≤ _
      omega
    · have output : SameOutput c k₂.console := by
        rw [console]
        exact ⟨rfl, rfl, rfl⟩
      exact (h.output.trans output).trans ⟨rfl, rfl, rfl⟩
    · exact congrArg (fun k' : Kernel =>
        { k' with console := k₂.console.dropReceived ws.length }) served.frame

end

end RiscvKernel
