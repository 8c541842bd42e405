import RiscvKernel.Stores

/-!
# Kernels with another sleeping list

`k.shade m` is the kernel `k` with another sleeping list, other time slices for some threads and
more blocks of user code. Handlers that look at none of these do the same to both kernels.

* `semSignal_shade`, `semClose_shade`, `consoleReceive_shade`: the handlers that wake threads;
* `handleSyscall_shade`, `irqHandler_shade`: system calls and traps.
-/

namespace RiscvKernel
open Function Intrusive

structure Shade where
  links : Links
  head : Nat
  sleeping : Nat → SleepingThread
  slice : Nat → Option Nat
  blocks : List (Nat × Nat)

namespace Shade

def thread (m : Shade) (t : Nat) (x : Thread) : Thread :=
  { x with timeLeft := (m.slice t).getD x.timeLeft }

/-- A thread whose slice is the one it has when it becomes ready, or its own. -/
def Free (m : Shade) (t : Nat) : Prop := ∀ n, m.slice t = some n → n = defaultTimeSlice

theorem Free.ready {m : Shade} {t : Nat} (free : m.Free t) :
    (m.slice t).getD defaultTimeSlice = defaultTimeSlice := by
  cases h : m.slice t with
  | none => rfl
  | some n => exact free n h

theorem Free.lasting {m : Shade} {t n : Nat} (free : m.Free t) (lasting : n ≠ 0) :
    (m.slice t).getD n ≠ 0 := by
  cases h : m.slice t with
  | none => exact lasting
  | some x =>
    have ready : x ≠ 0 := by
      rw [free x h]
      decide
    exact ready

end Shade

def Kernel.shade (k : Kernel) (m : Shade) : Kernel := { k with
  thread := fun t => m.thread t (k.thread t)
  sleeping := m.sleeping
  sleepLinks := m.links
  scheduler := { k.scheduler with sleepingThreads := m.head }
  hist := { k.hist with userBlocks := k.hist.userBlocks ++ m.blocks } }

section
variable {k k' : Kernel} {m : Shade}

theorem Kernel.Readies.last {t : Nat} (pushed : k'.hist.pushed = k.hist.pushed ++ [t]) :
    k.Readies k' t := ⟨[t], pushed, List.mem_singleton_self t⟩

theorem Kernel.Readies.before {k₁ : Kernel} {t x : Nat}
    (pushed : k₁.hist.pushed = k.hist.pushed ++ [t]) (readies : k₁.Readies k' x) :
    k.Readies k' x := by
  obtain ⟨new, later, mem⟩ := readies
  rw [pushed, List.append_assoc] at later
  exact ⟨t :: new, later, List.mem_cons_of_mem t mem⟩

/-! ## The scheduler -/

theorem shade_update (m : Shade) (f : Nat → Thread) (t : Nat) (x : Thread) :
    (fun u => m.thread u (update f t x u)) =
      update (fun u => m.thread u (f u)) t (m.thread t x) := by
  funext u
  by_cases h : u = t
  · subst h
    rw [update_self, update_self]
  · rw [update_of_ne h, update_of_ne h]

theorem modifyThread_shade (k : Kernel) {t : Nat} {f : Thread → Thread}
    (same : m.thread t (f (k.thread t)) = f (m.thread t (k.thread t))) :
    (k.modifyThread t f).shade m = (k.shade m).modifyThread t f := by
  have threads := shade_update m k.thread t (f (k.thread t))
  rw [same] at threads
  exact congrArg (fun thread => { k.shade m with thread }) threads

theorem schedulerPush_shade (k : Kernel) {t : Nat} (free : m.Free t) :
    (schedulerPush k t).shade m = schedulerPush (k.shade m) t := by
  have threads := shade_update m k.thread t { k.thread t with timeLeft := defaultTimeSlice }
  have same : m.thread t { k.thread t with timeLeft := defaultTimeSlice } =
      { m.thread t (k.thread t) with timeLeft := defaultTimeSlice } := by
    simp only [Shade.thread, free.ready]
  rw [same] at threads
  exact congrArg (fun thread => { (schedulerPush k t).shade m with thread }) threads

theorem schedulerNext_shade (k : Kernel) :
    schedulerNext (k.shade m) = ((schedulerNext k).1, (schedulerNext k).2.shade m) := by
  have same : (k.shade m).scheduler.readyThreads = k.scheduler.readyThreads := rfl
  unfold schedulerNext
  rw [same]
  split <;> rfl

theorem yield_shade (k : Kernel) (old new : Nat) :
    (yield k old new).shade m = yield (k.shade m) old new := by
  unfold yield
  split
  · exact modifyThread_shade k rfl
  · have threads := shade_update m k.thread old { k.thread old with
      sstatus := k.hart.sstatus, sepc := k.hart.sepc, sp := k.hart.sscratch }
    exact congrArg (fun thread => { (k.shade m) with
      thread
      hart := { k.hart with
        sstatus := (k.thread new).sstatus, sepc := (k.thread new).sepc
        sscratch := (k.thread new).sp } }) threads

theorem switch_shade (k : Kernel) : (switch k).shade m = switch (k.shade m) := by
  unfold switch
  rw [schedulerNext_shade, yield_shade]
  rfl

theorem dispatch_shade (k : Kernel) (free : m.Free k.scheduler.threadCurrent) :
    (dispatch k).shade m = dispatch (k.shade m) := by
  rw [dispatch_eq, dispatch_eq, switch_shade, schedulerPush_shade k free]
  rfl

/-! ## The heap -/

theorem alloc_shade {n p : Nat} (ran : k.alloc n = .ok (p, k')) :
    (k.shade m).alloc n = .ok (p, k'.shade m) := by
  unfold Kernel.alloc at ran ⊢
  obtain ⟨⟨q, h⟩, eq, ran⟩ := ok_bind ran
  cases ran
  show memAlloc n k.heap >>= _ = _
  rw [eq]
  rfl

theorem freeOrPanic_shade {p : Nat} {msg : String} (ran : freeOrPanic k p msg = .ok k') :
    freeOrPanic (k.shade m) p msg = .ok (k'.shade m) := by
  unfold freeOrPanic Kernel.free at ran ⊢
  show (memFree p k.heap >>= _) >>= _ = _
  cases eq : memFree p k.heap with
  | error e =>
    rw [eq] at ran
    cases ran
  | ok x =>
    rw [eq] at ran
    have ran : (if x.1 ≠ 0 then Except.error (Halt.panic msg)
      else Except.ok { k with heap := x.2 }) = Except.ok k' := ran
    show (if x.1 ≠ 0 then Except.error (Halt.panic msg)
      else Except.ok { k.shade m with heap := x.2 }) = _
    split at ran
    · cases ran
    · next ok =>
      cases ran
      rw [if_neg ok]
      rfl

/-! ## Semaphores -/

theorem semPush_shade (k : Kernel) (s t : Nat) :
    (semPush k s t).shade m = semPush (k.shade m) s t := rfl

theorem semWait_shade (k : Kernel) (s : Nat) :
    semWait (k.shade m) s = ((semWait k s).1, (semWait k s).2.shade m) := by
  rw [semWait_run, semWait_run]
  have same : ((k.shade m).sem s).val = (k.sem s).val := rfl
  rw [same]
  split
  · rw [semPush_shade, switch_shade]
    rfl
  · rfl

/-- A thread whose timeout is not running is just woken. -/
theorem semUnblockThread_lasting {s : Nat}
    (lasting : (k.thread (k.sem s).waitingThreads).timeLeft ≠ 0) :
    semUnblockThread k s = .ok (k.unblocked s (k.sem s).waitingThreads) := by
  exact if_neg lasting

theorem unblocked_shade (k : Kernel) (s : Nat) {w : Nat} (free : m.Free w) :
    (k.shade m).unblocked s w = (k.unblocked s w).shade m := by
  rw [Kernel.unblocked, Kernel.unblocked, schedulerPush_shade _ free]
  rfl

/-- A signal that wakes nobody whose timeout is running. -/
theorem semSignal_shade {s : Nat} {r : Int} (ran : semSignal k s = .ok (r, k'))
    (lasting : (k.sem s).waitingThreads ≠ 0 →
      (k.thread (k.sem s).waitingThreads).timeLeft ≠ 0)
    (free : ∀ x, k.Readies k' x → m.Free x) :
    semSignal (k.shade m) s = .ok (r, k'.shade m) := by
  rw [semSignal_run] at ran ⊢
  have same : (k.shade m).sem s = k.sem s := rfl
  have first : ((k.signalled s).sem s).waitingThreads = (k.sem s).waitingThreads := by
    rw [signalled_sem]
  rw [same]
  split at ran
  · next low =>
    rw [if_pos low]
    split at ran
    · next nobody =>
      cases ran
      rw [if_pos nobody]
      rfl
    · next somebody =>
      rw [semUnblockThread_lasting (by rw [first]; exact lasting somebody), first] at ran
      cases ran
      have unmarked := free _ (.last rfl)
      have lasting' := unmarked.lasting (lasting somebody)
      rw [if_neg somebody]
      show semUnblockThread ((k.signalled s).shade m) s >>= _ = _
      rw [semUnblockThread_lasting (by
        show (m.slice ((k.signalled s).sem s).waitingThreads).getD
          (k.thread ((k.signalled s).sem s).waitingThreads).timeLeft ≠ 0
        rw [first]
        exact lasting')]
      show (Except.ok (((k.signalled s).shade m).unblocked s
        ((k.signalled s).sem s).waitingThreads) >>= _) = _
      rw [first, unblocked_shade _ _ unmarked]
      rfl
  · next above =>
    cases ran
    rw [if_neg above]
    rfl

theorem semOpen_shade {handle init : Nat} {r : Int} (ran : semOpen k handle init = .ok (r, k')) :
    semOpen (k.shade m) handle init = .ok (r, k'.shade m) := by
  unfold semOpen at ran ⊢
  obtain ⟨⟨s, k₁⟩, allocated, ran⟩ := ok_bind ran
  rw [alloc_shade allocated]
  have ran : (if s = 0 then Except.ok (semCreateNoMemory, k₁)
    else Except.ok (0, k₁.semOpened handle init s k₁.heap)) = Except.ok (r, k') := ran
  show (if s = 0 then Except.ok (semCreateNoMemory, k₁.shade m)
    else Except.ok (0, (k₁.shade m).semOpened handle init s k₁.heap)) = _
  split at ran
  · next refused =>
    cases ran
    rw [if_pos refused]
  · next new =>
    cases ran
    rw [if_neg new]
    rfl

theorem semCloseLoop_pushed {first : Nat} (fuel : Nat) : ∀ {k k' : Kernel} {t : Nat},
    semCloseLoop first fuel k t = .ok k' → ∃ ts, k'.hist.pushed = k.hist.pushed ++ t :: ts := by
  induction fuel with
  | zero =>
    intro k k' t ran
    cases ran
  | succ fuel ih =>
    intro k k' t ran
    have pushed : (schedulerPush k t).hist.pushed = k.hist.pushed ++ [t] := rfl
    unfold semCloseLoop at ran
    dsimp only at ran
    split at ran
    · cases ran
      exact ⟨[], pushed⟩
    · obtain ⟨ts, eq⟩ := ih ran
      refine ⟨k.links.next t :: ts, eq.trans ?_⟩
      show (schedulerPush k t).hist.pushed ++ _ = _
      rw [pushed, List.append_assoc]
      rfl

theorem semCloseLoop_shade {first : Nat} (fuel : Nat) : ∀ {k k' : Kernel} {t : Nat},
    semCloseLoop first fuel k t = .ok k' → (∀ x, k.Readies k' x → m.Free x) →
    semCloseLoop first fuel (k.shade m) t = .ok (k'.shade m) := by
  induction fuel with
  | zero =>
    intro k k' t ran
    cases ran
  | succ fuel ih =>
    intro k k' t ran free
    obtain ⟨ts, all⟩ := semCloseLoop_pushed _ ran
    have push := schedulerPush_shade k (free t ⟨t :: ts, all, List.mem_cons_self⟩)
    have next : (k.shade m).links.next t = k.links.next t := rfl
    have sp : ((k.shade m).thread t).sp = (k.thread t).sp := rfl
    unfold semCloseLoop at ran ⊢
    dsimp only at ran ⊢
    rw [← push, next, sp]
    split at ran
    · next last =>
      cases ran
      rw [if_pos last]
      rfl
    · next more =>
      rw [if_neg more]
      exact ih ran fun x readies => free x (readies.before rfl)

theorem semClose_run_eq (k : Kernel) (s : Nat) : semClose k s =
    ((if (k.sem s).waitingThreads ≠ 0 then
        semCloseLoop (k.sem s).waitingThreads (k.heap.nMemBlocks + 1)
          (k.note fun h => { h with opened := h.opened.erase s }) (k.sem s).waitingThreads
      else .ok (k.note fun h => { h with opened := h.opened.erase s })) >>= fun k =>
        freeOrPanic k s "Failed to free semaphore, memory corruption\n" >>= fun k =>
          .ok (0, k)) := by
  by_cases hw : (k.sem s).waitingThreads ≠ 0
  · rw [if_pos hw]
    exact if_pos hw
  · rw [if_neg hw]
    exact if_neg hw

theorem freeOrPanic_hist {p : Nat} {msg : String} (ran : freeOrPanic k p msg = .ok k') :
    k'.hist = k.hist := by
  unfold freeOrPanic Kernel.free at ran
  obtain ⟨⟨r, k₁⟩, freed, ran⟩ := ok_bind ran
  obtain ⟨x, -, eq⟩ := ok_bind freed
  cases eq
  have ran : (if x.1 ≠ 0 then Except.error (Halt.panic msg) else
    Except.ok { k with heap := x.2 }) = Except.ok k' := ran
  split at ran
  · cases ran
  · cases ran
    rfl

/-- A close that wakes nobody whose slice is another one. -/
theorem semClose_shade {s : Nat} {r : Int} (ran : semClose k s = .ok (r, k'))
    (free : ∀ x, k.Readies k' x → m.Free x) :
    semClose (k.shade m) s = .ok (r, k'.shade m) := by
  rw [semClose_run_eq] at ran ⊢
  obtain ⟨k₁, woken, ran⟩ := ok_bind ran
  obtain ⟨k₂, freed, ran⟩ := ok_bind ran
  cases ran
  have hist := freeOrPanic_hist freed
  have shaded : (if ((k.shade m).sem s).waitingThreads ≠ 0 then
      semCloseLoop ((k.shade m).sem s).waitingThreads ((k.shade m).heap.nMemBlocks + 1)
        ((k.shade m).note fun h => { h with opened := h.opened.erase s })
        ((k.shade m).sem s).waitingThreads
      else .ok ((k.shade m).note fun h => { h with opened := h.opened.erase s })) =
        .ok (k₁.shade m) := by
    by_cases some : (k.sem s).waitingThreads ≠ 0
    · rw [if_pos some] at woken
      refine (if_pos some).trans (semCloseLoop_shade _ woken fun x readies => free x ?_)
      obtain ⟨new, pushed, mem⟩ := readies
      exact ⟨new, by rw [hist]; exact pushed, mem⟩
    · rw [if_neg some] at woken
      cases woken
      exact if_neg some
  rw [shaded]
  show freeOrPanic (k₁.shade m) s _ >>= _ = _
  rw [freeOrPanic_shade freed]
  rfl

/-! ## Threads -/

theorem threadCreated_shade {p stackSpace : Nat} (free : m.Free p)
    (stack : stackBlock stackSpace ∈ k.hist.userBlocks) (handle startF arg : Nat) (heap : Heap) :
    (k.shade m).threadCreated handle startF arg stackSpace p heap =
      (k.threadCreated handle startF arg stackSpace p heap).shade m := by
  let new (k : Kernel) : Thread := {
    sp := u64 (stackSpace - contextSize)
    bp := u64 (stackSpace - defaultStackSize + 8)
    timeLeft := defaultTimeSlice
    sstatus := ExecMode.user.sstatus k.hart.sstatus
    sepc := k.image.threadWrapper }
  let framed (k : Kernel) : Kernel := (schedulerUserThreadIncrement
    (threadFrame k (u64 (stackSpace - contextSize)) startF arg)).poke handle p
  let noted (k : Kernel) (userBlocks : List (Nat × Nat)) : Kernel := k.note fun h => { h with
    live := p :: h.live, userBlocks, past := update h.past p (.created startF arg stackSpace) }
  have run : ∀ k : Kernel, k.threadCreated handle startF arg stackSpace p heap =
      noted (schedulerPush (framed ({ k with heap }.modifyThread p fun _ => new k)) p)
        (k.hist.userBlocks.erase (stackBlock stackSpace)) := fun _ => rfl
  have same : m.thread p (new k) = new k := by
    simp only [Shade.thread, new, free.ready]
  have made : { k.shade m with heap }.modifyThread p (fun _ => new (k.shade m)) =
      ({ k with heap }.modifyThread p fun _ => new k).shade m :=
    (modifyThread_shade { k with heap } same).symm
  have frame : ∀ k : Kernel, framed (k.shade m) = (framed k).shade m := fun _ => rfl
  have note : ∀ (k : Kernel) (userBlocks : List (Nat × Nat)),
      noted (k.shade m) (userBlocks ++ m.blocks) = (noted k userBlocks).shade m := fun _ _ => rfl
  have erased : (k.shade m).hist.userBlocks.erase (stackBlock stackSpace) =
      k.hist.userBlocks.erase (stackBlock stackSpace) ++ m.blocks := List.erase_append_left _ stack
  rw [run, run, erased, made, frame, ← schedulerPush_shade _ free, note]

theorem threadCreate_shade {handle startF arg stackSpace : Nat} {r : Int}
    (ran : threadCreate k handle startF arg stackSpace .user = .ok (r, k'))
    (stack : stackBlock stackSpace ∈ k.hist.userBlocks)
    (free : ∀ x, k.Readies k' x → m.Free x) :
    threadCreate (k.shade m) handle startF arg stackSpace .user = .ok (r, k'.shade m) := by
  unfold threadCreate at ran ⊢
  obtain ⟨⟨p, k₁⟩, allocated, ran⟩ := ok_bind ran
  rw [alloc_shade allocated]
  have hist : k₁.hist = k.hist := by
    unfold Kernel.alloc at allocated
    obtain ⟨x, -, eq⟩ := ok_bind allocated
    cases eq
    rfl
  have ran : (if p = 0 then Except.ok (threadCreateNoMemory, k₁) else
    Except.ok (0, k₁.threadCreated handle startF arg stackSpace p k₁.heap)) =
      Except.ok (r, k') := ran
  show (if p = 0 then Except.ok (threadCreateNoMemory, k₁.shade m) else
    Except.ok (0, (k₁.shade m).threadCreated handle startF arg stackSpace p k₁.heap)) = _
  split at ran
  · next refused =>
    cases ran
    rw [if_pos refused]
  · next new =>
    cases ran
    have pushed : k₁.hist.pushed ++ [p] = k.hist.pushed ++ [p] := by rw [hist]
    rw [if_neg new, threadCreated_shade (free p (.last pushed)) (by rwa [hist])]

theorem threadDelete_shade {t : Nat} (ran : threadDelete k t = .ok k') :
    threadDelete (k.shade m) t = .ok (k'.shade m) := by
  unfold threadDelete at ran ⊢
  have sp : ((k.shade m).thread t).sp = (k.thread t).sp := rfl
  have bp : ((k.shade m).thread t).bp = (k.thread t).bp := rfl
  rw [sp, bp]
  split at ran
  · cases ran
  · next fits =>
    obtain ⟨k₁, stack, block⟩ := ok_bind ran
    rw [if_neg fits]
    show freeOrPanic (k.shade m) (k.thread t).bp _ >>= _ = _
    rw [freeOrPanic_shade stack]
    exact freeOrPanic_shade block

theorem threadExit_shade (ran : threadExit k = .ok k') :
    threadExit (k.shade m) = .ok (k'.shade m) := by
  unfold threadExit at ran ⊢
  dsimp only at ran ⊢
  have same : (if (k.shade m).hart.sstatus.testBit 8 then k.shade m
      else schedulerUserThreadDecrement (k.shade m)) =
      (if k.hart.sstatus.testBit 8 then k else schedulerUserThreadDecrement k).shade m := by
    have mode : (k.shade m).hart.sstatus = k.hart.sstatus := rfl
    rw [mode]
    split <;> rfl
  rw [same]
  have shaded := threadDelete_shade (m := m) ran
  rw [switch_shade] at shaded
  exact shaded

/-! ## The console -/

theorem getc_shade (k : Kernel) : (getc (k.shade m)).2 = (getc k).2.shade m := by
  have same : (k.shade m).console = k.console := rfl
  unfold getc
  rw [same]
  split
  · show waitingPush (switch (k.shade m)) _ = _
    rw [← switch_shade]
    rfl
  · rfl

theorem putcRefused_shade (k : Kernel) (ch : UInt8) :
    (k.putcRefused ch).shade m = (k.shade m).putcRefused ch := by
  let c := k.scheduler.threadCurrent
  let k₁ := bumpSepc { k with console := (k.console.putc ch).2 } (-4)
  have threads := modifyThread_shade (m := m) k₁ (t := c)
    (f := fun t => { t with sepc := u64 (k₁.hart.sepc - 4) }) rfl
  exact congrArg (fun k' : Kernel => k'.note fun h =>
    { h with past := update h.past c (h.past c).refuse }) threads

theorem handlePutc_shade {context : Nat}
    (free : ∀ x, k.Readies (handlePutc k context) x → m.Free x) :
    handlePutc (k.shade m) context = (handlePutc k context).shade m := by
  have run : ∀ k : Kernel, handlePutc k context =
      if (k.console.putc (charOf (k.context context regA1))).1 ≠ 0 then
        dispatch (k.putcRefused (charOf (k.context context regA1)))
      else k.putcAccepted (charOf (k.context context regA1)) := fun _ => rfl
  have console : (k.shade m).console = k.console := rfl
  have char : (k.shade m).context context regA1 = k.context context regA1 := rfl
  rw [run] at free ⊢
  rw [run, console, char]
  by_cases full : (k.console.putc (charOf (k.context context regA1))).1 ≠ 0
  · rw [if_pos full] at free
    have refused := dispatch_shade (k.putcRefused (charOf (k.context context regA1)))
      (free _ (.last (dispatch_pushed (k.putcRefused _))))
    rw [putcRefused_shade] at refused
    rw [if_pos full, if_pos full]
    exact refused.symm
  · rw [if_neg full, if_neg full]
    rfl

theorem unblockLoop_pushed (left : Nat) : ∀ (first : Nat) (k : Kernel),
    ∃ ts, (unblockLoop left first k).2.hist.pushed = k.hist.pushed ++ ts := by
  induction left with
  | zero => exact fun _ k => ⟨[], (List.append_nil _).symm⟩
  | succ left ih =>
    intro first k
    unfold unblockLoop
    split
    · obtain ⟨ts, eq⟩ := ih (first + 1) (k.serve first (waitingPop k).1)
      have pushed : (k.serve first (waitingPop k).1).hist.pushed =
        k.hist.pushed ++ [(waitingPop k).1] := rfl
      refine ⟨(waitingPop k).1 :: ts, eq.trans ?_⟩
      rw [pushed, List.append_assoc]
      rfl
    · exact ⟨[], (List.append_nil _).symm⟩

theorem serve_shade (k : Kernel) (first : Nat) {w : Nat} (free : m.Free w) :
    (k.shade m).serve first w = (k.serve first w).shade m := by
  let given (k : Kernel) : Kernel :=
    let k := (waitingPop k).2
    let c := k.console.receiveBuffer.data first
    let k := k.setContext (k.thread w).sp regA0 c.toNat
    { k with
      console := { k.console with receiveBuffer := k.console.receiveBuffer.touch first }
      hist := { k.hist with
        handed := k.hist.handed ++ [c]
        served := k.hist.served ++ [(w, c)] } }
  have run : ∀ k : Kernel, k.serve first w = schedulerPush (given k) w := fun _ => rfl
  rw [run, run, schedulerPush_shade _ free]
  rfl

theorem unblockLoop_shade (left : Nat) : ∀ (first : Nat) (k : Kernel),
    (∀ x, k.Readies (unblockLoop left first k).2 x → m.Free x) →
    unblockLoop left first (k.shade m) =
      ((unblockLoop left first k).1, (unblockLoop left first k).2.shade m) := by
  induction left with
  | zero => exact fun _ _ _ => rfl
  | succ left ih =>
    intro first k free
    have same : (k.shade m).threadsWaitingForInput = k.threadsWaitingForInput := rfl
    unfold unblockLoop at free ⊢
    rw [same]
    by_cases some : k.threadsWaitingForInput ≠ 0
    · rw [if_pos some] at free
      rw [if_pos some, if_pos some]
      let w := (waitingPop k).1
      have free : ∀ x, k.Readies (unblockLoop left (first + 1) (k.serve first w)).2 x →
        m.Free x := free
      obtain ⟨ts, all⟩ := unblockLoop_pushed left (first + 1) (k.serve first w)
      have pushed : (k.serve first w).hist.pushed = k.hist.pushed ++ [w] := rfl
      have unmarked : m.Free w := by
        refine free w ⟨w :: ts, ?_, List.mem_cons_self⟩
        rw [all, pushed, List.append_assoc]
        rfl
      have served := ih (first + 1) (k.serve first w) fun x readies =>
        free x (readies.before pushed)
      rw [← serve_shade k first unmarked] at served
      exact served
    · rw [if_neg some, if_neg some]

theorem consoleReceive_shade (free : ∀ x, k.Readies (consoleReceive k) x → m.Free x) :
    consoleReceive (k.shade m) = (consoleReceive k).shade m := by
  let received (k : Kernel) : Kernel := { k with
    console := k.console.receiveLoop (consoleBufferSize - k.console.receiveCnt) }
  let dropped (x : Nat × Kernel) : Kernel := { x.2 with console := x.2.console.dropReceived x.1 }
  have run : ∀ k : Kernel, consoleReceive k =
      dropped (unblockLoop (received k).console.receiveCnt 0 (received k)) := fun _ => rfl
  have looped := unblockLoop_shade (received k).console.receiveCnt 0 (received k) free
  rw [run, run]
  show dropped (unblockLoop (received k).console.receiveCnt 0 ((received k).shade m)) = _
  rw [looped]
  rfl

theorem handleHw_shade {plic : Int}
    (free : ∀ x, k.Readies (handleHw plic k) x → m.Free x) :
    handleHw plic (k.shade m) = (handleHw plic k).shade m := by
  unfold handleHw at free ⊢
  by_cases console : plic = 10
  · rw [if_pos console] at free
    rw [if_pos console, if_pos console, consoleReceive_shade free]
    rfl
  · rw [if_neg console, if_neg console]

theorem handleEcallKernel_shade (k : Kernel) :
    handleEcallKernel (k.shade m) = (handleEcallKernel k).shade m := by
  by_cases call : k.context k.hart.sscratch regA0 = syscallKernelDispatch
  · have call' : (k.shade m).context (k.shade m).hart.sscratch regA0 = syscallKernelDispatch := call
    rw [handleEcallKernel_dispatch k call, handleEcallKernel_dispatch _ call', switch_shade]
    rfl
  · have skip : handleEcallKernel k = bumpSepc k 4 := if_neg call
    have skip' : handleEcallKernel (k.shade m) = bumpSepc (k.shade m) 4 := if_neg call
    rw [skip, skip']
    rfl

/-! ## System calls -/

/-- The system call `code` looks neither at the sleeping list nor at a slice that `m` changes. -/
structure Shade.Spares (m : Shade) (k : Kernel) (context code : Nat) : Prop where
  timedWait : code ≠ syscallSemTimedWait
  sleep : code = syscallTimedSleep → k.context context regA1 = 0
  create : code = syscallThreadCreate →
    stackBlock (k.context context regA4) ∈ k.hist.userBlocks
  signal : code = syscallSemSignal →
    (k.sem (k.context context regA1)).waitingThreads ≠ 0 →
      (k.thread (k.sem (k.context context regA1)).waitingThreads).timeLeft ≠ 0

theorem memAlloced_shade (k : Kernel) (p n : Nat) (heap : Heap) :
    (k.shade m).memAlloced p n heap = (k.memAlloced p n heap).shade m := by
  unfold Kernel.memAlloced
  split <;> rfl

theorem handleMemAlloc_shade {context : Nat} (ran : handleMemAlloc k context = .ok k') :
    handleMemAlloc (k.shade m) context = .ok (k'.shade m) := by
  unfold handleMemAlloc at ran ⊢
  obtain ⟨⟨p, k₁⟩, allocated, ran⟩ := ok_bind ran
  have ran : Except.ok ((k₁.memAlloced p (k.context context regA1) k₁.heap).setContext context
    regA0 p) = Except.ok k' := ran
  cases ran
  show (k.shade m).alloc (k.context context regA1) >>= _ = _
  rw [alloc_shade allocated]
  show Except.ok (((k₁.shade m).memAlloced p (k.context context regA1) k₁.heap).setContext context
    regA0 p) = _
  rw [memAlloced_shade]
  rfl

theorem handleThreadCreate_shade {context : Nat}
    (ran : handleThreadCreate k context = .ok k')
    (stack : stackBlock (k.context context regA4) ∈ k.hist.userBlocks)
    (free : ∀ x, k.Readies k' x → m.Free x) :
    handleThreadCreate (k.shade m) context = .ok (k'.shade m) := by
  unfold handleThreadCreate at ran ⊢
  obtain ⟨⟨r, k₁⟩, created, ran⟩ := ok_bind ran
  cases ran
  have shaded := threadCreate_shade created stack free
  show threadCreate (k.shade m) (k.context context regA1) (k.context context regA2)
    (k.context context regA3) (k.context context regA4) .user >>= _ = _
  rw [shaded]
  rfl

theorem handleSemOpen_shade {context : Nat} (ran : handleSemOpen k context = .ok k') :
    handleSemOpen (k.shade m) context = .ok (k'.shade m) := by
  unfold handleSemOpen at ran ⊢
  obtain ⟨⟨r, k₁⟩, opened, ran⟩ := ok_bind ran
  cases ran
  have shaded := semOpen_shade (m := m) opened
  show semOpen (k.shade m) (k.context context regA1) (k.context context regA2 % 2 ^ 32) >>= _ = _
  rw [shaded]
  rfl

theorem handleSemClose_shade {context : Nat}
    (ran : handleSemClose k context = .ok k')
    (free : ∀ x, k.Readies k' x → m.Free x) :
    handleSemClose (k.shade m) context = .ok (k'.shade m) := by
  unfold handleSemClose at ran ⊢
  obtain ⟨⟨r, k₁⟩, closed, ran⟩ := ok_bind ran
  cases ran
  have shaded := semClose_shade closed free
  show semClose (k.shade m) (k.context context regA1) >>= _ = _
  rw [shaded]
  rfl

theorem handleSemWait_shade (k : Kernel) (context : Nat) :
    handleSemWait (k.shade m) context = (handleSemWait k context).shade m := by
  unfold handleSemWait
  have waited := semWait_shade (m := m) k (k.context context regA1)
  have arg : (k.shade m).context context regA1 = k.context context regA1 := rfl
  rw [arg, waited]
  dsimp only
  split <;> rfl

theorem handleSemSignal_shade {context : Nat}
    (ran : handleSemSignal k context = .ok k')
    (lasting : (k.sem (k.context context regA1)).waitingThreads ≠ 0 →
      (k.thread (k.sem (k.context context regA1)).waitingThreads).timeLeft ≠ 0)
    (free : ∀ x, k.Readies k' x → m.Free x) :
    handleSemSignal (k.shade m) context = .ok (k'.shade m) := by
  unfold handleSemSignal at ran ⊢
  obtain ⟨⟨r, k₁⟩, signalled, ran⟩ := ok_bind ran
  cases ran
  have shaded := semSignal_shade signalled lasting free
  show semSignal (k.shade m) (k.context context regA1) >>= _ = _
  rw [shaded]
  rfl

theorem handleTimedSleep_zero {context : Nat} (zero : k.context context regA1 = 0) :
    handleTimedSleep k context = .ok (k.setContext context regA0 0) := by
  unfold handleTimedSleep
  exact if_pos zero

/-- **System calls.** -/
theorem handleSyscall_shade {context code : Nat}
    (ran : handleSyscall k context code = .ok k') (spares : m.Spares k context code)
    (free : ∀ x, k.Readies k' x → m.Free x) :
    handleSyscall (k.shade m) context code = .ok (k'.shade m) := by
  by_cases known : code ∈ syscallCodes
  case neg =>
    rw [handleSyscall_unknown known] at ran ⊢
    cases ran
    rfl
  simp only [syscallCodes, List.mem_cons, List.not_mem_nil, or_false] at known
  rcases known with rfl | rfl | rfl | rfl | rfl | rfl | rfl | rfl | rfl | rfl | rfl | rfl
  · exact handleMemAlloc_shade (m := m) ran
  · cases ran
    exact congrArg Except.ok (getc_shade k)
  · cases ran
    exact congrArg Except.ok (handlePutc_shade free)
  · exact handleThreadCreate_shade (m := m) ran (spares.create rfl) free
  · exact threadExit_shade (m := m) ran
  · cases ran
    exact congrArg Except.ok (dispatch_shade k (free _ (.last (dispatch_pushed k)))).symm
  · exact handleSemOpen_shade (m := m) ran
  · exact handleSemClose_shade (m := m) ran free
  · cases ran
    exact congrArg Except.ok (handleSemWait_shade k context)
  · exact handleSemSignal_shade (m := m) ran (spares.signal rfl) free
  · exact absurd rfl spares.timedWait
  · have zero := spares.sleep rfl
    have ran : handleTimedSleep k context = .ok k' := ran
    rw [handleTimedSleep_zero zero] at ran
    cases ran
    exact handleTimedSleep_zero (k := k.shade m) zero

/-! ## Traps -/

theorem irqHandler_shade {plic : Int} (ran : irqHandler plic k = .ok k')
    (timer : k.hart.scause ≠ irqTimer)
    (spares : k.hart.scause = irqEcallUser →
      m.Spares (bumpSepc k 4) k.hart.sscratch (k.context k.hart.sscratch regA0))
    (free : ∀ x, k.Readies k' x → m.Free x) :
    irqHandler plic (k.shade m) = .ok (k'.shade m) := by
  have cause : (k.shade m).hart = k.hart := rfl
  unfold irqHandler at ran ⊢
  rw [cause]
  rw [if_neg timer] at ran ⊢
  split at ran
  · next h =>
    obtain rfl := Except.ok.inj ran
    rw [if_pos h, handleHw_shade free]
  next notHw =>
  split at ran
  · cases ran
  next notOp =>
  split at ran
  · cases ran
  next notRead =>
  split at ran
  · cases ran
  next notWrite =>
  rw [if_neg notHw, if_neg notOp, if_neg notRead, if_neg notWrite]
  split at ran
  · next user =>
    have ran : handleSyscall (bumpSepc k 4) k.hart.sscratch (k.context k.hart.sscratch regA0) =
      .ok k' := ran
    have shaded := handleSyscall_shade ran (spares user) free
    rw [if_pos user]
    exact shaded
  next notUser =>
  rw [if_neg notUser]
  split at ran
  · next kernel =>
    obtain rfl := Except.ok.inj ran
    rw [if_pos kernel, handleEcallKernel_shade]
  · next other =>
    obtain rfl := Except.ok.inj ran
    rw [if_neg other]

/-- **Traps.** A trap that looks neither at the sleeping list nor at a slice that `m` changes does
the same with the shade. -/
theorem trap_shade {tr : Trap} (taken : trap k tr = .ok k') (timer : tr.scause ≠ irqTimer)
    (spares : tr.scause = irqEcallUser →
      m.Spares (bumpSepc (enter k tr) 4) tr.frame (tr.regs regA0))
    (free : ∀ x, k.Readies k' x → m.Free x) : trap (k.shade m) tr = .ok (k'.shade m) := by
  unfold trap at taken ⊢
  obtain ⟨k₁, ran, done⟩ := ok_bind taken
  cases done
  have code : (enter k tr).context tr.frame regA0 = tr.regs regA0 :=
    enter_arg k tr (by decide) (by decide)
  have shaded := irqHandler_shade (m := m) ran timer (fun user => by
    show m.Spares _ tr.frame ((enter k tr).context tr.frame regA0)
    rw [code]
    exact spares user) free
  show irqHandler tr.plic ((enter k tr).shade m) >>= _ = _
  rw [shaded]
  rfl

end

end RiscvKernel
