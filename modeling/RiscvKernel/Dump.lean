import RiscvKernel.Conservation
import RiscvKernel.Registry
import RiscvKernel.Shutdown
import RiscvKernel.Tags

/-!
# What the kernel prints about itself

* `readDump`: the chunks that the text of `__mem_print` stands for;
* `dump_shows_heap`: in every run it is the heap, block by block;
* `ringLoop`: the loop with which the kernel prints a ring;
* `scheduler_printed`, `semaphores_printed`: the lists that are printed are the queues.
-/

namespace RiscvKernel
open Function Intrusive Placement Tiling

/-! ## The index -/

/-- The numbers of a text up to the end of the line, each with a blank after it; `word` are the
characters of the first one that have been read. -/
def readNumbers : List UInt8 → List UInt8 → List Int
  | _, [] => []
  | word, ch :: text =>
    if ch = 10 then []
    else if ch = 32 then readInt word :: readNumbers [] text
    else readNumbers (word ++ [ch]) text

/-- The chunks of a heap that has been printed. -/
def readDump (text : List UInt8) : Option (List Chunk) := ofTags (readNumbers [] text)

/-- A number and a blank. -/
def wordOf (v : Int) : List UInt8 := ascii (toString v) ++ ascii " "

theorem ascii_toString_ge (x : Int) : ∀ ch ∈ ascii (toString x), 45 ≤ ch.toNat := by
  have digits : ∀ n : Nat, ∀ ch ∈ ascii (toString n), 45 ≤ ch.toNat := by
    intro n ch hch
    unfold ascii at hch
    rw [Nat.toString_eq_repr, Nat.toList_repr] at hch
    obtain ⟨d, hd, rfl⟩ := List.mem_map.mp hch
    have digit := Nat.isDigit_of_mem_toDigits (by decide) (by decide) hd
    simp only [Char.isDigit, Bool.and_eq_true, decide_eq_true_eq] at digit
    have lo : 48 ≤ d.toNat := digit.1
    have hi : d.toNat ≤ 57 := digit.2
    rw [UInt8.toNat_ofNat']
    omega
  intro ch hch
  by_cases neg : x < 0
  · rw [ascii_neg neg] at hch
    rcases List.mem_cons.mp hch with rfl | hch
    · decide
    · exact digits _ ch hch
  · rw [toString_nonneg (by omega)] at hch
    exact digits _ ch hch

theorem readNumbers_word {w : List UInt8} (plain : ∀ ch ∈ w, 45 ≤ ch.toNat)
    (word text : List UInt8) :
    readNumbers word (w ++ ascii " " ++ text) = readInt (word ++ w) :: readNumbers [] text := by
  induction w generalizing word with
  | nil =>
    rw [List.append_nil]
    rfl
  | cons ch w ih =>
    have big := plain ch List.mem_cons_self
    have line : ch ≠ 10 := by
      rintro rfl
      exact absurd big (by decide)
    have blank : ch ≠ 32 := by
      rintro rfl
      exact absurd big (by decide)
    have next : readNumbers word (ch :: w ++ ascii " " ++ text) =
        readNumbers (word ++ [ch]) (w ++ ascii " " ++ text) := by
      show (if ch = 10 then _ else if ch = 32 then _ else _) = _
      rw [if_neg line, if_neg blank]
      rfl
    rw [next, ih (fun c hc => plain c (List.mem_cons_of_mem ch hc)), List.append_assoc]
    rfl

theorem readNumbers_words (vs : List Int) :
    readNumbers [] (vs.flatMap wordOf ++ ascii "\n") = vs := by
  induction vs with
  | nil => rfl
  | cons v vs ih =>
    unfold wordOf at ih ⊢
    rw [List.flatMap_cons, List.append_assoc, readNumbers_word (ascii_toString_ge v),
      List.nil_append, readInt_toString, ih]

section
variable {h : Heap} {live : Multiset (Nat × Nat)}

theorem Heap.Holds.cellText (holds : h.Holds live) {i : Nat} (hi : i < h.nMemBlocks) :
    h.cellText i = if h.memIndex i ≠ 0 then wordOf (h.memIndex i) else [] := by
  obtain ⟨cs, tiles, -, -⟩ := holds.tiled
  have small := tiles.natAbs_le (Nat.zero_le i) hi
  have bound := holds.ok.bound
  have same : (Int32.ofInt (h.memIndex i)).toInt = h.memIndex i := by
    apply Int32.toInt_ofInt_of_le
    · omega
    · omega
  unfold Heap.cellText wordOf
  rw [same]

theorem flatMap_filter (m : Nat → Int) (f : Int → List UInt8) (is : List Nat) :
    (is.flatMap fun i => if m i ≠ 0 then f (m i) else []) =
      ((is.map m).filter (· ≠ 0)).flatMap f := by
  induction is with
  | nil => rfl
  | cons i is ih =>
    rw [List.flatMap_cons, ih, List.map_cons, List.filter_cons]
    by_cases zero : m i = 0
    · simp [zero]
    · simp [zero]

theorem Heap.Holds.indexText (holds : h.Holds live) :
    h.indexText = (nonzero h.memIndex 0 h.nMemBlocks).flatMap wordOf ++ ascii "\n" := by
  have cells : (List.range h.nMemBlocks).flatMap h.cellText =
      (List.range h.nMemBlocks).flatMap fun i =>
        if h.memIndex i ≠ 0 then wordOf (h.memIndex i) else [] := by
    apply List.flatMap_congr
    intro i hi
    exact holds.cellText (List.mem_range.mp hi)
  unfold Heap.indexText nonzero
  rw [cells, flatMap_filter, List.range_eq_range']

/-- **The dump.** -/
theorem Heap.Holds.dump (holds : h.Holds live) : ∃ text cs, memPrint h = .ok text ∧
    readDump text = some cs ∧ Tiles h.memIndex 0 cs h.nMemBlocks ∧
    h.runs cs = (h.blockAddr 0, h.memIndexLenInBlocks) ::ₘ live := by
  obtain ⟨cs, tiles, -, runs⟩ := holds.tiled
  refine ⟨h.indexText, cs, memPrint_run h, ?_, tiles, runs⟩
  have tags := tiles.nonzero
  rw [Nat.sub_zero] at tags
  unfold readDump
  rw [holds.indexText, readNumbers_words, tags, ofTags_tags tiles.sizes_pos]

end

/-- **The heap, printed.** In every run `__mem_print` prints a text from which the whole heap can
be read, and what is used of it is the index and the blocks of the kernel and its users. -/
theorem dump_shows_heap {k₀ k : Kernel} (run : Run anyTrap k₀ k) : ∃ text cs recs,
    memPrint k.heap = .ok text ∧ readDump text = some cs ∧
    Tiles k.heap.memIndex 0 cs k.heap.nMemBlocks ∧
    IsRing k.sleepLinks k.scheduler.sleepingThreads recs ∧
    k.heap.runs cs = (k.heap.blockAddr 0, k.heap.memIndexLenInBlocks) ::ₘ k.view.owned recs := by
  obtain ⟨b, recs, rest⟩ := run_rest run
  obtain ⟨text, cs, printed, read, tiles, runs⟩ := rest.inv.owns.dump
  exact ⟨text, cs, recs, printed, read, tiles, rest.places.sleepers, runs⟩

theorem dump_shows_heap_small : ∃ k text cs, boot smallKernel = .ok k ∧
    memPrint k.heap = .ok text ∧ readDump text = some cs ∧
    Tiles k.heap.memIndex 0 cs k.heap.nMemBlocks := by
  obtain ⟨k, k', booted, -, -, run, -⟩ := small_run anyTrap fun _ _ _ => trivial
  obtain ⟨text, cs, recs, printed, read, tiles, -⟩ := dump_shows_heap run
  exact ⟨k, text, cs, booted, printed, read, tiles⟩

/-! ## Rings -/

/-- `__print_mem` -/
def printMem (msg : String) (mem : Nat) : Except PrintFault (List UInt8) := do
  let decimal ← printU64 (.ofNat mem)
  let hexadecimal ← printH64 (.ofNat mem)
  return ascii msg ++ ascii ": " ++ decimal ++ ascii " : " ++ hexadecimal ++ ascii "\n"

/-- `do ... node = node->next; while(node != head)`, for at most `fuel` rounds. -/
def ringLoop (l : Links) (line : Nat → Except PrintFault (List UInt8)) (head : Nat) :
    Nat → Nat → Except PrintFault (List UInt8)
  | 0, _ => throw .stuck
  | fuel + 1, node => do
    let text ← line node
    let node := l.next node
    if node ≠ head then
      return text ++ (← ringLoop l line head fuel node)
    else
      return text

/-- The ring at `head` with a title, as all functions print it. -/
def printRing (l : Links) (title : String) (line : Nat → Except PrintFault (List UInt8))
    (fuel head : Nat) : Except PrintFault (List UInt8) := do
  if head = 0 then
    return ascii title ++ ascii " empty\n"
  let text ← ringLoop l line head fuel head
  return ascii title ++ ascii ":\n" ++ text ++ ascii title ++ ascii " over\n"

/-- `__scheduler_queue_print` -/
def schedulerQueuePrint (k : Kernel) : Except PrintFault (List UInt8) :=
  printRing k.links "Scheduler thread list" (printMem "Thread") (k.heap.nMemBlocks + 1)
    k.scheduler.readyThreads

/-- `__scheduler_blocked_print` -/
def schedulerBlockedPrint (k : Kernel) : Except PrintFault (List UInt8) :=
  printRing k.sleepLinks "Scheduler blocked thread list"
    (fun r => do return (← printMem "Thread" r) ++ (← printMem "Time delta" (k.sleeping r).delta))
    (k.heap.nMemBlocks + 1) k.scheduler.sleepingThreads

/-- The waiting ring of a semaphore, as `__sem_all_print` and `__sem_first_print` print it. -/
def printWaiting (k : Kernel) (semaphore : Nat) : Except PrintFault (List UInt8) :=
  printRing k.links "Semaphore waiting thread list" (printMem "Thread") (k.heap.nMemBlocks + 1)
    (k.sem semaphore).waitingThreads

/-- `__sem_first_print` -/
def semFirstPrint (k : Kernel) : Except PrintFault (List UInt8) :=
  if k.semTable.firstSemaphore = 0 then return ascii "No semaphores yet\n"
  else printWaiting k k.semTable.firstSemaphore

/-- The first `n` rounds of the loop of `__sem_all_print`. -/
def semAllPrintLoop (k : Kernel) : Nat → Except PrintFault (List UInt8)
  | 0 => return []
  | i + 1 => do
    let before ← semAllPrintLoop k i
    let semaphore := k.semTable.semaphores i
    let number ← printU64 (.ofNat i)
    let val ← printI32 (.ofInt (k.sem semaphore).val)
    let waiting ← printWaiting k semaphore
    return before ++ ascii "Semaphore " ++ number ++ ascii " " ++ val ++ ascii "\n" ++ waiting

/-- `__sem_all_print` -/
def semAllPrint (k : Kernel) : Except PrintFault (List UInt8) := do
  let count ← printMem "Semaphore count" k.semTable.semCnt
  return count ++ (← semAllPrintLoop k k.semTable.semCnt)

/-! ## The texts -/

/-- A line of `__print_mem`. -/
def memText (msg : String) (mem : Nat) : List UInt8 :=
  ascii msg ++ ascii ": " ++ ascii (toString (UInt64.ofNat mem).toNat) ++ ascii " : " ++
    (Positional.places 16 16 (UInt64.ofNat mem).toNat).map hexDigit ++ ascii "\n"

/-- A list with a title. -/
def listText (title : String) (line : Nat → List UInt8) : List Nat → List UInt8
  | [] => ascii title ++ ascii " empty\n"
  | x :: xs => ascii title ++ ascii ":\n" ++ (x :: xs).flatMap line ++ ascii title ++
    ascii " over\n"

/-- The part of `__sem_all_print` for the semaphore `s` in slot `i`, with the threads `waiting`. -/
def semText (i : Nat) (s : Sem) (waiting : List Nat) : List UInt8 :=
  ascii "Semaphore " ++ ascii (toString (UInt64.ofNat i).toNat) ++ ascii " " ++
    ascii (toString (Int32.ofInt s.val).toInt) ++ ascii "\n" ++
    listText "Semaphore waiting thread list" (memText "Thread") waiting

theorem printMem_run (msg : String) (mem : Nat) : printMem msg mem = .ok (memText msg mem) := by
  have hexadecimal : printH64 (.ofNat mem) =
      .ok ((Positional.places 16 16 (UInt64.ofNat mem).toNat).map hexDigit) :=
    putHex_run (n := 15) (by decide) (UInt64.ofNat mem).toNat_lt
  unfold printMem
  rw [printU64_run, hexadecimal]
  rfl

section
variable {l : Links} {head : Nat} {line : Nat → Except PrintFault (List UInt8)}
  {text : Nat → List UInt8}

theorem ringLoop_run (prints : ∀ x, line x = .ok (text x)) {x : Nat} {xs : List Nat} {fuel : Nat}
    (enough : xs.length < fuel) (chain : Chain l head (x :: xs)) (out : head ∉ xs) :
    ringLoop l line head fuel x = .ok ((x :: xs).flatMap text) := by
  induction xs generalizing x fuel with
  | nil =>
    obtain ⟨fuel, rfl⟩ : ∃ f, fuel = f + 1 := ⟨fuel - 1, by omega⟩
    have last : l.next x = head := chain.1
    rw [ringLoop, prints, last]
    show (if head ≠ head then _ else _) = _
    rw [if_neg (not_not.mpr rfl), List.flatMap_singleton]
    rfl
  | cons y ys ih =>
    obtain ⟨fuel, rfl⟩ : ∃ f, fuel = f + 1 := ⟨fuel - 1, by omega⟩
    have next : l.next x = y := chain.1
    have more : y ≠ head := fun h => out (h ▸ List.mem_cons_self)
    have fewer : ys.length < fuel := Nat.lt_of_succ_lt_succ enough
    have rest := ih fewer chain.2 fun h => out (List.mem_cons_of_mem y h)
    rw [ringLoop, prints, next]
    show (if y ≠ head then _ else _) = _
    rw [if_pos more, rest, List.flatMap_cons]
    rfl

/-- **Rings.** The members of a ring are printed once each, in order. -/
theorem printRing_run (prints : ∀ x, line x = .ok (text x)) {xs : List Nat} {fuel : Nat}
    (enough : xs.length < fuel) (ring : IsRing l head xs) (title : String) :
    printRing l title line fuel head = .ok (listText title text xs) := by
  cases xs with
  | nil =>
    have empty : head = 0 := ring
    unfold printRing
    rw [if_pos empty]
    rfl
  | cons x xs =>
    have chain := ring.chain
    obtain ⟨rfl, -, nodup, nonzero⟩ := ring
    have some : head ≠ 0 := fun h => nonzero (h ▸ List.mem_cons_self)
    have loop := ringLoop_run prints (Nat.lt_of_succ_lt enough) chain (List.nodup_cons.mp nodup).1
    unfold printRing
    rw [if_neg some, loop]
    rfl

end

section
variable {k : Kernel} {b : Threads} {recs : List Nat}

theorem Kernel.Inv.queue_lt (inv : k.Inv b recs) (i : QueueId) :
    (b.queue i).length < k.heap.nMemBlocks + 1 := by
  have known : b.queue i ⊆ k.scheduler.kernelMain :: k.hist.live := by
    intro t ht
    have loc := b.mem_queue.mp ht
    rcases inv.places.known (t := t) (by rw [loc]; simp) with live | rfl
    · exact List.mem_cons_of_mem _ live
    · exact List.mem_cons_self
  have short := ((b.nodup i).subperm known).length_le
  have card := inv.owns.card_le
  simp only [View.owned, View.kept, Multiset.card_add, Multiset.card_map, Multiset.coe_card] at card
  have live : k.view.live.length = k.hist.live.length := rfl
  have boot : k.view.boot.length = 5 := rfl
  rw [List.length_cons] at short
  omega

theorem Kernel.Inv.sleepers_lt (inv : k.Inv b recs) : recs.length < k.heap.nMemBlocks + 1 := by
  have card := inv.owns.card_le
  have records : (recordBlocks recs).card = recs.length := by simp [recordBlocks]
  simp only [View.owned, Multiset.card_add] at card
  omega

theorem printWaiting_run (inv : k.Inv b recs) {s : Nat} (opened : s ∈ k.hist.opened) :
    printWaiting k s = .ok (listText "Semaphore waiting thread list" (memText "Thread")
      (b.queue (.sem s))) :=
  printRing_run (printMem_run "Thread") (inv.queue_lt _) (inv.places.rings.ring (.sem s) opened) _

theorem semAllPrintLoop_run (inv : k.Inv b recs) {n : Nat}
    (opened : ∀ i, i < n → k.semTable.semaphores i ∈ k.hist.opened) :
    semAllPrintLoop k n = .ok ((List.range n).flatMap fun i =>
      semText i (k.sem (k.semTable.semaphores i)) (b.queue (.sem (k.semTable.semaphores i)))) := by
  induction n with
  | zero => rfl
  | succ n ih =>
    have before := ih fun i hi => opened i (Nat.lt_succ_of_lt hi)
    have waiting := printWaiting_run inv (opened n (Nat.lt_succ_self n))
    rw [semAllPrintLoop, before, List.range_succ, List.flatMap_append, List.flatMap_singleton]
    dsimp only
    rw [printU64_run, printI32_run, waiting]
    simp only [semText, ← List.append_assoc]
    rfl

end

/-- **The lists of the scheduler.** In every run they are printed whole, in order, and once. -/
theorem scheduler_printed {k₀ k : Kernel} (run : Run anyTrap k₀ k) : ∃ q recs, k.Queues q ∧
    IsRing k.sleepLinks k.scheduler.sleepingThreads recs ∧
    schedulerQueuePrint k = .ok (listText "Scheduler thread list" (memText "Thread") (q .ready)) ∧
    schedulerBlockedPrint k = .ok (listText "Scheduler blocked thread list"
      (fun r => memText "Thread" r ++ memText "Time delta" (k.sleeping r).delta) recs) := by
  obtain ⟨b, recs, rest⟩ := run_rest run
  refine ⟨b.queue, recs, rest.inv.queues, rest.places.sleepers, ?_, ?_⟩
  · exact printRing_run (printMem_run "Thread") (rest.inv.queue_lt _)
      (rest.places.rings.ring .ready trivial) _
  · apply printRing_run
    · intro r
      rw [printMem_run, printMem_run]
      rfl
    · exact rest.inv.sleepers_lt
    · exact rest.places.sleepers

/-- While a thread waits for a semaphore and another one sleeps, the record of the one that
sleeps is printed; before that, the one that was ready. -/
theorem scheduler_printed_small : ∃ k k' q r, Run anyTrap roomyKernel k ∧
    schedulerQueuePrint k = .ok (listText "Scheduler thread list" (memText "Thread") [q]) ∧
    Run anyTrap roomyKernel k' ∧
    schedulerQueuePrint k' = .ok (listText "Scheduler thread list" (memText "Thread") []) ∧
    schedulerBlockedPrint k' = .ok (listText "Scheduler blocked thread list"
      (fun r => memText "Thread" r ++ memText "Time delta" (k'.sleeping r).delta) [r]) ∧
    (k'.sleeping r).delta = 3 := by
  obtain ⟨k, b, p, q, s, two, run⟩ := two_users anyTrap fun _ _ _ => trivial
  obtain ⟨queue, recs, queues, -, printed, -⟩ := scheduler_printed run
  obtain rfl := two.rest.inv.queues_eq queues
  obtain ⟨k', b', p', q', s', r, sleeps, run'⟩ := one_sleeps
  obtain ⟨queue', recs', queues', ring, printed', blocked⟩ := scheduler_printed run'
  obtain rfl := sleeps.rest.inv.queues_eq queues'
  obtain rfl := ring.unique sleeps.rest.places.sleepers
  have ready : b.queue .ready = [q] := by simp [two.queue]
  have nobody : b'.queue .ready = [] := by simp [sleeps.queue]
  rw [ready] at printed
  rw [nobody] at printed'
  exact ⟨k, k', q, r, run, printed, run', printed', blocked, sleeps.alarm⟩

/-- **The lists of the semaphores** are printed whole as long as the table of semaphores is
right. -/
theorem semaphores_printed {k₀ k : Kernel}
    (unused : k₀.semTable.semCnt = 0 ∧ k₀.semTable.firstSemaphore = 0)
    (run : Run RegistrySafe k₀ k) : ∃ q, k.Queues q ∧
    semFirstPrint k = .ok (if k.semTable.firstSemaphore = 0 then ascii "No semaphores yet\n"
      else listText "Semaphore waiting thread list" (memText "Thread")
        (q (.sem k.semTable.firstSemaphore))) ∧
    semAllPrint k = .ok (memText "Semaphore count" k.semTable.semCnt ++
      (List.range k.semTable.semCnt).flatMap fun i =>
        semText i (k.sem (k.semTable.semaphores i)) (q (.sem (k.semTable.semaphores i)))) := by
  obtain ⟨b, recs, rest⟩ := run_rest run
  obtain ⟨-, listed, -, first⟩ := run_registry unused run
  refine ⟨b.queue, rest.inv.queues, ?_, ?_⟩
  · unfold semFirstPrint
    split
    · rfl
    · next some => exact printWaiting_run rest.inv (first some)
  · have loop := semAllPrintLoop_run rest.inv (n := k.semTable.semCnt) fun i hi =>
      (listed _).mp (List.mem_map.mpr ⟨i, List.mem_range.mpr hi, rfl⟩)
    unfold semAllPrint
    rw [printMem_run, loop]
    rfl

theorem semaphores_printed_small : ∃ (k : Kernel) (s s' : Nat) (q : QueueId → List Nat),
    k.hist.opened = [s, s'] ∧ k.Queues q ∧
    semAllPrint k = .ok (memText "Semaphore count" k.semTable.semCnt ++
      (List.range k.semTable.semCnt).flatMap fun i =>
        semText i (k.sem (k.semTable.semaphores i)) (q (.sem (k.semTable.semaphores i)))) := by
  obtain ⟨k, b, p, user, length, run⟩ := registry_opens 2 (by decide)
  obtain ⟨s, s', opened⟩ := List.length_eq_two.mp length
  obtain ⟨q, queues, -, printed⟩ := semaphores_printed ⟨rfl, rfl⟩ run
  exact ⟨k, s, s', q, opened, queues, printed⟩

end RiscvKernel
