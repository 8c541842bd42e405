import RiscvKernel.Backlog
import RiscvKernel.ConsoleFifo
import RiscvKernel.HeapRuns
import RiscvKernel.Print

/-!
# Shutting down (`kernel.c`)

`__stop` sends once and writes the shutdown word; `__panic` prints the index and
its message before. The printing functions ignore the result of `__putc`.

* `send_backlog`, `putc_backlog`, `print_backlog`: the console, seen as a backlog;
* `print_order`: what is accepted goes out in order;
* `shutdown_loses_nothing_iff`: when all of it is out at the shutdown write.
-/

namespace RiscvKernel

/-! ## `__mem_print` -/

/-- The first `n` rounds of the loop of `__mem_print`. -/
def memPrintLoop (h : Heap) : Nat → Except PrintFault (List UInt8)
  | 0 => return []
  | i + 1 => do
    let before ← memPrintLoop h i
    if h.memIndex i ≠ 0 then
      return before ++ (← printI32 (.ofInt (h.memIndex i))) ++ ascii " "
    else
      return before

/-- The characters of `__mem_print`. -/
def memPrint (h : Heap) : Except PrintFault (List UInt8) := do
  return (← memPrintLoop h h.nMemBlocks) ++ ascii "\n"

/-- A cell of the index, as it is printed. -/
def Heap.cellText (h : Heap) (i : Nat) : List UInt8 :=
  if h.memIndex i ≠ 0 then ascii (toString (Int32.ofInt (h.memIndex i)).toInt) ++ ascii " " else []

/-- The index, as it is printed. -/
def Heap.indexText (h : Heap) : List UInt8 :=
  (List.range h.nMemBlocks).flatMap h.cellText ++ ascii "\n"

theorem memPrint_run (h : Heap) : memPrint h = .ok h.indexText := by
  have loop : ∀ n, memPrintLoop h n = .ok ((List.range n).flatMap h.cellText) := by
    intro n
    induction n with
    | zero => rfl
    | succ n ih =>
      rw [memPrintLoop, ih, List.range_succ, List.flatMap_append, List.flatMap_singleton]
      by_cases nonzero : h.memIndex n ≠ 0
      · rw [Heap.cellText, if_pos nonzero, ← List.append_assoc]
        show (if h.memIndex n ≠ 0 then _ else _) = _
        rw [if_pos nonzero, printI32_run]
        rfl
      · rw [Heap.cellText, if_neg nonzero, List.append_nil]
        exact if_neg nonzero
  unfold memPrint
  rw [loop]
  rfl

namespace Console

/-! ## `__print_str`, `__stop` and `__panic` -/

/-- The calls `__putc(*(str++))`: the characters that are accepted, and the console. -/
def print : List UInt8 → Console → List UInt8 × Console
  | [], c => ([], c)
  | ch :: cs, c =>
    let put := c.putc ch
    let rest := print cs put.2
    if put.1 = 0 then (ch :: rest.1, rest.2) else rest

/-- `__stop`: the console at the shutdown write. -/
def stop (c : Console) : Console := c.send

abbrev kernelPanic : List UInt8 := ascii "KERNEL PANIC!\n"

/-- `__panic`: what is accepted of the index, and the console at the shutdown write. -/
def panic (c : Console) (index msg : List UInt8) : List UInt8 × Console :=
  let dumped := c.send.print index
  let said := (dumped.2.print kernelPanic).2.print msg
  (dumped.1, said.2.stop)

/-- What `__putc` accepted before `__stop` is out at the shutdown write. -/
def StopFlushes (c : Console) : Prop :=
  c.stop.device.transmitted = c.device.transmitted ++ c.unsent

/-- What `__putc` accepted before and during `__panic` is out at the shutdown write, and all of
the message is. -/
def PanicFlushes (c : Console) (h : Heap) (msg : List UInt8) : Prop :=
  ∃ index, memPrint h = .ok index ∧ (c.panic index msg).2.device.transmitted =
    c.device.transmitted ++ c.unsent ++ (c.panic index msg).1 ++ kernelPanic ++ msg

/-! ## The backlog of the console -/

/-- Whether the `n`-th read of `CONSOLE_STATUS` finds the device ready to send. -/
def ready (c : Console) (n : Nat) : Bool := c.device.status n &&& consoleStatusSend ≠ 0

def backlog (c : Console) : Backlog := ⟨c.sendCnt, c.device.statusReads⟩

/-- `c'` is `c` later on: the device is the same, and `b` waits for it. -/
structure Later (c c' : Console) (b : Backlog) : Prop where
  ready : c'.ready = c.ready
  backlog : c'.backlog = b

theorem sendLoop_later (left bytesSent : Nat) (c : Console) :
    (sendLoop left bytesSent c).1 =
        bytesSent + Backlog.burst c.ready left c.device.statusReads ∧
      c.Later (sendLoop left bytesSent c).2 ⟨c.sendCnt,
        c.device.statusReads + Backlog.burst c.ready left c.device.statusReads + 1⟩ := by
  induction left generalizing bytesSent c with
  | zero => exact ⟨rfl, rfl, rfl⟩
  | succ left ih =>
    unfold sendLoop Backlog.burst
    by_cases now : c.status &&& consoleStatusSend ≠ 0
    · have here : c.ready c.device.statusReads = true := decide_eq_true now
      obtain ⟨count, later⟩ := ih (bytesSent + 1) (c.statusRead.sendByte bytesSent)
      rw [if_pos now, if_pos here]
      refine ⟨count.trans ?_, later.ready, later.backlog.trans ?_⟩
      · show bytesSent + 1 + Backlog.burst c.ready left (c.device.statusReads + 1) = _
        omega
      · show Backlog.mk c.sendCnt (c.device.statusReads + 1 +
          Backlog.burst c.ready left (c.device.statusReads + 1) + 1) = _
        congr 1
        omega
    · have here : ¬ c.ready c.device.statusReads = true := by simpa [ready, status] using now
      rw [if_neg now, if_neg here]
      exact ⟨rfl, rfl, rfl⟩

theorem send_later (c : Console) : c.Later c.send (c.backlog.flush c.ready) := by
  obtain ⟨count, later⟩ := sendLoop_later c.sendCnt 0 c
  have pending : (sendLoop c.sendCnt 0 c).2.sendCnt = c.sendCnt :=
    congrArg Backlog.pending later.backlog
  have polls : (sendLoop c.sendCnt 0 c).2.device.statusReads = _ :=
    congrArg Backlog.polls later.backlog
  refine ⟨later.ready, ?_⟩
  show Backlog.mk ((sendLoop c.sendCnt 0 c).2.sendCnt - (sendLoop c.sendCnt 0 c).1)
    (sendLoop c.sendCnt 0 c).2.device.statusReads = _
  rw [pending, count, polls, Nat.zero_add]
  rfl

theorem append_later {c c' : Console} {b : Backlog} (later : c.Later c' b) (ch : UInt8) :
    c.Later (c'.append ch) b.add :=
  ⟨later.ready, by rw [← later.backlog]; rfl⟩

theorem Later.send {c c' : Console} {b : Backlog} (later : c.Later c' b) :
    c.Later c'.send (b.flush c.ready) := by
  have sent := send_later c'
  rw [later.ready, later.backlog] at sent
  exact ⟨sent.ready.trans later.ready, sent.backlog⟩

/-- A `putc` is refused when its backlog is. -/
theorem Later.putc {c c' : Console} {b : Backlog} (later : c.Later c' b) (ch : UInt8) :
    ((c'.putc ch).1 = 0 ↔ ¬ b.Refuses c.ready consoleBufferSize) ∧
      c.Later (c'.putc ch).2 (b.put c.ready consoleBufferSize) := by
  have pending : c'.sendCnt = b.pending := congrArg Backlog.pending later.backlog
  have sent := later.send
  have left : c'.send.sendCnt = (b.flush c.ready).pending :=
    congrArg Backlog.pending sent.backlog
  unfold Console.putc Backlog.put
  by_cases full : b.pending = consoleBufferSize
  · rw [if_pos (pending.trans full)]
    by_cases still : (b.flush c.ready).pending = consoleBufferSize
    · have refuses : b.Refuses c.ready consoleBufferSize := ⟨full, still⟩
      rw [if_pos (left.trans still), if_pos refuses]
      exact ⟨⟨fun h => absurd h (show consoleSendBufferFull ≠ 0 by decide),
        fun h => absurd refuses h⟩, sent⟩
    · have takes : ¬ b.Refuses c.ready consoleBufferSize := fun h => still h.2
      rw [if_neg (by rwa [left]), if_neg takes, if_pos full]
      exact ⟨⟨fun _ => takes, fun _ => rfl⟩, append_later sent.send ch⟩
  · have takes : ¬ b.Refuses c.ready consoleBufferSize := fun h => full h.1
    rw [if_neg (by rwa [pending]), if_neg takes, if_neg full]
    exact ⟨⟨fun _ => takes, fun _ => rfl⟩, append_later sent ch⟩

theorem Later.print {c c' : Console} {b : Backlog} (later : c.Later c' b) (cs : List UInt8) :
    ((c'.print cs).1 = cs ↔ b.Takes c.ready consoleBufferSize cs.length) ∧
      (c'.print cs).1.length ≤ cs.length ∧
      c.Later (c'.print cs).2 (b.puts c.ready consoleBufferSize cs.length) := by
  induction cs generalizing c' b with
  | nil => exact ⟨⟨fun _ => trivial, fun _ => rfl⟩, le_rfl, later⟩
  | cons ch cs ih =>
    obtain ⟨accepted, put⟩ := later.putc ch
    obtain ⟨all, len, done⟩ := ih put
    unfold Console.print
    by_cases taken : (c'.putc ch).1 = 0
    · have takes := accepted.mp taken
      dsimp only
      rw [if_pos taken]
      refine ⟨?_, Nat.succ_le_succ len, done⟩
      rw [List.cons.injEq, all]
      exact ⟨fun h => ⟨takes, h.2⟩, fun h => ⟨rfl, h.2⟩⟩
    · have refuses := accepted.not.mp taken
      dsimp only
      rw [if_neg taken]
      refine ⟨⟨fun h => ?_, fun h => absurd h.1 refuses⟩, len.trans (Nat.le_succ _), done⟩
      rw [h] at len
      exact absurd len (Nat.not_succ_le_self _)

/-! ## Order -/

/-- The characters `cs` are accepted on the way from `c` to `c'`. -/
structure Prints (c c' : Console) (cs : List UInt8) : Prop where
  order : c'.device.transmitted ++ c'.unsent = c.device.transmitted ++ c.unsent ++ cs
  room : c'.sendCnt ≤ consoleBufferSize

theorem Prints.trans {a b c : Console} {xs ys : List UInt8} (h : a.Prints b xs)
    (h' : b.Prints c ys) : a.Prints c (xs ++ ys) :=
  ⟨by rw [h'.order, h.order, List.append_assoc], h'.room⟩

theorem send_prints {c : Console} (room : c.sendCnt ≤ consoleBufferSize) : c.Prints c.send [] := by
  obtain ⟨chars, sent⟩ := send_spec c
  have cnt := sent.cnt
  exact ⟨by rw [sent.order, List.append_nil], by omega⟩

/-- What is accepted goes behind what waits, in order. -/
theorem print_order (cs : List UInt8) {c : Console} (room : c.sendCnt ≤ consoleBufferSize) :
    c.Prints (c.print cs).2 (c.print cs).1 := by
  induction cs generalizing c with
  | nil => exact ⟨(List.append_nil _).symm, room⟩
  | cons ch cs ih =>
    unfold print
    rcases putc_spec room ch with ⟨refused, -, sent⟩ | ⟨zero, accepted⟩
    · have step : c.Prints (c.putc ch).2 [] := by
        have cnt := sent.cnt
        exact ⟨by rw [sent.order, List.append_nil], by omega⟩
      dsimp only
      rw [if_neg (by rw [refused]; decide)]
      exact step.trans (ih step.room)
    · have step : c.Prints (c.putc ch).2 [ch] := ⟨accepted.order, accepted.cnt⟩
      dsimp only
      rw [if_pos zero]
      exact step.trans (ih step.room)

theorem unsent_eq_nil {c : Console} : c.unsent = [] ↔ c.backlog.pending = 0 := by
  rw [← List.length_eq_zero_iff, unsent, firsts_length]
  rfl

/-- All that waits is sent exactly when the backlog drains. -/
theorem Later.drains {c c' : Console} {b : Backlog} (later : c.Later c' b) :
    c'.send.unsent = [] ↔ b.Drains c.ready := by
  rw [unsent_eq_nil, later.send.backlog, Backlog.drains_iff]

/-- Of what is accepted behind `pre`, all of `zs` is out when nothing is refused or left. -/
theorem out_iff {out rest pre ys zs : List UInt8} (order : out ++ rest = pre ++ ys)
    (len : ys.length ≤ zs.length) : out = pre ++ zs ↔ ys = zs ∧ rest = [] := by
  constructor
  · rintro rfl
    rw [List.append_assoc] at order
    have behind := List.append_cancel_left order
    have sum := congrArg List.length behind
    rw [List.length_append] at sum
    have none : rest = [] := List.length_eq_zero_iff.mp (by omega)
    rw [none, List.append_nil] at behind
    exact ⟨behind.symm, none⟩
  · rintro ⟨rfl, rfl⟩
    rwa [List.append_nil] at order

theorem stop_flushes_iff (c : Console) : c.StopFlushes ↔ c.backlog.Drains c.ready := by
  obtain ⟨chars, sent⟩ := send_spec c
  have here : c.Later c c.backlog := ⟨rfl, rfl⟩
  have order := sent.order
  rw [← List.append_nil (c.device.transmitted ++ c.unsent)] at order
  have all : _ = _ ++ [] ↔ _ := out_iff order le_rfl
  rw [List.append_nil] at all
  rw [← here.drains]
  exact all.trans ⟨fun h => h.2, fun h => ⟨rfl, h⟩⟩

/-! ## The panic -/

/-- The backlog when `__panic` comes to its message. -/
def messageBacklog (c : Console) (h : Heap) : Backlog :=
  (c.backlog.flush c.ready).puts c.ready consoleBufferSize h.indexText.length

/-- From the backlog that the index leaves, every character of the message is taken, and the
last flush sends all that waits. -/
def PanicDrains (c : Console) (h : Heap) (msg : List UInt8) : Prop :=
  (c.messageBacklog h).Takes c.ready consoleBufferSize (kernelPanic ++ msg).length ∧
    ((c.messageBacklog h).puts c.ready consoleBufferSize (kernelPanic ++ msg).length).Drains c.ready

theorem print_append (xs ys : List UInt8) (c : Console) :
    c.print (xs ++ ys) =
      ((c.print xs).1 ++ ((c.print xs).2.print ys).1, ((c.print xs).2.print ys).2) := by
  induction xs generalizing c with
  | nil => rfl
  | cons x xs ih =>
    rw [List.cons_append, print, print, ih]
    dsimp only
    split
    · rfl
    · rfl

/-- The console at the last flush of `__panic`. -/
theorem panic_eq (c : Console) (index msg : List UInt8) : c.panic index msg =
    ((c.send.print index).1, ((c.send.print index).2.print (kernelPanic ++ msg)).2.send) := by
  rw [print_append]
  rfl

theorem panic_flushes_iff {c : Console} (room : c.sendCnt ≤ consoleBufferSize) (h : Heap)
    (msg : List UInt8) : c.PanicFlushes h msg ↔ c.PanicDrains h msg := by
  have here : c.Later c c.backlog := ⟨rfl, rfl⟩
  obtain ⟨-, -, later₁⟩ := here.send.print h.indexText
  obtain ⟨all, len, later₂⟩ := later₁.print (kernelPanic ++ msg)
  have prints₁ := (send_prints room).trans (print_order h.indexText (send_prints room).room)
  have prints₂ := prints₁.trans (print_order (kernelPanic ++ msg) prints₁.room)
  have order := (prints₂.trans (send_prints prints₂.room)).order
  rw [List.nil_append, List.append_nil, ← List.append_assoc] at order
  have flushes : c.PanicFlushes h msg ↔ (c.panic h.indexText msg).2.device.transmitted =
      c.device.transmitted ++ c.unsent ++ (c.panic h.indexText msg).1 ++ (kernelPanic ++ msg) := by
    unfold PanicFlushes
    rw [memPrint_run, ← List.append_assoc]
    exact ⟨fun ⟨index, same, out⟩ => by rwa [← Except.ok.inj same] at out,
      fun out => ⟨_, rfl, out⟩⟩
  rw [flushes, panic_eq, out_iff order len, all, later₂.drains]
  rfl

/-- **Shutting down.** What was accepted is out at the shutdown write of `__stop` exactly when
every read of the status that a character needs finds the device ready. What was
accepted before `__panic`, what it accepts of the index, and all of its message are out
exactly when moreover the buffer never refuses a character of the message. -/
theorem shutdown_loses_nothing_iff {c : Console} (room : c.sendCnt ≤ consoleBufferSize) :
    (c.StopFlushes ↔ c.backlog.Drains c.ready) ∧
      ∀ h msg, c.PanicFlushes h msg ↔ c.PanicDrains h msg :=
  ⟨stop_flushes_iff c, panic_flushes_iff room⟩

/-- An empty console whose device always has the status `status`. -/
def idle (status : UInt8) : Console where
  receiveBuffer := ⟨0, fun _ => 0, 0⟩
  sendBuffer := ⟨0, fun _ => 0, 0⟩
  receiveCnt := 0
  sendCnt := 0
  device := ⟨fun _ => status, fun _ => 0, 0, 0, []⟩

theorem shutdown_loses_nothing_iff_small :
    ((idle consoleStatusSend).putc 65).2.unsent = [65] ∧
      ((idle consoleStatusSend).putc 65).2.StopFlushes ∧
      ((idle consoleStatusSend).putc 65).2.PanicFlushes smallInit (ascii "Thread lost") := by
  have always : ∀ n, ((idle consoleStatusSend).putc 65).2.ready n = true := by
    have later := (Later.putc (c := idle consoleStatusSend) ⟨rfl, rfl⟩ 65).2
    rw [later.ready]
    exact fun _ => show decide (consoleStatusSend &&& consoleStatusSend ≠ 0) = true by decide
  have room : ((idle consoleStatusSend).putc 65).2.sendCnt ≤ consoleBufferSize := by decide
  obtain ⟨stops, panics⟩ := shutdown_loses_nothing_iff room
  exact ⟨by decide, stops.mpr fun _ _ => always _, (panics smallInit (ascii "Thread lost")).mpr
    ⟨Backlog.takes_of_ready always (by decide) _ _, fun _ _ => always _⟩⟩

/-- A character is accepted, and the device is busy when the kernel stops. -/
theorem stop_loses_character : ((idle 0).putc 65).1 = 0 ∧
    ((idle 0).putc 65).2.sendCnt ≤ consoleBufferSize ∧ ((idle 0).putc 65).2.unsent = [65] ∧
    ((idle 0).putc 65).2.stop.device.transmitted = [] ∧ ¬ ((idle 0).putc 65).2.StopFlushes := by
  refine ⟨by decide, by decide, by decide, by decide, ?_⟩
  show ¬ ((idle 0).putc 65).2.stop.device.transmitted = _
  decide

end Console

end RiscvKernel
