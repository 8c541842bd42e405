import RiscvKernel.Console
import Mathlib.Data.List.Range

/-!
# The console buffers as lists

* `receiveLoop_spec`: the bytes read from the device go to the end of the
  receive buffer;
* `send_spec`, `putc_spec`: characters leave the front of the send buffer for
  the device, and a `putc` puts its own at the end;
* `putc_refused`, `putc_accepted`: which characters are refused;
* no element at or past `CONSOLE_BUFFER_SIZE` is accessed.
-/

namespace RiscvKernel
open Function

/-! ## The first elements of an array -/

/-- The first `n` elements of `f`. -/
def firsts {α : Type} (f : Nat → α) (n : Nat) : List α := (List.range n).map f

section
variable {α : Type} (f : Nat → α)

@[simp] theorem firsts_length (n : Nat) : (firsts f n).length = n := by simp [firsts]

@[simp] theorem firsts_zero : firsts f 0 = [] := rfl

theorem firsts_succ (n : Nat) : firsts f (n + 1) = firsts f n ++ [f n] := by
  simp [firsts, List.range_succ]

theorem firsts_add (m n : Nat) : firsts f (m + n) = firsts f m ++
    firsts (fun i => f (m + i)) n := by
  simp [firsts, List.range_add]

theorem firsts_cons (n : Nat) : firsts f (n + 1) = f 0 :: firsts (fun i => f (i + 1)) n := by
  rw [Nat.add_comm n 1, firsts_add, firsts_succ]
  simp [Nat.add_comm]

theorem firsts_congr {f g : Nat → α} {n : Nat} (h : ∀ i < n, f i = g i) :
    firsts f n = firsts g n :=
  List.map_congr_left fun i hi => h i (List.mem_range.mp hi)

end

/-! ## Shifting -/

theorem shift_data (offset n : Nat) (b : Buffer) (j : Nat) :
    (b.shift offset n).data j = if j < n then b.data (offset + j) else b.data j := by
  induction n generalizing j with
  | zero => simp [Buffer.shift]
  | succ n ih =>
    show update (b.shift offset n).data n ((b.shift offset n).data (offset + n)) j = _
    rw [update_apply]
    split
    · next h =>
      subst h
      rw [ih]
      simp
    · rw [ih]
      grind

theorem shift_reach (offset n : Nat) (b : Buffer) :
    (b.shift offset n).reach ≤ max b.reach (offset + n) := by
  induction n with
  | zero => exact Nat.le_max_left ..
  | succ n ih =>
    show max (max (b.shift offset n).reach (offset + n + 1)) (n + 1) ≤ _
    omega

theorem shift_addr (offset n : Nat) (b : Buffer) : (b.shift offset n).addr = b.addr := by
  induction n with
  | zero => rfl
  | succ n ih => exact ih

/-- A shift drops the first `offset` elements. -/
theorem firsts_shift (b : Buffer) {offset n : Nat} (h : offset ≤ n) :
    firsts b.data n =
      firsts b.data offset ++ firsts (b.shift offset (n - offset)).data (n - offset) := by
  have split := firsts_add b.data offset (n - offset)
  rw [Nat.add_sub_cancel' h] at split
  rw [split]
  congr 1
  refine firsts_congr fun i hi => ?_
  rw [shift_data, if_pos hi]

namespace Console

/-- The bytes read from the device. -/
def received (c : Console) : List UInt8 := firsts c.device.rxData c.device.rxReads

/-- What waits in the receive buffer. -/
def unread (c : Console) : List UInt8 := firsts c.receiveBuffer.data c.receiveCnt

/-- What waits in the send buffer. -/
def unsent (c : Console) : List UInt8 := firsts c.sendBuffer.data c.sendCnt

/-- What `__console_receive` and `__getc` work on is the same. -/
structure SameInput (c c' : Console) : Prop where
  received : c'.received = c.received
  cnt : c'.receiveCnt = c.receiveCnt
  buffer : c'.receiveBuffer = c.receiveBuffer

theorem SameInput.trans {a b c : Console} (h : SameInput a b) (h' : SameInput b c) :
    SameInput a c :=
  ⟨h'.received.trans h.received, h'.cnt.trans h.cnt, h'.buffer.trans h.buffer⟩

/-- What `__console_send` and `__putc` work on is the same. -/
structure SameOutput (c c' : Console) : Prop where
  transmitted : c'.device.transmitted = c.device.transmitted
  cnt : c'.sendCnt = c.sendCnt
  buffer : c'.sendBuffer = c.sendBuffer

theorem SameOutput.trans {a b c : Console} (h : SameOutput a b) (h' : SameOutput b c) :
    SameOutput a c :=
  ⟨h'.transmitted.trans h.transmitted, h'.cnt.trans h.cnt, h'.buffer.trans h.buffer⟩

theorem SameOutput.unsent {c c' : Console} (h : SameOutput c c') : c'.unsent = c.unsent := by
  rw [Console.unsent, h.buffer, h.cnt]
  rfl

theorem SameInput.unread {c c' : Console} (h : SameInput c c') : c'.unread = c.unread := by
  rw [Console.unread, h.buffer, h.cnt]
  rfl

/-! ## Receiving -/

/-- `bytes` are read from the device and go to the end of the buffer. -/
structure Received (c c' : Console) (room : Nat) (bytes : List UInt8) : Prop where
  received : c'.received = c.received ++ bytes
  unread : c'.unread = c.unread ++ bytes
  cnt : c'.receiveCnt ≤ c.receiveCnt + room
  reach : c'.receiveBuffer.reach ≤ max c.receiveBuffer.reach (c.receiveCnt + room)
  addr : c'.receiveBuffer.addr = c.receiveBuffer.addr
  output : SameOutput c c'

theorem receiveByte_unread (c : Console) :
    c.receiveByte.unread = c.unread ++ [c.device.rxData c.device.rxReads] := by
  show firsts (update _ _ _) (c.receiveCnt + 1) = _
  rw [firsts_succ, update_self]
  congr 1
  exact firsts_congr fun i hi => update_of_ne (by omega) ..

theorem statusRead_received (c : Console) (room : Nat) : c.Received c.statusRead room [] :=
  ⟨by simp [statusRead, Console.received], by simp [statusRead, Console.unread],
    Nat.le_add_right .., Nat.le_max_left .., rfl, ⟨rfl, rfl, rfl⟩⟩

theorem receiveLoop_spec (room : Nat) (c : Console) :
    ∃ bytes, c.Received (c.receiveLoop room) room bytes := by
  induction room generalizing c with
  | zero => exact ⟨[], statusRead_received c 0⟩
  | succ room ih =>
    unfold receiveLoop
    split
    · obtain ⟨bytes, h⟩ := ih c.statusRead.receiveByte
      have first := receiveByte_unread c.statusRead
      have cnt : c.statusRead.receiveByte.receiveCnt = c.receiveCnt + 1 := rfl
      have reach : c.statusRead.receiveByte.receiveBuffer.reach =
        max c.receiveBuffer.reach (c.receiveCnt + 1) := rfl
      have output : SameOutput c c.statusRead.receiveByte := ⟨rfl, rfl, rfl⟩
      refine ⟨c.device.rxData c.device.rxReads :: bytes, ?_, ?_, ?_, ?_, h.addr,
        output.trans h.output⟩
      · rw [h.received]
        show firsts c.device.rxData (c.device.rxReads + 1) ++ bytes = _
        rw [firsts_succ]
        simp [Console.received]
      · rw [h.unread, first]
        simp [statusRead, Console.unread]
      · have := h.cnt
        omega
      · have := h.reach
        omega
    · exact ⟨[], statusRead_received c (room + 1)⟩

theorem dropReceived_spec (c : Console) {n : Nat} (h : n ≤ c.receiveCnt) :
    c.unread = firsts c.receiveBuffer.data n ++ (c.dropReceived n).unread ∧
      (c.dropReceived n).receiveBuffer.reach ≤ max c.receiveBuffer.reach c.receiveCnt := by
  have reach := shift_reach n (c.receiveCnt - n) c.receiveBuffer
  rw [Nat.add_sub_cancel' h] at reach
  exact ⟨firsts_shift c.receiveBuffer h, reach⟩

/-! ## Sending -/

/-- `chars` leave the front of the send buffer for the device. -/
structure Sent (c c' : Console) (chars : List UInt8) : Prop where
  transmitted : c'.device.transmitted = c.device.transmitted ++ chars
  unsent : c.unsent = chars ++ c'.unsent
  cnt : c'.sendCnt + chars.length = c.sendCnt
  reach : c'.sendBuffer.reach ≤ max c.sendBuffer.reach c.sendCnt
  addr : c'.sendBuffer.addr = c.sendBuffer.addr
  input : SameInput c c'

theorem Sent.order {c c' : Console} {chars : List UInt8} (h : c.Sent c' chars) :
    c'.device.transmitted ++ c'.unsent = c.device.transmitted ++ c.unsent := by
  rw [h.transmitted, h.unsent, List.append_assoc]

theorem Sent.trans {a b c : Console} {xs ys : List UInt8} (h : a.Sent b xs) (h' : b.Sent c ys) :
    a.Sent c (xs ++ ys) := by
  have := h.cnt
  have := h'.cnt
  have := h.reach
  have := h'.reach
  refine ⟨?_, ?_, by simp; omega, by omega, h'.addr.trans h.addr, h.input.trans h'.input⟩
  · rw [h'.transmitted, h.transmitted, List.append_assoc]
  · rw [h.unsent, h'.unsent, List.append_assoc]

/-- What the loop of `__console_send` does: `n` characters go to the device. -/
structure Transmitted (c c' : Console) (first n : Nat) : Prop where
  transmitted : c'.device.transmitted =
    c.device.transmitted ++ firsts (fun i => c.sendBuffer.data (first + i)) n
  data : c'.sendBuffer.data = c.sendBuffer.data
  cnt : c'.sendCnt = c.sendCnt
  reach : c'.sendBuffer.reach ≤ max c.sendBuffer.reach (first + n)
  addr : c'.sendBuffer.addr = c.sendBuffer.addr
  input : SameInput c c'

theorem sendLoop_spec (left bytesSent : Nat) (c : Console) :
    ∃ n ≤ left, (sendLoop left bytesSent c).1 = bytesSent + n ∧
      c.Transmitted (sendLoop left bytesSent c).2 bytesSent n := by
  have none : c.Transmitted c.statusRead bytesSent 0 :=
    ⟨by simp [statusRead], rfl, rfl, Nat.le_max_left .., rfl, ⟨rfl, rfl, rfl⟩⟩
  induction left generalizing bytesSent c with
  | zero => exact ⟨0, Nat.le_refl 0, rfl, none⟩
  | succ left ih =>
    unfold sendLoop
    split
    · let c₁ := c.statusRead.sendByte bytesSent
      have reach : c₁.sendBuffer.reach = max c.sendBuffer.reach (bytesSent + 1) := rfl
      have input : SameInput c c₁ := ⟨rfl, rfl, rfl⟩
      obtain ⟨n, hn, count, h⟩ := ih (bytesSent + 1) c₁
        ⟨by simp [statusRead], rfl, rfl, Nat.le_max_left .., rfl, ⟨rfl, rfl, rfl⟩⟩
      refine ⟨n + 1, by omega, count.trans (by omega), ?_, h.data, h.cnt,
        h.reach.trans (by omega), h.addr, input.trans h.input⟩
      rw [h.transmitted, firsts_cons]
      simp [c₁, sendByte, statusRead, Buffer.touch, Nat.add_assoc, Nat.add_comm 1]
    · exact ⟨0, by omega, rfl, none⟩

theorem send_spec (c : Console) : ∃ chars, c.Sent c.send chars := by
  obtain ⟨n, hn, count, h⟩ := sendLoop_spec c.sendCnt 0 c
  rw [Nat.zero_add] at count
  have transmitted := h.transmitted
  have reach := h.reach
  simp only [Nat.zero_add] at transmitted reach
  generalize hc : (sendLoop c.sendCnt 0 c).2 = c' at h transmitted reach
  have send : c.send = c'.dropSent n := by
    rw [← hc, ← count]
    rfl
  have cnt := h.cnt
  have unsent : c'.unsent = c.unsent := by
    show firsts c'.sendBuffer.data c'.sendCnt = _
    rw [h.data, cnt]
    rfl
  rw [send]
  refine ⟨firsts c.sendBuffer.data n, transmitted, ?_, ?_, ?_, (shift_addr ..).trans h.addr,
    ⟨h.input.received, h.input.cnt, h.input.buffer⟩⟩
  · rw [← unsent, ← h.data]
    exact firsts_shift c'.sendBuffer (by omega)
  · show c'.sendCnt - n + _ = _
    rw [firsts_length]
    omega
  · have := shift_reach n (c'.sendCnt - n) c'.sendBuffer
    show (c'.sendBuffer.shift n (c'.sendCnt - n)).reach ≤ _
    omega

/-- A `putc` that is accepted. -/
structure Accepted (c c' : Console) (ch : UInt8) : Prop where
  order : c'.device.transmitted ++ c'.unsent = c.device.transmitted ++ c.unsent ++ [ch]
  cnt : c'.sendCnt ≤ consoleBufferSize
  reach : c'.sendBuffer.reach ≤ max c.sendBuffer.reach consoleBufferSize
  addr : c'.sendBuffer.addr = c.sendBuffer.addr
  input : SameInput c c'

theorem append_accepted {c c' : Console} {chars : List UInt8} (sent : c.Sent c' chars)
    (room : c.sendCnt ≤ consoleBufferSize) (lt : c'.sendCnt < consoleBufferSize) (ch : UInt8) :
    c.Accepted (c'.append ch) ch := by
  have reach := sent.reach
  have append : (c'.append ch).unsent = c'.unsent ++ [ch] := by
    show firsts (update _ _ _) (c'.sendCnt + 1) = _
    rw [firsts_succ, update_self]
    congr 1
    exact firsts_congr fun i hi => update_of_ne (by omega) ..
  refine ⟨?_, lt, ?_, sent.addr, sent.input.trans ⟨rfl, rfl, rfl⟩⟩
  · rw [append, ← List.append_assoc, ← sent.order]
    rfl
  · show max c'.sendBuffer.reach (c'.sendCnt + 1) ≤ _
    omega

/-- A `putc` is refused when the buffer is full and the device takes nothing;
else its character goes to the end of the buffer. -/
theorem putc_spec {c : Console} (room : c.sendCnt ≤ consoleBufferSize) (ch : UInt8) :
    ((c.putc ch).1 = consoleSendBufferFull ∧ c.sendCnt = consoleBufferSize ∧
        c.Sent (c.putc ch).2 []) ∨
      ((c.putc ch).1 = 0 ∧ c.Accepted (c.putc ch).2 ch) := by
  obtain ⟨chars, sent⟩ := send_spec c
  have cnt := sent.cnt
  unfold putc
  split
  · next full =>
    split
    · next still =>
      obtain rfl : chars = [] := List.length_eq_zero_iff.mp (by omega)
      exact Or.inl ⟨rfl, full, sent⟩
    · obtain ⟨chars', sent'⟩ := send_spec c.send
      have := sent'.cnt
      exact Or.inr ⟨rfl, append_accepted (sent.trans sent') room (by omega) ch⟩
  · exact Or.inr ⟨rfl, append_accepted sent room (by omega) ch⟩

/-! ## Refused characters -/

/-- The buffer is full and the device is not ready. -/
def Refuses (c : Console) : Prop :=
  c.sendCnt = consoleBufferSize ∧ c.status &&& consoleStatusSend = 0

theorem send_busy {c : Console} (busy : c.status &&& consoleStatusSend = 0) :
    c.send = c.statusRead.dropSent 0 := by
  have loop : sendLoop c.sendCnt 0 c = (0, c.statusRead) := by
    cases c.sendCnt with
    | zero => rfl
    | succ left => exact if_neg fun ready => ready busy
  show (sendLoop c.sendCnt 0 c).2.dropSent (sendLoop c.sendCnt 0 c).1 = _
  rw [loop]

theorem send_ready {c : Console} (ready : c.status &&& consoleStatusSend ≠ 0)
    (some : c.sendCnt ≠ 0) : c.send.sendCnt < c.sendCnt := by
  obtain ⟨left, cnt⟩ := Nat.exists_eq_succ_of_ne_zero some
  obtain ⟨n, -, count, sent⟩ := sendLoop_spec left 1 (c.statusRead.sendByte 0)
  have loop : sendLoop c.sendCnt 0 c = sendLoop left 1 (c.statusRead.sendByte 0) := by
    rw [cnt]
    exact if_pos ready
  have same : (sendLoop left 1 (c.statusRead.sendByte 0)).2.sendCnt = c.sendCnt := sent.cnt
  show (sendLoop c.sendCnt 0 c).2.sendCnt - (sendLoop c.sendCnt 0 c).1 < c.sendCnt
  rw [loop, same, count]
  omega

/-- The send buffer and the device stay as they were. -/
structure SentNothing (c c' : Console) : Prop where
  data : c'.sendBuffer.data = c.sendBuffer.data
  cnt : c'.sendCnt = c.sendCnt
  transmitted : c'.device.transmitted = c.device.transmitted

theorem putc_refused {c : Console} (refuses : c.Refuses) (ch : UInt8) :
    (c.putc ch).1 = consoleSendBufferFull ∧ c.SentNothing (c.putc ch).2 := by
  obtain ⟨full, busy⟩ := refuses
  have send := send_busy busy
  have still : c.send.sendCnt = consoleBufferSize := by
    rw [send]
    exact full
  have put : c.putc ch = (consoleSendBufferFull, c.send) := by
    unfold putc
    rw [if_pos full, if_pos still]
  rw [put, send]
  refine ⟨rfl, ?_, rfl, rfl⟩
  funext i
  show (c.sendBuffer.shift 0 c.sendCnt).data i = _
  rw [shift_data, Nat.zero_add, ite_self]

theorem putc_accepted {c : Console} (accepts : ¬ c.Refuses) (room : c.sendCnt ≤ consoleBufferSize)
    (ch : UInt8) : (c.putc ch).1 = 0 ∧ c.Accepted (c.putc ch).2 ch := by
  rcases putc_spec room ch with ⟨result, full, sent⟩ | accepted
  · refine absurd ⟨full, ?_⟩ accepts
    by_contra ready
    have some : c.sendCnt ≠ 0 := by
      rw [full]
      decide
    -- a character that leaves makes room
    have less := send_ready ready some
    unfold putc at result
    rw [if_pos full, if_neg (by omega)] at result
    cases result
  · exact accepted

end Console

end RiscvKernel
