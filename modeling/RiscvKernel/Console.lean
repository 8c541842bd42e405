import RiscvKernel.Scheduler

/-!
# The console (`console.c`)
-/

namespace RiscvKernel
open Function Intrusive

abbrev consoleReceiveBufferEmpty : Int := -1
abbrev consoleSendBufferFull : Int := -2

namespace Console

/-- Read `CONSOLE_STATUS`. -/
def status (c : Console) : UInt8 := c.device.status c.device.statusReads

def statusRead (c : Console) : Console :=
  { c with device := { c.device with statusReads := c.device.statusReads + 1 } }

/-- `console_receive_buffer[console_receive_cnt++] = CONSOLE_RX_DATA` -/
def receiveByte (c : Console) : Console :=
  { c with
    receiveBuffer := c.receiveBuffer.store c.receiveCnt (c.device.rxData c.device.rxReads)
    receiveCnt := c.receiveCnt + 1
    device := { c.device with rxReads := c.device.rxReads + 1 } }

/-- `CONSOLE_TX_DATA = console_send_buffer[i]` -/
def sendByte (c : Console) (i : Nat) : Console :=
  { c with
    sendBuffer := c.sendBuffer.touch i
    device := { c.device with
      transmitted := c.device.transmitted ++ [c.sendBuffer.data i] } }

/-- The first loop of `__console_receive`; `room` is
`CONSOLE_BUFFER_SIZE - console_receive_cnt`. -/
def receiveLoop : Nat → Console → Console
  | 0, c => c.statusRead
  | room + 1, c =>
    if c.status &&& consoleStatusReceive ≠ 0 then
      receiveLoop room c.statusRead.receiveByte
    else
      c.statusRead

/-- The loop of `__console_send`; `left` is `console_send_cnt - bytes_sent`. -/
def sendLoop : Nat → Nat → Console → Nat × Console
  | 0, bytesSent, c => (bytesSent, c.statusRead)
  | left + 1, bytesSent, c =>
    if c.status &&& consoleStatusSend ≠ 0 then
      sendLoop left (bytesSent + 1) (c.statusRead.sendByte bytesSent)
    else
      (bytesSent, c.statusRead)

/-- `console_receive_cnt -= n`, and the rest of the buffer moves to the front. -/
def dropReceived (c : Console) (n : Nat) : Console :=
  { c with
    receiveCnt := c.receiveCnt - n
    receiveBuffer := c.receiveBuffer.shift n (c.receiveCnt - n) }

def dropSent (c : Console) (n : Nat) : Console :=
  { c with
    sendCnt := c.sendCnt - n
    sendBuffer := c.sendBuffer.shift n (c.sendCnt - n) }

/-- `__console_send` -/
def send (c : Console) : Console :=
  let sent := sendLoop c.sendCnt 0 c
  sent.2.dropSent sent.1

/-- `console_send_buffer[console_send_cnt++] = c` -/
def append (c : Console) (ch : UInt8) : Console :=
  { c with sendBuffer := c.sendBuffer.store c.sendCnt ch, sendCnt := c.sendCnt + 1 }

/-- `__putc` -/
def putc (c : Console) (ch : UInt8) : Int × Console :=
  if c.sendCnt = consoleBufferSize then
    if c.send.sendCnt = consoleBufferSize then
      (consoleSendBufferFull, c.send)
    else
      (0, c.send.send.append ch)
  else
    (0, c.send.append ch)

end Console

def consoleSend (k : Kernel) : Kernel := { k with console := k.console.send }

/-! ## Threads that wait for input -/

def waitingPush (k : Kernel) (thread : Nat) : Kernel :=
  let pushed := k.links.push k.threadsWaitingForInput thread
  { k with
    links := pushed.1
    threadsWaitingForInput := pushed.2
    hist := { k.hist with inputBlocked := k.hist.inputBlocked ++ [thread] } }

def waitingPop (k : Kernel) : Nat × Kernel :=
  let nextThread := k.threadsWaitingForInput
  let popped := k.links.pop nextThread
  (nextThread, { k with links := popped.1, threadsWaitingForInput := popped.2 })

/-- `__getc`. A buffered byte goes to the frame at the `sp` of the control
block, and the rest of the buffer moves up. -/
def getc (k : Kernel) : Int × Kernel :=
  let threadCurrent := k.scheduler.threadCurrent
  if k.console.receiveCnt = 0 then
    (consoleReceiveBufferEmpty, waitingPush (switch k) threadCurrent)
  else
    let c := k.console.receiveBuffer.data 0
    let k := k.setContext (k.thread threadCurrent).sp regA0 c.toNat
    let buffer := k.console.receiveBuffer.touch 0
    let left := k.console.receiveCnt - 1
    let console := { k.console with
      receiveCnt := left
      receiveBuffer := buffer.shift 1 left }
    (0, { k with
      console
      hist := { k.hist with handed := k.hist.handed ++ [c] } })

/-- The second loop of `__console_receive`: a byte for each waiting thread;
`left` is `console_receive_cnt - unblocked_cnt`. -/
def unblockLoop : Nat → Nat → Kernel → Nat × Kernel
  | 0, unblockedCnt, k => (unblockedCnt, k)
  | left + 1, unblockedCnt, k =>
    if k.threadsWaitingForInput ≠ 0 then
      let unblockedThread := (waitingPop k).1
      let k := (waitingPop k).2
      let c := k.console.receiveBuffer.data unblockedCnt
      let k := k.setContext (k.thread unblockedThread).sp regA0 c.toNat
      let k := { k with
        console := { k.console with
          receiveBuffer := k.console.receiveBuffer.touch unblockedCnt }
        hist := { k.hist with
          handed := k.hist.handed ++ [c]
          served := k.hist.served ++ [(unblockedThread, c)] } }
      unblockLoop left (unblockedCnt + 1) (schedulerPush k unblockedThread)
    else
      (unblockedCnt, k)

def consoleReceive (k : Kernel) : Kernel :=
  let k := { k with
    console := k.console.receiveLoop (consoleBufferSize - k.console.receiveCnt) }
  let unblocked := unblockLoop k.console.receiveCnt 0 k
  { unblocked.2 with console := unblocked.2.console.dropReceived unblocked.1 }

/-- `__console_init` -/
def consoleInit (k : Kernel) : Except Halt Kernel := do
  let (receive, k) ← k.alloc (sizeInBlocks consoleBufferSize)
  let (send, k) ← k.alloc (sizeInBlocks consoleBufferSize)
  return { k with
    console := { k.console with
      receiveBuffer := { k.console.receiveBuffer with addr := receive }
      sendBuffer := { k.console.sendBuffer with addr := send }
      receiveCnt := 0
      sendCnt := 0 }
    threadsWaitingForInput := 0 }

end RiscvKernel
