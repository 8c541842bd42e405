import RiscvKernel.Exhaustion
import RiscvKernel.Getc

/-!
# The C API (`syscall_c.c`)

A wrapper moves its arguments to `a1`, `a2`, …, puts the code of its request
into `a0` and executes `ecall`; its result is what it finds in `a0` then.
-/

namespace RiscvKernel
open Function

abbrev syscallMemFree : Nat := 0x2
abbrev syscallSemTrywait : Nat := 0x26

/-- The trap of an `ecall` with the request `code` and its arguments; `u` is what
the trap finds otherwise. -/
def Trap.ecall (u : Trap) (code : Nat) (args : List Nat) : Trap :=
  { u with
    scause := irqEcallUser
    regs := fun i =>
      if i = regA0 then code
      else if regA0 < i then args[i - regA1]?.getD (u.regs i)
      else u.regs i }

/-- An `ecall` and the `a0` that the hart goes on with. -/
def ecall (k : Kernel) (u : Trap) (code : Nat) (args : List Nat) :
    Except Halt (Nat × Kernel) := do
  let k ← trap k (u.ecall code args)
  return ((resume k).regs regA0, k)

namespace Api

def memAlloc (k : Kernel) (u : Trap) (nbytes : Nat) : Except Halt (Nat × Kernel) :=
  ecall k u syscallMemAlloc [userBlocks nbytes]

def memFree (k : Kernel) (u : Trap) (ptr : Nat) : Except Halt (Int × Kernel) := do
  let (a0, k) ← ecall k u syscallMemFree [ptr]
  return (toI32 a0, k)

/-- The stack comes first, and goes back when there is no thread. -/
def threadCreate (k : Kernel) (u : Nat → Trap) (handle startF arg : Nat) :
    Except Halt (Int × Kernel) := do
  let (newStack, k) ← Api.memAlloc k (u 0) defaultStackSize
  if newStack = 0 then
    return (threadCreateNoMemory, k)
  let newStack := u64 (newStack + (defaultStackSize - 8 : Nat))
  let (a0, k) ← ecall k (u 1) syscallThreadCreate [handle, startF, arg, newStack]
  let result := toI32 a0
  if result ≠ 0 then
    let (_, k) ← Api.memFree k (u 2) (u64 (newStack - defaultStackSize + 8))
    return (result, k)
  return (result, k)

def semOpen (k : Kernel) (u : Trap) (handle cnt : Nat) : Except Halt (Int × Kernel) := do
  let (a0, k) ← ecall k u syscallSemOpen [handle, cnt]
  return (toI32 a0, k)

def semTimedWait (k : Kernel) (u : Trap) (handle timeout : Nat) : Except Halt (Int × Kernel) := do
  let (a0, k) ← ecall k u syscallSemTimedWait [handle, timeout]
  return (toI32 a0, k)

def timeSleep (k : Kernel) (u : Trap) (time : Nat) : Except Halt (Int × Kernel) := do
  let (a0, k) ← ecall k u syscallTimedSleep [time]
  return (toI32 a0, k)

end Api

/-! ## What a call leaves behind -/

section
variable {k : Kernel} {u : Trap} {code : Nat} {args : List Nat}

@[simp] theorem ecall_scause : (u.ecall code args).scause = irqEcallUser := rfl

@[simp] theorem ecall_code : (u.ecall code args).regs regA0 = code := rfl

/-- A request whose handler stores its result in `a0` of the frame. -/
theorem ecall_answers {k₁ : Kernel} {a0 : Nat}
    (run : handleSyscall (bumpSepc (enter k (u.ecall code args)) 4) (u.ecall code args).frame code =
      .ok (k₁.setContext (u.ecall code args).frame regA0 a0))
    (frame : k₁.hart.sscratch = (u.ecall code args).frame)
    (mem : k₁.mem = (enter k (u.ecall code args)).mem) : ecall k u code args =
      .ok (a0, leave (k₁.setContext (u.ecall code args).frame regA0 a0)) := by
  have taken : trap k (u.ecall code args) =
      .ok (leave (k₁.setContext (u.ecall code args).frame regA0 a0)) := by
    rw [trap_user rfl, ecall_code, run]
    rfl
  have sp : (leave (k₁.setContext (u.ecall code args).frame regA0 a0)).context
      (u.ecall code args).frame regSp = (u.ecall code args).frame := by
    have other : slot (u.ecall code args).frame regSp ≠ slot (u.ecall code args).frame regA0 := by
      simp only [slot, regSp, regA0]
      omega
    have kept := enter_context k (u.ecall code args) (i := regSp) (by decide)
    unfold Kernel.context at kept
    rw [← mem] at kept
    exact (update_of_ne other _ _).trans kept
  have result : (resume (leave (k₁.setContext (u.ecall code args).frame regA0 a0))).regs regA0 =
      a0 := by
    have restored := @resume_a0 (leave (k₁.setContext (u.ecall code args).frame regA0 a0))
      (u.ecall code args) frame sp
    exact restored.trans (update_self ..)
  unfold ecall
  rw [taken]
  exact congrArg (fun r => Except.ok (r, _)) result

theorem handleMemAlloc_run {context p : Nat} {heap : Heap}
    (run : memAlloc (k.context context regA1) k.heap = .ok (p, heap)) :
    handleMemAlloc k context =
      .ok ((k.memAlloced p (k.context context regA1) heap).setContext context regA0 p) := by
  unfold handleMemAlloc Kernel.alloc
  dsimp only
  rw [run]
  rfl

/-- A request that the `switch` does not know returns its own code. -/
theorem ecall_unknown (unknown : code ∉ syscallCodes) : ecall k u code args =
    .ok (code, leave (bumpSepc (enter k (u.ecall code args)) 4)) := by
  have taken : trap k (u.ecall code args) =
      .ok (leave (bumpSepc (enter k (u.ecall code args)) 4)) := by
    rw [trap_user rfl, ecall_code, handleSyscall_unknown unknown]
    rfl
  have sp := enter_context k (u.ecall code args) (i := regSp) (by decide)
  have a0 := enter_arg k (u.ecall code args) (i := regA0) (by decide) (by decide)
  have result : (resume (leave (bumpSepc (enter k (u.ecall code args)) 4))).regs regA0 = code :=
    (resume_a0 rfl sp).trans a0
  unfold ecall
  rw [taken]
  exact congrArg (fun r => Except.ok (r, _)) result

end

end RiscvKernel
