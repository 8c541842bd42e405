import Mathlib.Data.Int.Basic
import Mathlib.Tactic.Ring

/-!
# Machine words and constants

The C types of `kernel.h` and the constants of `hw.h`. Addresses and
machine words are natural numbers and an `i32` is an integer; `u64` and `toI32`
wrap a computed value as the compiled code does.
-/

namespace RiscvKernel

/-- The block size of the heap, in bytes. -/
abbrev memBlockSize : Nat := 64
abbrev defaultStackSize : Nat := 4096
abbrev defaultTimeSlice : Nat := 2

/-- An integer expression stored in, or computed as, a `u64`. -/
def u64 (x : Int) : Nat := (x % 2 ^ 64).toNat

/-- An integer expression stored in, or computed as, an `i32`. -/
def toI32 (x : Int) : Int := Int.bmod x (2 ^ 32)

/-- The number of heap blocks that hold `bytes` bytes. -/
def sizeInBlocks (bytes : Nat) : Nat := (bytes + memBlockSize - 1) / memBlockSize

/-- How the kernel can fail to return from a trap: `__panic` stops the machine,
a store through a null pointer faults, and a loop may never end. -/
inductive Halt where
  | panic (msg : String)
  | nullPointer
  | stuck
  deriving DecidableEq, Repr

theorem u64_eq {x : Int} (lo : 0 ≤ x) (hi : x < 2 ^ 64) : u64 x = x.toNat := by
  rw [u64, Int.emod_eq_of_lt lo hi]

theorem u64_natCast {x : Nat} (hi : x < 2 ^ 64) : u64 x = x := by
  rw [u64_eq (by omega) (by exact_mod_cast hi), Int.toNat_natCast]

theorem u64_lt (x : Int) : u64 x < 2 ^ 64 := by
  unfold u64
  omega

theorem toI32_eq {x : Int} (lo : -2 ^ 31 ≤ x) (hi : x < 2 ^ 31) : toI32 x = x := by
  rw [toI32, Int.bmod_def]
  split <;> omega

theorem toI32_range (x : Int) : -2 ^ 31 ≤ toI32 x ∧ toI32 x < 2 ^ 31 := by
  unfold toI32
  have := Int.le_bmod (x := x) (m := 2 ^ 32) (by decide)
  have := Int.bmod_lt (x := x) (m := 2 ^ 32) (by decide)
  omega

/-- A step that returns has run its first half. -/
theorem ok_bind {α β : Type} {x : Except Halt α} {f : α → Except Halt β} {y : β}
    (h : x >>= f = .ok y) : ∃ a, x = .ok a ∧ f a = .ok y := by
  cases x with
  | error e => cases h
  | ok a => exact ⟨a, rfl, h⟩

end RiscvKernel
