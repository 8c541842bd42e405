import RiscvKernel.Machine
import RiscvKernel.Positional

/-!
# Printing numbers (`kernel.c`)

The functions give the characters they pass to `__putc`.

* `printU64`, `printI32`: decimal numerals;
* `printH64`, `printH32`: hexadecimal digits;
* `numbers_printed`: the characters are the numeral of the number.
-/

namespace RiscvKernel
open Positional

/-- How printing could fail: a division by zero, an index outside `hex`, or a
loop that goes on for ever. -/
inductive PrintFault where
  | divByZero
  | outOfTable
  | stuck
  deriving DecidableEq, Repr

/-- `a / b` -/
def quotient (a b : Nat) : Except PrintFault Nat :=
  if b = 0 then .error .divByZero else .ok (a / b)

/-- `'0' + d` as a `char`. -/
def digitChar (d : Nat) : UInt8 := .ofNat (48 + d)

/-- An integer expression converted to `u32`. -/
def u32 (x : Int) : Nat := (x % 2 ^ 32).toNat

/-- `while(var / mod == 0) mod /= 10;`, for at most `fuel` rounds. -/
def shrinkMod (var : Nat) : Nat → Nat → Except PrintFault Nat
  | 0, _ => .error .stuck
  | fuel + 1, mod => do
    if (← quotient var mod) = 0 then
      shrinkMod var fuel (mod / 10)
    else
      return mod

/-- The second loop of `__print_u64`, for at most `fuel` rounds. -/
def putDigits : Nat → Nat → Nat → Except PrintFault (List UInt8)
  | 0, _, _ => .error .stuck
  | fuel + 1, var, mod =>
    if mod ≠ 0 then do
      let c := digitChar (← quotient var mod)
      return c :: (← putDigits fuel (var % mod) (mod / 10))
    else
      return []

/-- `__print_u64` -/
def printU64 (v : UInt64) : Except PrintFault (List UInt8) := do
  let var := v.toNat
  if var = 0 then
    return [digitChar 0]
  let mod ← shrinkMod var 64 10000000000000000000
  putDigits 64 var mod

/-- The second loop of `__print_i32`, for at most `fuel` rounds: `var` is an `i32`,
and `mod` a `u32`. -/
def putDigitsI32 : Nat → Int → Nat → Except PrintFault (List UInt8)
  | 0, _, _ => .error .stuck
  | fuel + 1, var, mod =>
    if mod ≠ 0 then do
      let c := digitChar (← quotient (u32 var) mod)
      return c :: (← putDigitsI32 fuel (toI32 (u32 var % mod : Nat)) (mod / 10))
    else
      return []

/-- `__print_i32`; `~var + 1` wraps around for the smallest `i32`. -/
def printI32 (v : Int32) : Except PrintFault (List UInt8) := do
  let var := v.toInt
  if var = 0 then
    return [digitChar 0]
  let negative := (u32 var).testBit 31
  let sign : List UInt8 := if negative then [45] else []
  let var := if negative then toI32 (toI32 (-var - 1) + 1) else var
  let mod ← shrinkMod (u32 var) 64 1000000000
  return sign ++ (← putDigitsI32 64 var mod)

/-- `hex` -/
def hexTable : List UInt8 := [48, 49, 50, 51, 52, 53, 54, 55, 56, 57, 65, 66, 67, 68, 69, 70]

/-- `hex[i]` -/
def hexChar (i : Nat) : Except PrintFault UInt8 :=
  match hexTable[i]? with
  | some c => .ok c
  | none => .error .outOfTable

/-- The loop of `__print_h64` and `__print_h32`, for at most `fuel` rounds. -/
def putHex : Nat → Nat → Nat → Except PrintFault (List UInt8)
  | 0, _, _ => .error .stuck
  | fuel + 1, var, mod =>
    if mod ≠ 0 then do
      let c ← hexChar (← quotient var mod)
      return c :: (← putHex fuel (var % mod) (mod >>> 4))
    else
      return []

/-- `__print_h64` -/
def printH64 (v : UInt64) : Except PrintFault (List UInt8) := putHex 64 v.toNat (1 <<< 60)

/-- `__print_h32` -/
def printH32 (v : UInt32) : Except PrintFault (List UInt8) := putHex 64 v.toNat (1 <<< 28)

/-! ## The loops -/

theorem shrinkMod_step {mod : Nat} (nonzero : mod ≠ 0) (var fuel : Nat) :
    shrinkMod var (fuel + 1) mod =
      if var / mod = 0 then shrinkMod var fuel (mod / 10) else .ok mod := by
  rw [shrinkMod, quotient, if_neg nonzero]
  rfl

theorem shrinkMod_run {v n : Nat} (pos : 0 < v) (lt : v < 10 ^ (n + 1)) {fuel : Nat}
    (enough : n < fuel) :
    ∃ m, 10 ^ m ≤ v ∧ v < 10 ^ (m + 1) ∧ m ≤ n ∧ shrinkMod v fuel (10 ^ n) = .ok (10 ^ m) := by
  induction n generalizing fuel with
  | zero =>
    obtain ⟨fuel, rfl⟩ : ∃ f, fuel = f + 1 := ⟨fuel - 1, by omega⟩
    refine ⟨0, pos, lt, le_rfl, ?_⟩
    rw [shrinkMod_step (by decide), if_neg]
    rw [Nat.pow_zero, Nat.div_one]
    exact pos.ne'
  | succ n ih =>
    obtain ⟨fuel, rfl⟩ : ∃ f, fuel = f + 1 := ⟨fuel - 1, by omega⟩
    have nonzero : 10 ^ (n + 1) ≠ 0 := (Nat.pow_pos (by decide)).ne'
    by_cases big : v / 10 ^ (n + 1) = 0
    · have less : v < 10 ^ (n + 1) := (Nat.div_eq_zero_iff.mp big).resolve_left nonzero
      obtain ⟨m, lo, hi, le, run⟩ := ih less (by omega : n < fuel)
      refine ⟨m, lo, hi, by omega, ?_⟩
      rw [shrinkMod_step nonzero, if_pos big, Nat.pow_succ, Nat.mul_div_cancel _ (by decide), run]
    · refine ⟨n + 1, ?_, lt, le_rfl, by rw [shrinkMod_step nonzero, if_neg big]⟩
      by_contra less
      exact big (Nat.div_eq_of_lt (by omega))

theorem putDigits_zero {fuel : Nat} (enough : 0 < fuel) (v : Nat) :
    putDigits fuel v 0 = .ok [] := by
  obtain ⟨fuel, rfl⟩ : ∃ f, fuel = f + 1 := ⟨fuel - 1, by omega⟩
  rfl

theorem putDigits_run {n : Nat} {fuel : Nat} (enough : n + 1 < fuel) (v : Nat) :
    putDigits fuel v (10 ^ n) = .ok ((places 10 (n + 1) v).map digitChar) := by
  induction n generalizing fuel v with
  | zero =>
    obtain ⟨fuel, rfl⟩ : ∃ f, fuel = f + 1 := ⟨fuel - 1, by omega⟩
    have rest := putDigits_zero (by omega : 0 < fuel) (v % 1)
    simp only [putDigits, quotient, Nat.pow_zero, places]
    show (do let c := _; return c :: (← putDigits fuel (v % 1) 0)) = _
    rw [rest]
    rfl
  | succ n ih =>
    obtain ⟨fuel, rfl⟩ : ∃ f, fuel = f + 1 := ⟨fuel - 1, by omega⟩
    have nonzero : 10 ^ (n + 1) ≠ 0 := (Nat.pow_pos (by decide)).ne'
    have tenth : 10 ^ (n + 1) / 10 = 10 ^ n := by
      rw [Nat.pow_succ, Nat.mul_div_cancel _ (by decide)]
    have rest := ih (by omega : n + 1 < fuel) (v % 10 ^ (n + 1))
    rw [putDigits, if_pos nonzero, quotient, if_neg nonzero, tenth, rest]
    rfl

/-! ## Decimal numerals -/

/-- The characters of a string of ASCII characters. -/
def ascii (s : String) : List UInt8 := s.toList.map fun c => .ofNat c.toNat

/-- The digit that a character stands for. -/
def digitValue (c : UInt8) : Nat := if c < 58 then c.toNat - 48 else c.toNat - 55

/-- Reading an unsigned numeral in base `b`. -/
def readNumeral (b : Nat) (cs : List UInt8) : Nat := value b (cs.map digitValue)

/-- Reading a decimal numeral with a sign. -/
def readInt : List UInt8 → Int
  | 45 :: cs => -readNumeral 10 cs
  | cs => readNumeral 10 cs

theorem digitChar_eq {d : Nat} (h : d < 10) : digitChar d = .ofNat (Nat.digitChar d).toNat := by
  revert d
  decide

theorem digitValue_digitChar {d : Nat} (h : d < 10) :
    digitValue (.ofNat (Nat.digitChar d).toNat) = d := by
  revert d
  decide

theorem value_append (b : Nat) (ds : List Nat) (d : Nat) :
    value b (ds ++ [d]) = value b ds * b + d := by
  simp [value]

theorem readNumeral_toString (n : Nat) : readNumeral 10 (ascii (toString n)) = n := by
  have digits : readNumeral 10 ((Nat.toDigits 10 n).map fun c => .ofNat c.toNat) = n := by
    induction n using Nat.strongRecOn with
    | ind n ih =>
      unfold readNumeral at ih ⊢
      rw [Nat.toDigits_eq_if (by decide)]
      split
      · next small => simp [value, digitValue_digitChar small]
      · next big =>
        rw [List.map_append, List.map_append, List.map_singleton, List.map_singleton, value_append,
          ih (n / 10) (by omega), digitValue_digitChar (Nat.mod_lt n (by decide))]
        omega
  unfold ascii
  rwa [Nat.toString_eq_repr, Nat.toList_repr]

/-- The two loops print the numeral. -/
theorem decimal_run {v n : Nat} (pos : 0 < v) (lt : v < 10 ^ (n + 1)) (small : n + 1 < 64) :
    ∃ mod, shrinkMod v 64 (10 ^ n) = .ok mod ∧ putDigits 64 v mod = .ok (ascii (toString v)) := by
  obtain ⟨m, lo, hi, le, run⟩ := shrinkMod_run pos lt (by omega : n < 64)
  refine ⟨10 ^ m, run, ?_⟩
  rw [putDigits_run (by omega), ascii, Nat.toString_eq_repr, Nat.toList_repr,
    ← places_toDigits (by decide) lo hi, List.map_map]
  refine congrArg Except.ok (List.map_congr_left fun d hd => ?_)
  exact digitChar_eq (places_lt (by decide) hi d hd)

theorem printU64_run (v : UInt64) : printU64 v = .ok (ascii (toString v.toNat)) := by
  have lt := v.toNat_lt
  unfold printU64
  by_cases zero : v.toNat = 0
  · simp only [zero, ↓reduceIte]
    rfl
  · obtain ⟨mod, shrink, digits⟩ := decimal_run (n := 19) (Nat.pos_of_ne_zero zero) (by omega)
      (by decide)
    simp only [zero, ↓reduceIte]
    show (shrinkMod v.toNat 64 (10 ^ 19) >>= fun mod => putDigits 64 v.toNat mod) = _
    rw [shrink]
    exact digits

/-! ## Signed numbers -/

theorem u32_lt (x : Int) : u32 x < 2 ^ 32 := by
  unfold u32
  omega

theorem u32_toI32 (x : Int) : u32 (toI32 x) = u32 x := by
  unfold u32 toI32
  rw [show (2 ^ 32 : Int) = ((2 ^ 32 : Nat) : Int) by rfl, Int.bmod_emod]

theorem u32_natCast {n : Nat} (h : n < 2 ^ 32) : u32 n = n := by
  unfold u32
  omega

/-- The loop of `__print_i32` is that of `__print_u64`. -/
theorem putDigitsI32_eq (fuel : Nat) (var : Int) (mod : Nat) :
    putDigitsI32 fuel var mod = putDigits fuel (u32 var) mod := by
  induction fuel generalizing var mod with
  | zero => rfl
  | succ fuel ih =>
    have small : u32 var % mod < 2 ^ 32 := (Nat.mod_le _ _).trans_lt (u32_lt var)
    simp only [putDigitsI32, putDigits, ih, u32_toI32, u32_natCast small]

theorem sign_bit {x : Int} (lo : -2 ^ 31 ≤ x) (hi : x < 2 ^ 31) :
    (u32 x).testBit 31 = decide (x < 0) := by
  rw [Nat.testBit_eq_decide_div_mod_eq, decide_eq_decide]
  unfold u32
  omega

/-- `~var + 1` is the absolute value of a negative `i32`, as a `u32`. -/
theorem u32_negated {x : Int} (lo : -2 ^ 31 ≤ x) (neg : x < 0) :
    u32 (toI32 (toI32 (-x - 1) + 1)) = x.natAbs := by
  rw [u32_toI32, toI32_eq (x := -x - 1) (by omega) (by omega)]
  unfold u32
  omega

theorem toString_nonneg {x : Int} (nonneg : 0 ≤ x) : toString x = toString x.natAbs := by
  rw [Int.toString_eq_repr, Int.repr_eq_if, if_pos nonneg, Nat.toString_eq_repr]
  congr 1
  omega

theorem ascii_neg {x : Int} (neg : x < 0) :
    ascii (toString x) = 45 :: ascii (toString x.natAbs) := by
  have abs : (-x).toNat = x.natAbs := by omega
  rw [Int.toString_eq_repr, Int.repr_eq_if, if_neg (by omega), abs, Nat.toString_eq_repr]
  simp [ascii]

theorem decimal_runI32 {x : Int} (pos : 0 < u32 x) : ∃ mod,
    shrinkMod (u32 x) 64 1000000000 = .ok mod ∧
      putDigitsI32 64 x mod = .ok (ascii (toString (u32 x))) := by
  have lt := u32_lt x
  obtain ⟨mod, shrink, digits⟩ := decimal_run (n := 9) pos (by omega) (by decide)
  exact ⟨mod, shrink, (putDigitsI32_eq 64 x mod).trans digits⟩

theorem printI32_run (v : Int32) : printI32 v = .ok (ascii (toString v.toInt)) := by
  have lo : -2 ^ 31 ≤ v.toInt := v.le_toInt
  have hi : v.toInt < 2 ^ 31 := v.toInt_lt
  unfold printI32
  generalize v.toInt = x at lo hi ⊢
  by_cases zero : x = 0
  · simp only [zero, ↓reduceIte]
    rfl
  by_cases neg : x < 0
  · have abs := u32_negated lo neg
    obtain ⟨mod, shrink, digits⟩ := decimal_runI32 (x := toI32 (toI32 (-x - 1) + 1)) (by omega)
    simp only [zero, ↓reduceIte, sign_bit lo hi, neg, decide_true]
    show (shrinkMod (u32 (toI32 (toI32 (-x - 1) + 1))) 64 1000000000 >>= fun mod =>
      putDigitsI32 64 (toI32 (toI32 (-x - 1) + 1)) mod >>= fun cs => .ok ([45] ++ cs)) = _
    rw [shrink]
    show (putDigitsI32 64 (toI32 (toI32 (-x - 1) + 1)) mod >>= fun cs => .ok ([45] ++ cs)) = _
    rw [digits, abs, ascii_neg neg]
    rfl
  · have abs : u32 x = x.natAbs := by
      unfold u32
      omega
    obtain ⟨mod, shrink, digits⟩ := decimal_runI32 (x := x) (by omega)
    simp only [zero, ↓reduceIte, sign_bit lo hi, neg, decide_false, Bool.false_eq_true]
    show (shrinkMod (u32 x) 64 1000000000 >>= fun mod =>
      putDigitsI32 64 x mod >>= fun cs => .ok ([] ++ cs)) = _
    rw [shrink]
    show (putDigitsI32 64 x mod >>= fun cs => .ok ([] ++ cs)) = _
    rw [digits, abs, toString_nonneg (by omega)]
    rfl

theorem readInt_unsigned {cs : List UInt8} (h : ∀ c ∈ cs, c ≠ 45) :
    readInt cs = readNumeral 10 cs := by
  unfold readInt
  split
  · next cs => exact absurd rfl (h 45 List.mem_cons_self)
  · rfl

/-- A numeral has digits only. -/
theorem ascii_digits (n : Nat) : ∀ c ∈ ascii (toString n), c ≠ 45 := by
  unfold ascii
  rw [Nat.toString_eq_repr, Nat.toList_repr]
  intro c hc
  obtain ⟨d, hd, rfl⟩ := List.mem_map.mp hc
  have digit := Nat.isDigit_of_mem_toDigits (by decide) (by decide) hd
  simp only [Char.isDigit, Bool.and_eq_true, decide_eq_true_eq] at digit
  have lo : 48 ≤ d.toNat := digit.1
  have hi : d.toNat ≤ 57 := digit.2
  intro same
  have val := congrArg UInt8.toNat same
  rw [UInt8.toNat_ofNat'] at val
  have minus : (45 : UInt8).toNat = 45 := rfl
  omega

theorem readInt_toString (x : Int) : readInt (ascii (toString x)) = x := by
  by_cases neg : x < 0
  · have back := readNumeral_toString x.natAbs
    rw [ascii_neg neg]
    show -(readNumeral 10 (ascii (toString x.natAbs)) : Int) = x
    omega
  · have back := readNumeral_toString x.natAbs
    rw [toString_nonneg (by omega), readInt_unsigned (ascii_digits _)]
    omega

/-! ## Hexadecimal digits -/

/-- The character of a hexadecimal digit. -/
def hexDigit (d : Nat) : UInt8 := hexTable.getD d 0

theorem hexChar_run {d : Nat} (h : d < 16) :
    hexChar d = .ok (hexDigit d) ∧ hexDigit d ∈ hexTable ∧ digitValue (hexDigit d) = d := by
  revert d
  decide

theorem putHex_run {n : Nat} {fuel : Nat} (enough : n + 1 < fuel) {v : Nat}
    (lt : v < 16 ^ (n + 1)) :
    putHex fuel v (16 ^ n) = .ok ((places 16 (n + 1) v).map hexDigit) := by
  induction n generalizing fuel v with
  | zero =>
    obtain ⟨fuel, rfl⟩ : ∃ f, fuel = f + 2 := ⟨fuel - 2, by omega⟩
    have digit : v / 16 ^ 0 < 16 := by simpa using lt
    rw [putHex, if_pos (by decide), quotient, if_neg (by decide)]
    show (hexChar (v / 16 ^ 0) >>= fun c => _) = _
    rw [(hexChar_run digit).1]
    rfl
  | succ n ih =>
    obtain ⟨fuel, rfl⟩ : ∃ f, fuel = f + 1 := ⟨fuel - 1, by omega⟩
    have pos : 0 < 16 ^ (n + 1) := Nat.pow_pos (by decide)
    have next : 16 ^ (n + 1) >>> 4 = 16 ^ n := by
      rw [Nat.shiftRight_eq_div_pow, Nat.pow_succ]
      exact Nat.mul_div_cancel _ (by decide)
    have digit : v / 16 ^ (n + 1) < 16 := by
      rw [Nat.div_lt_iff_lt_mul pos, ← Nat.pow_succ']
      exact lt
    have rest := ih (by omega : n + 1 < fuel) (Nat.mod_lt v pos)
    rw [putHex, if_pos pos.ne', quotient, if_neg pos.ne', next, rest]
    show (hexChar (v / 16 ^ (n + 1)) >>= fun c => _) = _
    rw [(hexChar_run digit).1]
    rfl

theorem hex_run {n v : Nat} (lt : v < 16 ^ (n + 1)) (small : n + 1 < 64) :
    ∃ cs, putHex 64 v (16 ^ n) = .ok cs ∧ cs.length = n + 1 ∧ (∀ c ∈ cs, c ∈ hexTable) ∧
      readNumeral 16 cs = v := by
  have digits := places_lt (by decide) lt
  refine ⟨_, putHex_run small lt, by simp, fun c hc => ?_, ?_⟩
  · obtain ⟨d, hd, rfl⟩ := List.mem_map.mp hc
    exact (hexChar_run (digits d hd)).2.1
  · have values : ((places 16 (n + 1) v).map hexDigit).map digitValue = places 16 (n + 1) v := by
      rw [List.map_map]
      exact (List.map_congr_left fun d hd => (hexChar_run (digits d hd)).2.2).trans
        (List.map_id _)
    unfold readNumeral
    rw [values, value_places (by decide) lt]

/-- **Numbers.** The characters printed are the decimal numeral, or 16 or 8 hexadecimal
digits, and reading them back gives the number. -/
theorem numbers_printed :
    (∀ v : UInt64, printU64 v = .ok (ascii (toString v.toNat)) ∧
      readNumeral 10 (ascii (toString v.toNat)) = v.toNat) ∧
    (∀ v : Int32, printI32 v = .ok (ascii (toString v.toInt)) ∧
      readInt (ascii (toString v.toInt)) = v.toInt) ∧
    (∀ v : UInt64, ∃ cs, printH64 v = .ok cs ∧ cs.length = 16 ∧ (∀ c ∈ cs, c ∈ hexTable) ∧
      readNumeral 16 cs = v.toNat) ∧
    ∀ v : UInt32, ∃ cs, printH32 v = .ok cs ∧ cs.length = 8 ∧ (∀ c ∈ cs, c ∈ hexTable) ∧
      readNumeral 16 cs = v.toNat :=
  ⟨fun v => ⟨printU64_run v, readNumeral_toString v.toNat⟩,
    fun v => ⟨printI32_run v, readInt_toString v.toInt⟩,
    fun v => hex_run (n := 15) v.toNat_lt (by decide),
    fun v => hex_run (n := 7) v.toNat_lt (by decide)⟩

end RiscvKernel
