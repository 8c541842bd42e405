import Mathlib.Data.Nat.Log
import RiscvKernel.Print

/-!
# Printing and reading numbers in the tests (`printing.cpp`)

* `printInt`: the digits go into a buffer of 16 characters, the last one first;
* `printInt_exact`: the numeral in every base from 2 to 16, and when it fits the buffer;
* `stringToInt_reads`: a decimal numeral is read back.
-/

namespace RiscvKernel
open Positional

/-- The length of `buf`. -/
abbrev printBufSize : Nat := 16

/-- `digits`, with the zero at the end of the string. -/
def digitTable : List UInt8 := hexTable ++ [0]

/-- `digits[i]` -/
def digitAt (i : Nat) : Except PrintFault UInt8 :=
  match digitTable[i]? with
  | some c => .ok c
  | none => .error .outOfTable

/-- `a % b` -/
def remainder (a b : Nat) : Except PrintFault Nat :=
  if b = 0 then .error .divByZero else .ok (a % b)

/-- `do buf[i++] = digits[x % base]; while((x /= base) != 0);`, for at most `fuel` rounds. -/
def printIntLoop (base : Nat) : Nat → Nat → Except PrintFault (List UInt8)
  | 0, _ => throw .stuck
  | fuel + 1, x => do
    let c ← digitAt (← remainder x base)
    let x ← quotient x base
    if x ≠ 0 then
      return c :: (← printIntLoop base fuel x)
    else
      return [c]

/-- `neg` -/
def printNeg (xx sgn : Int32) : Bool := sgn.toInt ≠ 0 && xx.toInt < 0

/-- `x`; the negation wraps around for the smallest `int`. -/
def printAbs (xx sgn : Int32) : Nat :=
  if printNeg xx sgn then u32 (toI32 (-xx.toInt)) else u32 xx.toInt

/-- What `printInt` stores in `buf`, in order. -/
def printIntBuf (xx base sgn : Int32) : Except PrintFault (List UInt8) := do
  let buf ← printIntLoop (u32 base.toInt) 64 (printAbs xx sgn)
  return if printNeg xx sgn then buf ++ [45] else buf

/-- `printInt`: the characters it passes to `putc`. -/
def printInt (xx base sgn : Int32) : Except PrintFault (List UInt8) := do
  return (← printIntBuf xx base sgn).reverse

/-- The loop of `stringToInt`; the string ends with the list. -/
def stringToIntFrom (n : Int) : List UInt8 → Int
  | [] => n
  | c :: s => if 48 ≤ c ∧ c ≤ 57 then stringToIntFrom (toI32 (n * 10 + c.toNat - 48)) s else n

def stringToInt (s : List UInt8) : Int := stringToIntFrom 0 s

/-! ## Numerals -/

/-- The numeral of `x` in base `b`. -/
def numeral (b x : Nat) : List UInt8 := (places b (Nat.log b x + 1) x).map hexDigit

section
variable {b x : Nat}

@[simp] theorem numeral_length (b x : Nat) : (numeral b x).length = Nat.log b x + 1 := by
  simp [numeral]

theorem numeral_fits (base : 1 < b) {n : Nat} (pos : 0 < n) :
    (numeral b x).length ≤ n ↔ x < b ^ n := by
  rw [numeral_length, Nat.succ_le_iff]
  exact ⟨Nat.lt_pow_of_log_lt base, Nat.log_lt_of_lt_pow' pos.ne'⟩

theorem numeral_digits (base : 1 < b) (small : b ≤ 16) :
    ∀ d ∈ places b (Nat.log b x + 1) x, d < 16 := fun d hd =>
  (places_lt (by omega) (Nat.lt_pow_succ_log_self base x) d hd).trans_le small

theorem readNumeral_numeral (base : 1 < b) (small : b ≤ 16) : readNumeral b (numeral b x) = x := by
  have values : (numeral b x).map digitValue = places b (Nat.log b x + 1) x := by
    unfold numeral
    rw [List.map_map]
    apply (List.map_congr_left _).trans (List.map_id _)
    exact fun d hd => (hexChar_run (numeral_digits base small d hd)).2.2
  unfold readNumeral
  rw [values]
  exact value_places (by omega) (Nat.lt_pow_succ_log_self base x)

theorem digitAt_run {d : Nat} (h : d < 16) : digitAt d = .ok (hexDigit d) := by
  revert d
  decide

theorem numeral_step (base : 1 < b) (more : b ≤ x) :
    numeral b x = numeral b (x / b) ++ [hexDigit (x % b)] := by
  have log : Nat.log b x = Nat.log b (x / b) + 1 := Nat.log_of_one_lt_of_le base more
  have lt : x < b ^ (Nat.log b (x / b) + 1 + 1) := log ▸ Nat.lt_pow_succ_log_self base x
  unfold numeral
  rw [log, places_last lt, List.map_append]
  rfl

theorem numeral_small (h : x < b) : numeral b x = [hexDigit x] := by
  unfold numeral
  rw [Nat.log_of_lt h]
  simp [places]

/-- The loop stores the digits from the last one. -/
theorem printIntLoop_run (base : 1 < b) (small : b ≤ 16) {fuel : Nat}
    (enough : Nat.log b x < fuel) : printIntLoop b fuel x = .ok (numeral b x).reverse := by
  induction fuel generalizing x with
  | zero => exact absurd enough (Nat.not_lt_zero _)
  | succ fuel ih =>
    have nonzero : b ≠ 0 := by omega
    have digit := digitAt_run ((Nat.mod_lt x (by omega : 0 < b)).trans_le small)
    rw [printIntLoop, remainder, if_neg nonzero, quotient, if_neg nonzero]
    show (digitAt (x % b) >>= fun c => if x / b ≠ 0 then _ else _) = _
    rw [digit]
    by_cases more : b ≤ x
    · have some : x / b ≠ 0 := (Nat.div_pos more (by omega)).ne'
      have log : Nat.log b x = Nat.log b (x / b) + 1 := Nat.log_of_one_lt_of_le base more
      have rest := ih (x := x / b) (by omega)
      show (if x / b ≠ 0 then _ else _) = _
      rw [if_pos some, rest, numeral_step base more, List.reverse_append]
      rfl
    · have none : x / b = 0 := Nat.div_eq_of_lt (by omega)
      show (if x / b ≠ 0 then _ else _) = _
      rw [if_neg (not_not.mpr none), numeral_small (by omega), Nat.mod_eq_of_lt (by omega)]
      rfl

theorem numeral_ten (x : Nat) : numeral 10 x = ascii (toString x) := by
  have digits : (places 10 (Nat.log 10 x + 1) x).map Nat.digitChar = Nat.toDigits 10 x := by
    by_cases zero : x = 0
    · subst zero
      decide
    · exact places_toDigits (by decide) (Nat.pow_log_le_self 10 zero)
        (Nat.lt_pow_succ_log_self (by decide) x)
  have same : ∀ d < 10, hexDigit d = .ofNat (Nat.digitChar d).toNat := by decide
  unfold numeral ascii
  rw [Nat.toString_eq_repr, Nat.toList_repr, ← digits, List.map_map]
  apply List.map_congr_left
  exact fun d hd => same d (places_lt (by decide) (Nat.lt_pow_succ_log_self (by decide) x) d hd)

end

/-! ## `printInt` -/

/-- The number that `printInt` prints after the sign. -/
def printedNat (xx sgn : Int32) : Nat :=
  if printNeg xx sgn then xx.toInt.natAbs else (xx.toInt % 2 ^ 32).toNat

def printedSign (xx sgn : Int32) : List UInt8 := if printNeg xx sgn then [45] else []

theorem printAbs_eq (xx sgn : Int32) : printAbs xx sgn = printedNat xx sgn := by
  have lo : -2 ^ 31 ≤ xx.toInt := xx.le_toInt
  have hi : xx.toInt < 2 ^ 31 := xx.toInt_lt
  unfold printAbs printedNat
  split
  · next neg =>
    have below : xx.toInt < 0 := by
      unfold printNeg at neg
      simpa using (Bool.and_eq_true_iff.mp neg).2
    rw [u32_toI32]
    unfold u32
    omega
  · rfl

theorem printedNat_lt (xx sgn : Int32) : printedNat xx sgn < 2 ^ 32 := by
  rw [← printAbs_eq]
  unfold printAbs
  split <;> exact u32_lt _

/-- The digits are stored last first, and the sign behind them. -/
theorem printInt_stored (n : List UInt8) (xx sgn : Int32) :
    (n.reverse ++ printedSign xx sgn).reverse = printedSign xx sgn ++ n := by
  have sign : (printedSign xx sgn).reverse = printedSign xx sgn := by
    unfold printedSign
    split <;> rfl
  rw [List.reverse_append, List.reverse_reverse, sign]

section
variable (xx sgn : Int32) {base : Int32} (lo : 2 ≤ base.toInt) (hi : base.toInt ≤ 16)
include lo hi

theorem printIntBuf_run : printIntBuf xx base sgn =
    .ok ((numeral base.toInt.toNat (printedNat xx sgn)).reverse ++ printedSign xx sgn) := by
  have word : u32 base.toInt = base.toInt.toNat := by
    unfold u32
    omega
  have two : 1 < base.toInt.toNat := by omega
  have few : Nat.log base.toInt.toNat (printedNat xx sgn) < 64 := by
    apply Nat.log_lt_of_lt_pow' (by decide)
    calc printedNat xx sgn < 2 ^ 32 := printedNat_lt xx sgn
      _ ≤ 2 ^ 64 := by decide
      _ ≤ base.toInt.toNat ^ 64 := Nat.pow_le_pow_left two 64
  unfold printIntBuf
  rw [word, printAbs_eq, printIntLoop_run two (by omega) few]
  show Except.ok (if printNeg xx sgn then _ else _) = _
  unfold printedSign
  split
  · rfl
  · rw [List.append_nil]

theorem printInt_run : printInt xx base sgn =
    .ok (printedSign xx sgn ++ numeral base.toInt.toNat (printedNat xx sgn)) := by
  unfold printInt
  rw [printIntBuf_run xx sgn lo hi, ← printInt_stored]
  rfl

end

/-- **Numbers of the tests.** In a base from 2 to 16 `printInt` stores the numeral with its sign,
and prints it when it fits. It stays within its buffer exactly when the numeral and the sign have
at most 16 characters, which in base 5 and above they have. -/
theorem printInt_exact (xx sgn : Int32) {base : Int32} (lo : 2 ≤ base.toInt)
    (hi : base.toInt ≤ 16) : ∃ buf, printIntBuf xx base sgn = .ok buf ∧
      buf.reverse = printedSign xx sgn ++ numeral base.toInt.toNat (printedNat xx sgn) ∧
      (buf.length ≤ printBufSize → printInt xx base sgn = .ok buf.reverse) ∧
      readNumeral base.toInt.toNat (numeral base.toInt.toNat (printedNat xx sgn)) =
        printedNat xx sgn ∧
      (buf.length ≤ printBufSize ↔
        printedNat xx sgn < base.toInt.toNat ^ (if printNeg xx sgn then 15 else 16)) ∧
      (5 ≤ base.toInt → buf.length ≤ printBufSize) := by
  have two : 1 < base.toInt.toNat := by omega
  have fits : ((numeral base.toInt.toNat (printedNat xx sgn)).reverse ++
      printedSign xx sgn).length ≤ printBufSize ↔
        printedNat xx sgn < base.toInt.toNat ^ (if printNeg xx sgn then 15 else 16) := by
    rw [List.length_append, List.length_reverse]
    unfold printedSign
    split
    · rw [List.length_singleton, ← numeral_fits two]
      · exact Nat.succ_le_succ_iff
      · decide
    · rw [List.length_nil, Nat.add_zero, ← numeral_fits two (by decide)]
  have reversed := printInt_stored (numeral base.toInt.toNat (printedNat xx sgn)) xx sgn
  refine ⟨_, printIntBuf_run xx sgn lo hi, reversed, fun _ => ?_, ?_, fits, ?_⟩
  · rw [printInt_run xx sgn lo hi, reversed]
  · exact readNumeral_numeral two (by omega)
  · intro five
    apply fits.mpr
    calc printedNat xx sgn < 2 ^ 32 := printedNat_lt xx sgn
      _ ≤ 5 ^ 15 := by decide
      _ ≤ base.toInt.toNat ^ 15 := Nat.pow_le_pow_left (by omega) 15
      _ ≤ base.toInt.toNat ^ (if printNeg xx sgn then 15 else 16) := by
        apply Nat.pow_le_pow_right (by omega)
        split <;> decide

/-- In base 2 a number of 16 bits fits and is printed, and the sign of one does not fit. -/
theorem printInt_exact_small : ∃ buf buf',
    printIntBuf 65535 2 0 = .ok buf ∧ printInt 65535 2 0 = .ok buf.reverse ∧
    printIntBuf (-65535) 2 1 = .ok buf' ∧ ¬ buf'.length ≤ printBufSize := by
  obtain ⟨buf, stored, -, prints, -, fits, -⟩ := @printInt_exact 65535 0 2 (by decide) (by decide)
  obtain ⟨buf', stored', -, -, -, fits', -⟩ :=
    @printInt_exact (-65535) 1 2 (by decide) (by decide)
  exact ⟨buf, buf', stored, prints (fits.mpr (by decide)), stored', fits'.not.mpr (by decide)⟩

/-! ## `stringToInt` -/

theorem le_value_from (ds : List Nat) (a : Nat) : a ≤ ds.foldl (fun a d => a * 10 + d) a := by
  rw [value_from]
  calc a ≤ a * 10 ^ ds.length := Nat.le_mul_of_pos_right a (Nat.pow_pos (by decide))
    _ ≤ _ := Nat.le_add_right ..

theorem hexDigit_decimal :
    ∀ d < 10, 48 ≤ hexDigit d ∧ hexDigit d ≤ 57 ∧ (hexDigit d).toNat = 48 + d := by
  decide

theorem stringToIntFrom_run {ds : List Nat} (digits : ∀ d ∈ ds, d < 10) {rest : List UInt8}
    (stops : ∀ c ∈ rest.head?, ¬ (48 ≤ c ∧ c ≤ 57)) {n : Nat}
    (small : ds.foldl (fun a d => a * 10 + d) n < 2 ^ 31) :
    stringToIntFrom n (ds.map hexDigit ++ rest) = ds.foldl (fun a d => a * 10 + d) n := by
  induction ds generalizing n with
  | nil =>
    cases rest with
    | nil => rfl
    | cons c rest => exact if_neg (stops c rfl)
  | cons d ds ih =>
    have char := hexDigit_decimal d (digits d List.mem_cons_self)
    have next : stringToIntFrom n (hexDigit d :: (ds.map hexDigit ++ rest)) =
        stringToIntFrom (toI32 (n * 10 + (hexDigit d).toNat - 48)) (ds.map hexDigit ++ rest) :=
      if_pos ⟨char.1, char.2.1⟩
    have le := le_value_from ds (n * 10 + d)
    rw [List.foldl_cons] at small
    have value : toI32 (n * 10 + (hexDigit d).toNat - 48) = (n * 10 + d : Nat) := by
      rw [char.2.2, toI32_eq] <;> omega
    rw [List.map_cons, List.cons_append, next, value, List.foldl_cons]
    exact ih (fun d hd => digits d (List.mem_cons_of_mem _ hd)) small

/-- **Reading back.** `stringToInt` reads what `printInt` prints for a number that is not
negative, up to the first character that is no digit. -/
theorem stringToInt_reads (xx sgn : Int32) (nonneg : 0 ≤ xx.toInt) {rest : List UInt8}
    (stops : ∀ c ∈ rest.head?, ¬ (48 ≤ c ∧ c ≤ 57)) : ∃ cs, printInt xx 10 sgn = .ok cs ∧
      cs = ascii (toString xx.toInt) ∧ stringToInt (cs ++ rest) = xx.toInt := by
  have lo : xx.toInt < 2 ^ 31 := xx.toInt_lt
  have plain : printNeg xx sgn = false := by
    unfold printNeg
    rw [decide_eq_false (by omega : ¬ xx.toInt < 0), Bool.and_false]
  have same : printedNat xx sgn = xx.toInt.natAbs := by
    unfold printedNat
    rw [plain, if_neg Bool.false_ne_true]
    omega
  have printed : printInt xx 10 sgn = .ok (numeral 10 xx.toInt.natAbs) := by
    apply (@printInt_run xx sgn 10 (by decide) (by decide)).trans
    unfold printedSign
    rw [same, plain, if_neg Bool.false_ne_true]
    rfl
  have log : xx.toInt.natAbs < 10 ^ (Nat.log 10 xx.toInt.natAbs + 1) :=
    Nat.lt_pow_succ_log_self (by decide) _
  have value : value 10 (places 10 (Nat.log 10 xx.toInt.natAbs + 1) xx.toInt.natAbs) =
      xx.toInt.natAbs := value_places (by decide) log
  refine ⟨_, printed, ?_, ?_⟩
  · rw [toString_nonneg nonneg, numeral_ten]
  · have read := stringToIntFrom_run (places_lt (by decide) log) stops (n := 0)
      (by
        show Positional.value 10 _ < _
        omega)
    refine read.trans ?_
    show ((Positional.value 10 _ : Nat) : Int) = _
    omega

theorem stringToInt_reads_small : ∃ cs, printInt 1234 10 1 = .ok cs ∧
    stringToInt (cs ++ ascii " 5") = 1234 := by
  obtain ⟨cs, printed, -, read⟩ := @stringToInt_reads 1234 1 (by decide) (ascii " 5")
    (by
      intro c blank
      obtain rfl : 32 = c := Option.some.inj blank
      decide)
  exact ⟨cs, printed, read⟩

end RiscvKernel
