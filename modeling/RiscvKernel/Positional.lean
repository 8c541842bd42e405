import Mathlib.Data.Nat.Basic
import Mathlib.Tactic.Ring

/-!
# Positional numerals

The digits of a number from the most significant one down.

* `places`: a fixed number of digits;
* `value`: what digits stand for;
* `value_places`: reading the digits back gives the number;
* `places_toDigits`: without leading zeros they are the usual numeral.
-/

namespace Positional

/-- The digits of `v` at the `n` last places in base `b`. -/
def places (b : Nat) : Nat → Nat → List Nat
  | 0, _ => []
  | n + 1, v => v / b ^ n :: places b n (v % b ^ n)

/-- The number that digits stand for. -/
def value (b : Nat) (ds : List Nat) : Nat := ds.foldl (fun a d => a * b + d) 0

variable {b : Nat}

theorem value_from (b : Nat) (ds : List Nat) (a : Nat) :
    ds.foldl (fun a d => a * b + d) a = a * b ^ ds.length + value b ds := by
  induction ds generalizing a with
  | nil => simp [value]
  | cons d ds ih =>
    unfold value
    rw [List.foldl_cons, List.foldl_cons, ih, ih (0 * b + d), List.length_cons]
    ring

theorem value_cons (b d : Nat) (ds : List Nat) :
    value b (d :: ds) = d * b ^ ds.length + value b ds := by
  have step : value b (d :: ds) = (0 * b + d) * b ^ ds.length + value b ds :=
    value_from b ds (0 * b + d)
  rwa [Nat.zero_mul, Nat.zero_add] at step

@[simp] theorem places_length (b n v : Nat) : (places b n v).length = n := by
  induction n generalizing v with
  | zero => rfl
  | succ n ih => simp [places, ih]

theorem places_lt (pos : 0 < b) {n v : Nat} (h : v < b ^ n) : ∀ d ∈ places b n v, d < b := by
  induction n generalizing v with
  | zero => simp [places]
  | succ n ih =>
    intro d hd
    rcases List.mem_cons.mp hd with rfl | hd
    · rw [Nat.div_lt_iff_lt_mul (Nat.pow_pos pos), ← Nat.pow_succ']
      exact h
    · exact ih (Nat.mod_lt _ (Nat.pow_pos pos)) d hd

/-- **Reading back.** -/
theorem value_places (pos : 0 < b) {n v : Nat} (h : v < b ^ n) : value b (places b n v) = v := by
  induction n generalizing v with
  | zero =>
    have : v = 0 := by simpa using h
    rw [this]
    rfl
  | succ n ih =>
    rw [places, value_cons, places_length, ih (Nat.mod_lt _ (Nat.pow_pos pos)), Nat.mul_comm]
    exact Nat.div_add_mod v (b ^ n)

/-- The last digit. -/
theorem places_last {n v : Nat} (h : v < b ^ (n + 1)) :
    places b (n + 1) v = places b n (v / b) ++ [v % b] := by
  induction n generalizing v with
  | zero =>
    have : v < b := by simpa using h
    simp [places, Nat.mod_eq_of_lt this]
  | succ n ih =>
    have pos : 0 < b ^ (n + 1) := by
      refine Nat.pos_of_ne_zero fun zero => ?_
      rw [Nat.pow_succ, zero, Nat.zero_mul] at h
      exact Nat.not_lt_zero v h
    have last := ih (Nat.mod_lt v pos)
    have high : v / b ^ (n + 1) = v / b / b ^ n := by
      rw [Nat.div_div_eq_div_mul, Nat.pow_succ']
    have low : v % b ^ (n + 1) / b = v / b % b ^ n := by
      rw [Nat.pow_succ']
      exact Nat.mod_mul_right_div_self v b (b ^ n)
    have digit : v % b ^ (n + 1) % b = v % b :=
      Nat.mod_mod_of_dvd v ⟨b ^ n, Nat.pow_succ'⟩
    rw [places, last, low, digit, high]
    rfl

/-- **Canonical numerals.** -/
theorem places_toDigits (base : 1 < b) {n v : Nat} (lo : b ^ n ≤ v) (hi : v < b ^ (n + 1)) :
    (places b (n + 1) v).map Nat.digitChar = Nat.toDigits b v := by
  induction n generalizing v with
  | zero =>
    have : v < b := by simpa using hi
    simp [places, Nat.toDigits_of_lt_base this]
  | succ n ih =>
    have big : b ≤ v := le_trans (Nat.le_self_pow (Nat.succ_ne_zero n) b) lo
    have lo' : b ^ n ≤ v / b := by
      rw [Nat.le_div_iff_mul_le (by omega), ← Nat.pow_succ]
      exact lo
    have hi' : v / b < b ^ (n + 1) := by
      rw [Nat.div_lt_iff_lt_mul (by omega), ← Nat.pow_succ]
      exact hi
    rw [places_last hi, List.map_append, ih lo' hi', Nat.toDigits_of_base_le base big]
    rfl

end Positional
