import Mathlib.Data.List.Basic
import SchedulingNoise.Number.Quantity

namespace SchedulingNoise

namespace Decimal

theorem isDigit_of_mem {n : Nat} {c : Char} (h : c ∈ ofNat n) : c.isDigit = true :=
  Nat.isDigit_of_mem_toDigits (by decide) (by decide) h

theorem mem_ofInt {n : Int} {c : Char} (h : c ∈ ofInt n) : c = '-' ∨ c.isDigit = true := by
  unfold ofInt at h
  split at h
  · exact (List.mem_cons.mp h).imp_right isDigit_of_mem
  · exact .inr (isDigit_of_mem h)

theorem exists_first (n : Nat) : ∃ c more, ofNat n = c :: more ∧ c.isDigit = true := by
  have some : ofNat n ≠ [] := Nat.toDigits_ne_nil
  obtain ⟨c, more, eq⟩ := List.exists_cons_of_ne_nil some
  exact ⟨c, more, eq, isDigit_of_mem (eq ▸ List.mem_cons_self)⟩

theorem head?_ofNat {n : Nat} (positive : 0 < n) : (ofNat n).head? ≠ some '0' := by
  unfold ofNat
  induction n using Nat.strongRecOn with
  | ind n ih =>
    by_cases small : n < 10
    · rw [Nat.toDigits_of_lt_base small]
      have digits : ∀ d < 10, 0 < d → [d.digitChar].head? ≠ some '0' := by decide
      exact digits n small positive
    · rw [Nat.toDigits_of_base_le (by decide) (Nat.le_of_not_lt small),
        List.head?_append_of_ne_nil _ Nat.toDigits_ne_nil]
      exact ih (n / 10) (by omega) (by omega)

def Short (n : Int) : Prop := (ofNat n.natAbs).length ≤ digitLimit

instance (n : Int) : Decidable (Short n) := inferInstanceAs (Decidable (_ ≤ _))

theorem isShort_iff {n : Int} : isShort n = true ↔ Short n := decide_eq_true_iff

theorem Short.of_le {m n : Int} (short : Short n) (counted : 0 ≤ m) (le : m ≤ n) : Short m := by
  have below := (Nat.length_toDigits_le_iff (by decide) (by decide)).mp short
  exact (Nat.length_toDigits_le_iff (by decide) (by decide)).mpr
    (Nat.lt_of_le_of_lt (by omega : m.natAbs ≤ n.natAbs) below)

theorem write?_eq_some {n : Int} {t : Text} : write? n = some t ↔ Short n ∧ t = ofInt n := by
  unfold write?
  by_cases short : Short n
  · rw [if_pos (isShort_iff.mpr short), Option.some.injEq, eq_comm]
    exact (and_iff_right short).symm
  · rw [if_neg fun h => short (isShort_iff.mp h)]
    exact ⟨nofun, fun h => absurd h.1 short⟩

theorem Short.read {n : Nat} (short : Short n) : read (ofNat n) = .ok n := by
  have few : ¬ digitLimit < (ofNat n).length := Nat.not_lt.mpr short
  have value : value (ofNat n) = n := Nat.ofDigitChars_ten_toDigits
  rw [Decimal.read, if_neg few, value]

theorem foldl_digits_lt {digits : Text} (all : ∀ c ∈ digits, c.isDigit = true) (n : Nat) :
    digits.foldl (fun n c => 10 * n + (c.toNat - 48)) n <
      (n + 1) * Nat.pow 10 digits.length := by
  induction digits generalizing n with
  | nil => simp
  | cons c rest ih =>
    have digit := all c List.mem_cons_self
    rw [Char.isDigit, Bool.and_eq_true, decide_eq_true_eq, decide_eq_true_eq] at digit
    have below : c.toNat ≤ 57 := UInt32.le_iff_toNat_le.mp digit.2
    have later := ih (fun d hd => all d (List.mem_cons_of_mem c hd)) (10 * n + (c.toNat - 48))
    have step : 10 * n + (c.toNat - 48) + 1 ≤ (n + 1) * 10 := by omega
    calc rest.foldl (fun n c => 10 * n + (c.toNat - 48)) (10 * n + (c.toNat - 48))
        < (10 * n + (c.toNat - 48) + 1) * Nat.pow 10 rest.length := later
      _ ≤ (n + 1) * 10 * Nat.pow 10 rest.length := Nat.mul_le_mul_right _ step
      _ = (n + 1) * Nat.pow 10 (c :: rest).length := by
        rw [List.length_cons, Nat.pow_eq, Nat.pow_eq, Nat.pow_succ', Nat.mul_assoc]

/-- Leading zeros are not written again, so a number never has more digits than its text. -/
theorem length_ofNat_value_le {digits : Text} {k : Nat} (all : ∀ c ∈ digits, c.isDigit = true)
    (few : digits.length ≤ k) (pos : 0 < k) : (ofNat (value digits)).length ≤ k := by
  have below := foldl_digits_lt all 0
  rw [Nat.zero_add, Nat.one_mul, Nat.pow_eq] at below
  apply (Nat.length_toDigits_le_iff (by decide) pos).mpr
  exact Nat.lt_of_lt_of_le below (Nat.pow_le_pow_right (by decide) few)

theorem short_value {digits : Text} (all : ∀ c ∈ digits, c.isDigit = true)
    (few : digits.length ≤ digitLimit) : Short (value digits) :=
  length_ofNat_value_le all few (by decide)

end Decimal

theorem Quantity.write_whole {n : Int} {t : Text} :
    (whole n).write = .ok t ↔ Decimal.Short n ∧ t = Decimal.ofInt n := by
  rw [← Decimal.write?_eq_some, write]
  cases Decimal.write? n <;> simp

theorem Amount.short_int {n : Int} : Amount.short n = true ↔ Decimal.Short n := Decimal.isShort_iff

theorem Amount.write_int {n : Int} {t : Text} :
    Amount.write n = .ok t ↔ Decimal.Short n ∧ t = Decimal.ofInt n := by
  unfold Amount.write
  by_cases short : Decimal.Short n
  · rw [if_pos (Amount.short_int.mpr short), Except.ok.injEq, eq_comm]
    exact (and_iff_right short).symm
  · rw [if_neg fun h => short (Amount.short_int.mp h)]
    exact ⟨nofun, fun h => absurd h.1 short⟩

end SchedulingNoise
