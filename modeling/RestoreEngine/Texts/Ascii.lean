import Mathlib.Data.Nat.Notation
import Mathlib.Tactic.SplitIfs

/-!
# Letters and digits of ASCII

The tests for letters and digits, and the change to lower case, as statements about code points.
-/

namespace RestoreEngine

namespace Text

variable {c : Char}

theorem isDigit_iff : c.isDigit = true ↔ 48 ≤ c.toNat ∧ c.toNat ≤ 57 := Char.isDigit_iff_toNat

theorem isUpper_iff : c.isUpper = true ↔ 65 ≤ c.toNat ∧ c.toNat ≤ 90 := by
  change decide (65 ≤ c.val ∧ c.val ≤ 90) = true ↔ _
  rw [decide_eq_true_iff, UInt32.le_iff_toNat_le, UInt32.le_iff_toNat_le]
  rfl

theorem isLower_iff : c.isLower = true ↔ 97 ≤ c.toNat ∧ c.toNat ≤ 122 := by
  change (decide (97 ≤ c.val) && decide (c.val ≤ 122)) = true ↔ _
  rw [Bool.and_eq_true, decide_eq_true_iff, decide_eq_true_iff, UInt32.le_iff_toNat_le,
    UInt32.le_iff_toNat_le]
  rfl

/-- The letters and digits. -/
theorem isAlphanum_iff : c.isAlphanum = true ↔
    (65 ≤ c.toNat ∧ c.toNat ≤ 90) ∨ (97 ≤ c.toNat ∧ c.toNat ≤ 122) ∨
      (48 ≤ c.toNat ∧ c.toNat ≤ 57) := by
  change (c.isUpper || c.isLower || c.isDigit) = true ↔ _
  rw [Bool.or_eq_true, Bool.or_eq_true, isUpper_iff, isLower_iff, isDigit_iff, or_assoc]

/-- What is no capital letter is left as it is. -/
theorem toLower_of_not_upper (h : ¬ (65 ≤ c.toNat ∧ c.toNat ≤ 90)) : c.toLower = c :=
  dif_neg (mt decide_eq_true (mt isUpper_iff.mp h))

/-- **The change to lower case.** -/
theorem toNat_toLower (c : Char) : c.toLower.toNat =
    if 65 ≤ c.toNat ∧ c.toNat ≤ 90 then c.toNat + 32 else c.toNat := by
  split_ifs with h
  · have hupper : c.val ≥ 'A'.val ∧ c.val ≤ 'Z'.val := of_decide_eq_true (isUpper_iff.mpr h)
    have hlower : c.toLower.val = c.val + ('a'.val - 'A'.val) := congrArg Char.val (dif_pos hupper)
    have hd : ('a'.val - 'A'.val).toNat = 32 := rfl
    have hval : c.val.toNat = c.toNat := rfl
    rw [← Char.toNat_val, hlower, UInt32.toNat_add, hd, hval]
    omega
  · rw [toLower_of_not_upper h]

theorem toLower_toLower (c : Char) : c.toLower.toLower = c.toLower := by
  refine toLower_of_not_upper ?_
  rw [toNat_toLower]
  split_ifs <;> omega

end Text

end RestoreEngine
