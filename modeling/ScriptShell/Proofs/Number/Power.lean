import Mathlib.Algebra.Order.Ring.Int
import ScriptShell.Number.Integer

/-!
# Powers of words

The power of a word is exact, or refused where it is no word. Zero, one and minus one have words for
all their powers; any other base leaves the words by its sixty-fourth power at the latest.
-/

namespace ScriptShell.Integer

/-- From two on, a base has no word for its sixty-fourth power or one above it. -/
theorem ofInt?_pow_eq_none {a : Int} {n : Nat} (ha : 2 ≤ a.natAbs) (hn : 64 ≤ n) :
    ofInt? (a ^ n) = none := by
  have hsize : 2 ^ 64 ≤ (a ^ n).natAbs := by
    rw [Int.natAbs_pow]
    exact (Nat.pow_le_pow_right (by decide) hn).trans (Nat.pow_le_pow_left ha n)
  rw [ofInt?_eq_none_iff]
  unfold bound
  omega

/-- The power of a word is the exact one, or refused where that is no word. -/
theorem boundedPow_eq (a : Int64) (n : Nat) : boundedPow a n = ofInt? (a.toInt ^ n) := by
  unfold boundedPow
  symm
  split_ifs with hn hzero hone hminus heven hlarge
  · rw [ofInt?_eq_some_iff, hn, pow_zero]
    rfl
  · rw [ofInt?_eq_some_iff, hzero, Int64.toInt_zero, zero_pow hn]
  · rw [ofInt?_eq_some_iff, hone]
    exact (one_pow n).symm
  · rw [ofInt?_eq_some_iff, hminus]
    exact (Even.neg_one_pow (Nat.even_iff.mpr heven)).symm
  · rw [ofInt?_eq_some_iff, hminus]
    exact (Odd.neg_one_pow (Nat.not_even_iff_odd.mp (mt Nat.even_iff.mp heven))).symm
  · refine ofInt?_pow_eq_none ?_ hlarge
    have hne {m : Int64} (h : a ≠ m) : a.toInt ≠ m.toInt := mt Int64.toInt_inj.mp h
    have h0 : a.toInt ≠ 0 := hne hzero
    have h1 : a.toInt ≠ 1 := hne hone
    have h2 : a.toInt ≠ -1 := hne hminus
    omega
  · rfl

/-- Zero, one and minus one have words for all their powers. -/
theorem ofInt?_pow_ne_none {a : Int} (ha : a.natAbs < 2) (n : Nat) : ofInt? (a ^ n) ≠ none := by
  have hsize : (a ^ n).natAbs ≤ 1 := by
    rw [Int.natAbs_pow]
    exact (Nat.pow_le_pow_left (Nat.le_of_lt_succ ha) n).trans_eq (Nat.one_pow n)
  rw [Ne, ofInt?_eq_none_iff, not_not]
  unfold bound
  omega

/-- The power with an exponent of at most thirty-two bits is the exact one, or refused where that is
no word; a greater exponent is refused. -/
theorem pow?_eq (a b : Int64) :
    pow? a b = if b.toInt < 2 ^ 32 then ofInt? (a.toInt ^ b.toInt.toNat) else none := by
  have hbits : b.toInt.toNat < 0x100000000 ↔ b.toInt < 2 ^ 32 := by omega
  simp only [pow?, hbits, boundedPow_eq]

end ScriptShell.Integer
