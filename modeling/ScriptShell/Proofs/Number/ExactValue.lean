import Mathlib.Algebra.Order.Field.Power
import Mathlib.Data.Rat.Floor
import Mathlib.Tactic.Positivity
import ScriptShell.Number.Binary64

/-!
# The exact value of a floating-point number

A finite floating-point number is a rational number. Dropping its fraction is rounding that rational
number toward zero, and it is told from the parts whether there is a fraction. Numbers of a
magnitude of two to the fifty-third power or more have none, for the significand takes fifty-three
bits.
-/

namespace ScriptShell

/-- A number rounded toward zero. -/
def towardZero (q : ℚ) : Int := if 0 ≤ q then ⌊q⌋ else ⌈q⌉

theorem towardZero_of_nonneg {q : ℚ} (hq : 0 ≤ q) : towardZero q = ⌊q⌋ := if_pos hq

theorem towardZero_neg (q : ℚ) : towardZero (-q) = -towardZero q := by
  unfold towardZero
  rcases lt_trichotomy q 0 with hq | rfl | hq
  · rw [if_pos (neg_nonneg.mpr hq.le), if_neg hq.not_ge, Int.floor_neg]
  · simp
  · rw [if_neg (neg_lt_zero.mpr hq).not_ge, if_pos hq.le, Int.ceil_neg]

@[simp] theorem towardZero_intCast (n : Int) : towardZero n = n := by simp [towardZero]

namespace Binary64

/-- The number `significand · 2 ^ exponent`. -/
def magnitude (significand : Nat) (exponent : Int) : ℚ := significand * 2 ^ exponent

/-- A magnitude with a sign. -/
def signed (negative : Bool) (q : ℚ) : ℚ := if negative then -q else q

/-- The number that the parts of a finite number stand for. -/
def Parts.value? : Parts → Option ℚ
  | .finite negative significand exponent => some (signed negative (magnitude significand exponent))
  | _ => none

/-- The exact value of a finite number. -/
def value? (x : Float) : Option ℚ := (parts x).value?

/-! ### Signs and magnitudes -/

section

variable (negative : Bool) (q : ℚ)

theorem abs_signed : |signed negative q| = |q| := by
  cases negative with
  | false => rfl
  | true => exact abs_neg q

theorem exists_signed_eq_intCast_iff :
    (∃ n : Int, signed negative q = n) ↔ ∃ n : Int, q = n := by
  cases negative with
  | false => rfl
  | true =>
    refine ((Equiv.neg Int).exists_congr fun n => ?_).symm
    rw [signed, if_pos rfl, Equiv.neg_apply, Int.cast_neg, neg_inj]

end

section

variable (significand : Nat)

theorem magnitude_nonneg (exponent : Int) : 0 ≤ magnitude significand exponent := by
  unfold magnitude
  positivity

theorem magnitude_natCast (k : Nat) : magnitude significand k = (significand * 2 ^ k : Nat) := by
  rw [magnitude, zpow_natCast]
  push_cast
  rfl

theorem magnitude_neg (k : Nat) : magnitude significand (-k) = significand / (2 ^ k : Nat) := by
  rw [magnitude, zpow_neg, zpow_natCast, Nat.cast_pow, Nat.cast_ofNat, div_eq_mul_inv]

/-- Shifting the significand drops the fraction. -/
theorem floor_magnitude (exponent : Int) :
    ⌊magnitude significand exponent⌋ = ((if 0 ≤ exponent then significand <<< exponent.toNat
      else significand >>> (-exponent).toNat : Nat) : Int) := by
  split
  · next hwhole =>
    obtain ⟨k, rfl⟩ := Int.eq_ofNat_of_zero_le hwhole
    rw [magnitude_natCast, Int.floor_natCast, Int.toNat_natCast, Nat.shiftLeft_eq]
  · next hfraction =>
    obtain ⟨k, rfl⟩ := Int.exists_eq_neg_ofNat (Int.le_of_not_le hfraction)
    rw [magnitude_neg, Rat.floor_natCast_div_natCast, Int.neg_neg, Int.toNat_natCast,
      Nat.shiftRight_eq_div_pow, Int.natCast_ediv]

theorem truncated_eq (negative : Bool) (exponent : Int) :
    truncated negative significand exponent =
      towardZero (signed negative (magnitude significand exponent)) := by
  have hsize := (towardZero_of_nonneg (magnitude_nonneg significand exponent)).trans
    (floor_magnitude significand exponent)
  cases negative with
  | false => exact hsize.symm
  | true =>
    rw [signed, if_pos rfl, towardZero_neg, hsize]
    rfl

/-- A quotient is whole exactly if the divisor divides. -/
theorem exists_div_eq_intCast_iff {d : Nat} (hd : 0 < d) :
    (∃ n : Int, (significand : ℚ) / d = n) ↔ d ∣ significand := by
  have hd' : (d : ℚ) ≠ 0 := Nat.cast_ne_zero.mpr hd.ne'
  simp only [div_eq_iff hd']
  rw [← Int.natCast_dvd_natCast, dvd_iff_exists_eq_mul_left]
  exact exists_congr fun n => by norm_cast

/-- There is no fraction exactly if the significand is a multiple of the power of two that it is
divided by. -/
theorem isWholeAt_iff (exponent : Int) :
    isWholeAt significand exponent = true ↔ ∃ n : Int, magnitude significand exponent = n := by
  unfold isWholeAt
  rw [Bool.or_eq_true, decide_eq_true_eq, beq_iff_eq]
  by_cases hwhole : 0 ≤ exponent
  · obtain ⟨k, rfl⟩ := Int.eq_ofNat_of_zero_le hwhole
    exact iff_of_true (.inl hwhole) ⟨_, magnitude_natCast significand k⟩
  · obtain ⟨k, rfl⟩ := Int.exists_eq_neg_ofNat (Int.le_of_not_le hwhole)
    rw [or_iff_right hwhole, magnitude_neg, exists_div_eq_intCast_iff significand k.two_pow_pos,
      Int.neg_neg, Int.toNat_natCast, Nat.shiftLeft_eq, Nat.one_mul, Nat.dvd_iff_mod_eq_zero]

end

/-! ### Numbers -/

section

variable {x : Float} {q : ℚ}

theorem value?_of_positive {significand : Nat} {exponent : Int}
    (h : parts x = .finite false significand exponent) :
    value? x = some (magnitude significand exponent) := by
  rw [value?, h]
  rfl

theorem exists_value?_iff : (∃ q, value? x = some q) ↔ isFinite x = true := by
  unfold value? isFinite
  cases parts x <;> simp [Parts.value?]

/-- The parts that an exact value comes from. -/
theorem exists_parts_of_value? (h : value? x = some q) : ∃ negative significand exponent,
    parts x = .finite negative significand exponent ∧
      q = signed negative (magnitude significand exponent) := by
  unfold value? at h
  cases hparts : parts x with
  | finite negative significand exponent =>
    rw [hparts] at h
    exact ⟨negative, significand, exponent, rfl, (Option.some.inj h).symm⟩
  | _ =>
    rw [hparts] at h
    cases h

theorem truncate?_eq (h : value? x = some q) : truncate? x = some (towardZero q) := by
  obtain ⟨negative, significand, exponent, hparts, rfl⟩ := exists_parts_of_value? h
  rw [truncate?, hparts, ← truncated_eq]

theorem isWhole_iff (h : value? x = some q) : isWhole x = true ↔ ∃ n : Int, q = n := by
  obtain ⟨negative, significand, exponent, hparts, rfl⟩ := exists_parts_of_value? h
  unfold isWhole
  rw [hparts, isWholeAt_iff, exists_signed_eq_intCast_iff]

/-- A significand takes fifty-three bits, the hidden one included. -/
theorem significand_lt {bits significand : Nat} {negative : Bool} {exponent : Int}
    (h : partsOfBits bits = .finite negative significand exponent) : significand < 2 ^ 53 := by
  have hfraction : bits % hiddenBit < hiddenBit := Nat.mod_lt _ (by decide)
  have hhidden : hiddenBit + hiddenBit = 2 ^ 53 := by decide
  unfold partsOfBits at h
  dsimp only at h
  split at h
  · split at h <;> cases h
  · split at h <;> cases h <;> omega

/-- A number of great magnitude has no fraction. -/
theorem exists_eq_intCast_of_large (h : value? x = some q) (hlarge : 2 ^ 53 ≤ |q|) :
    ∃ n : Int, q = n := by
  obtain ⟨negative, significand, exponent, hparts, rfl⟩ := exists_parts_of_value? h
  rw [abs_signed, abs_of_nonneg (magnitude_nonneg significand exponent)] at hlarge
  rw [← isWhole_iff h, isWhole, hparts]
  refine Bool.or_eq_true_iff.mpr (.inl (decide_eq_true (Int.not_lt.mp fun hfraction => ?_)))
  have hpower : (2 : ℚ) ^ exponent ≤ 1 := zpow_le_one_of_nonpos₀ one_le_two hfraction.le
  have hsmall : magnitude significand exponent ≤ significand :=
    mul_le_of_le_one_right (Nat.cast_nonneg _) hpower
  have hlt : (significand : ℚ) < 2 ^ 53 := by exact_mod_cast significand_lt hparts
  exact absurd (hlarge.trans hsmall) (not_le.mpr hlt)

end

end Binary64

end ScriptShell
