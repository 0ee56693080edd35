import Mathlib.Algebra.Order.Ring.Int
import ScriptShell.Number.Integer

/-!
# Division of words rounded down

Words divide toward zero. Where the remainder then lies on the other side of zero than the divisor,
the quotient is one too large and the remainder falls short by the divisor. Putting both right gives
the quotient rounded down and its remainder, and never leaves the words: the one quotient that is no
word, of the least word by minus one, leaves no remainder.
-/

namespace ScriptShell.Integer

/-! ### Quotients and remainders of numbers -/

section

variable {a b q r : Int}

/-- A remainder smaller than the divisor and on the other side of zero than it: the quotient is one
too large. -/
theorem fdiv_fmod_of_otherSide (hdivides : r + b * q = a) (hlt : r.natAbs < b.natAbs) (hr : r ≠ 0)
    (hside : ¬(r < 0 ↔ b < 0)) : a.fdiv b = q - 1 ∧ a.fmod b = r + b := by
  have hless : b * (q - 1) = b * q - b := by rw [Int.mul_sub, Int.mul_one]
  rcases Int.lt_or_gt_of_ne (show b ≠ 0 by omega) with hneg | hpos
  · rw [Int.fdiv_fmod_unique' hneg]
    omega
  · rw [Int.fdiv_fmod_unique hpos]
    omega

/-- A remainder smaller than the divisor and on the side of zero where it belongs. -/
theorem fdiv_fmod_of_sameSide (hdivides : r + b * q = a) (hlt : r.natAbs < b.natAbs)
    (hside : r ≠ 0 → (r < 0 ↔ b < 0)) : a.fdiv b = q ∧ a.fmod b = r := by
  rcases Int.lt_or_gt_of_ne (show b ≠ 0 by omega) with hneg | hpos
  · rw [Int.fdiv_fmod_unique' hneg]
    omega
  · rw [Int.fdiv_fmod_unique hpos]
    omega

theorem natAbs_tmod_lt (a : Int) (hb : b ≠ 0) : (a.tmod b).natAbs < b.natAbs := by
  rw [Int.natAbs_tmod]
  exact Nat.mod_lt _ (by omega)

/-- A remainder of division rounded down is smaller than the divisor, and is nothing or has the sign
of the divisor. -/
theorem fmod_bounds (a : Int) (hb : b ≠ 0) :
    (a.fmod b).natAbs < b.natAbs ∧ (a.fmod b = 0 ∨ (a.fmod b).sign = b.sign) := by
  rcases Int.lt_or_gt_of_ne hb with hneg | hpos
  · obtain ⟨-, hlow, hhigh⟩ := (Int.fdiv_fmod_unique' (a := a) hneg).mp ⟨rfl, rfl⟩
    refine ⟨by omega, (Int.lt_or_eq_of_le hhigh).symm.imp_right fun hlt => ?_⟩
    rw [Int.sign_eq_neg_one_of_neg hlt, Int.sign_eq_neg_one_of_neg hneg]
  · obtain ⟨-, hlow, hhigh⟩ := (Int.fdiv_fmod_unique (a := a) hpos).mp ⟨rfl, rfl⟩
    refine ⟨by omega, (Int.lt_or_eq_of_le hlow).symm.imp Eq.symm fun hlt => ?_⟩
    rw [Int.sign_eq_one_of_pos hlt, Int.sign_eq_one_of_pos hpos]

end

/-! ### Words -/

section

variable {a b r : Int64}

/-- Adding words is exact where the sum is a word. -/
theorem toInt_add_of_fits (hlow : -2 ^ 63 ≤ a.toInt + b.toInt)
    (hhigh : a.toInt + b.toInt < 2 ^ 63) : (a + b).toInt = a.toInt + b.toInt := by
  rw [Int64.toInt_add]
  exact Int.bmod_eq_of_le hlow hhigh

/-- Subtracting words is exact where the difference is a word. -/
theorem toInt_sub_of_fits (hlow : -2 ^ 63 ≤ a.toInt - b.toInt)
    (hhigh : a.toInt - b.toInt < 2 ^ 63) : (a - b).toInt = a.toInt - b.toInt := by
  rw [Int64.toInt_sub]
  exact Int.bmod_eq_of_le hlow hhigh

theorem toInt_eq_zero_iff : a.toInt = 0 ↔ a = 0 := by
  rw [← Int64.toInt_inj, Int64.toInt_zero]

theorem roundedUp_iff : roundedUp r b = true ↔ r.toInt ≠ 0 ∧ ¬(r.toInt < 0 ↔ b.toInt < 0) := by
  simp [roundedUp, toInt_eq_zero_iff, Int64.lt_iff_toInt_lt]

/-- A remainder that has to be put right takes the divisor without leaving the words, for they lie on
different sides of zero. -/
theorem toInt_add_of_roundedUp (h : roundedUp r b = true) : (r + b).toInt = r.toInt + b.toInt := by
  obtain ⟨-, hside⟩ := roundedUp_iff.mp h
  have hr := r.le_toInt
  have hr' := r.toInt_lt
  have hb := b.le_toInt
  have hb' := b.toInt_lt
  exact toInt_add_of_fits (by omega) (by omega)

/-- Words divide exactly, but for the least word and minus one. -/
theorem toInt_div_of_ne (h : ¬(a = Int64.minValue ∧ b = -1)) :
    (a / b).toInt = a.toInt.tdiv b.toInt := by
  by_cases ha : a = Int64.minValue
  · exact Int64.toInt_div_of_ne_right a b fun hb => h ⟨ha, hb⟩
  · exact Int64.toInt_div_of_ne_left a b ha

/-- Division by minus one leaves nothing that has to be put right. -/
theorem ne_of_roundedUp (h : roundedUp (a % b) b = true) : ¬(a = Int64.minValue ∧ b = -1) := by
  rintro ⟨rfl, rfl⟩
  exact absurd h (by decide)

/-- The quotient and the remainder of words that have to be put right, and those rounded down. -/
theorem fdiv_fmod_of_roundedUp (hb : b ≠ 0) (h : roundedUp (a % b) b = true) :
    a.toInt.fdiv b.toInt = (a / b).toInt - 1 ∧ a.toInt.fmod b.toInt = (a % b).toInt + b.toInt := by
  obtain ⟨hr, hside⟩ := roundedUp_iff.mp h
  rw [Int64.toInt_mod] at hr hside ⊢
  rw [toInt_div_of_ne (ne_of_roundedUp h)]
  exact fdiv_fmod_of_otherSide (Int.tmod_add_mul_tdiv ..)
    (natAbs_tmod_lt _ (mt toInt_eq_zero_iff.mp hb)) hr hside

/-- The quotient and the remainder of words that are right as they are. -/
theorem fdiv_fmod_of_not_roundedUp (hb : b ≠ 0) (h : ¬roundedUp (a % b) b = true) :
    a.toInt.fdiv b.toInt = a.toInt.tdiv b.toInt ∧ a.toInt.fmod b.toInt = (a % b).toInt := by
  rw [roundedUp_iff, Int64.toInt_mod] at h
  rw [Int64.toInt_mod]
  exact fdiv_fmod_of_sameSide (Int.tmod_add_mul_tdiv ..)
    (natAbs_tmod_lt _ (mt toInt_eq_zero_iff.mp hb)) fun hr =>
      Decidable.byContradiction fun hside => h ⟨hr, hside⟩

/-- A quotient that has to be put right is not the least word, so that it can be made one less. -/
theorem toInt_sub_of_roundedUp (hb : b ≠ 0) (h : roundedUp (a % b) b = true) :
    (a / b - 1).toInt = (a / b).toInt - 1 := by
  have hsize := Int.natAbs_fdiv_le_natAbs a.toInt b.toInt
  rw [(fdiv_fmod_of_roundedUp hb h).1] at hsize
  have ha := a.le_toInt
  have ha' := a.toInt_lt
  have hq := (a / b).toInt_lt
  have hone : (1 : Int64).toInt = 1 := rfl
  rw [toInt_sub_of_fits (by omega) (by omega), hone]

/-- The quotient of words is the one rounded down, or refused where that is no word. -/
theorem floorDiv?_eq (a : Int64) (hb : b ≠ 0) :
    floorDiv? a b = ofInt? (a.toInt.fdiv b.toInt) := by
  unfold floorDiv?
  split
  · next hleast =>
    obtain ⟨rfl, rfl⟩ := hleast
    decide
  · next hleast =>
    symm
    split
    · next hup =>
      rw [ofInt?_eq_some_iff, toInt_sub_of_roundedUp hb hup, (fdiv_fmod_of_roundedUp hb hup).1]
    · next hright =>
      rw [ofInt?_eq_some_iff, toInt_div_of_ne hleast, (fdiv_fmod_of_not_roundedUp hb hright).1]

/-- The remainder of words is the one that the quotient rounded down leaves. -/
theorem toInt_floorMod (a : Int64) (hb : b ≠ 0) :
    (floorMod a b).toInt = a.toInt.fmod b.toInt := by
  unfold floorMod
  split
  · next hup => rw [toInt_add_of_roundedUp hup, (fdiv_fmod_of_roundedUp hb hup).2]
  · next hright => exact (fdiv_fmod_of_not_roundedUp hb hright).2.symm

end

end ScriptShell.Integer
