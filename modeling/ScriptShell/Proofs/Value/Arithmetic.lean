import ScriptShell.Proofs.Number.Division
import ScriptShell.Proofs.Number.Power
import ScriptShell.Value.Arithmetic

/-!
# Arithmetic of integers

The operators on integers give the exact number, or an overflow where that number is no word; only a
division by zero has no exact result. Quotients are rounded down. Powers are the exception: an
exponent of more than thirty-two bits is refused whatever the base, though all powers of zero, one
and minus one are words.
-/

namespace ScriptShell

/-- The exact number that an operator makes of two numbers. A quotient is rounded down, a remainder is
what is left of the dividend, and an exponent is taken for a natural number. -/
def Operator.exact (op : Operator) (a b : Int) : Int :=
  match op with
  | .sub => a - b
  | .mul => a * b
  | .floorDiv => a.fdiv b
  | .mod => a - b * a.fdiv b
  | .pow => a ^ b.toNat
  | _ => a + b

/-- A result is the given number, or an overflow where that number is no word. -/
structure IsExactly (exact : Int) (result : Except EvalError Value) : Prop where
  value : ∀ n : Int64, result = .ok (.int n) ↔ n.toInt = exact
  overflow : result = .error .integerOverflow ↔ ¬(-2 ^ 63 ≤ exact ∧ exact < 2 ^ 63)

theorem exactly?_eq_ok_iff {w : Option Int64} {n : Int64} :
    exactly? w = .ok (.int n) ↔ w = some n := by
  cases w <;> simp [exactly?]

theorem exactly?_eq_error_iff {w : Option Int64} :
    exactly? w = .error .integerOverflow ↔ w = none := by
  cases w <;> simp [exactly?]

/-- A result is exact if it is the integer where there is one, and refused otherwise. -/
theorem isExactly_iff {exact : Int} {result : Except EvalError Value} :
    IsExactly exact result ↔ result = exactly? (Integer.ofInt? exact) := by
  constructor
  · intro h
    cases hword : Integer.ofInt? exact with
    | none => exact h.overflow.mpr (Integer.ofInt?_eq_none_iff.mp hword)
    | some n => exact (h.value n).mpr (Integer.ofInt?_eq_some_iff.mp hword)
  · rintro rfl
    exact ⟨fun n => exactly?_eq_ok_iff.trans Integer.ofInt?_eq_some_iff,
      exactly?_eq_error_iff.trans Integer.ofInt?_eq_none_iff⟩

/-! ### Sums, differences, products, quotients and remainders -/

/-- An operator divides by a number that there is no dividing by. -/
def Operator.DividesByZero (op : Operator) (b : Int64) : Prop :=
  (op = .floorDiv ∨ op = .mod) ∧ b = 0

section

variable {op : Operator} {a b : Int64}

theorem Operator.apply_eq_ofInts (hop : op ∈ [.add, .sub, .mul, .floorDiv, .mod]) :
    op.apply (.int a) (.int b) = op.ofInts a b := by
  simp only [List.mem_cons, List.not_mem_nil, or_false] at hop
  rcases hop with rfl | rfl | rfl | rfl | rfl <;> rfl

/-- A division by zero is refused as one. -/
theorem Operator.ofInts_of_dividesByZero (h : op.DividesByZero b) :
    op.ofInts a b = .error .divisionByZero := by
  obtain ⟨rfl | rfl, rfl⟩ := h <;> rfl

/-- Where there is no dividing by zero, the exact number is given or refused. -/
theorem Operator.ofInts_eq_exactly? (hop : op ∈ [.add, .sub, .mul, .floorDiv, .mod])
    (h : ¬op.DividesByZero b) :
    op.ofInts a b = exactly? (Integer.ofInt? (op.exact a.toInt b.toInt)) := by
  simp only [List.mem_cons, List.not_mem_nil, or_false] at hop
  rcases hop with rfl | rfl | rfl | rfl | rfl
  · rfl
  · rfl
  · rfl
  · have hb : b ≠ 0 := fun hb => h ⟨.inl rfl, hb⟩
    rw [ofInts, if_neg hb, Integer.floorDiv?_eq a hb, exact]
  · have hb : b ≠ 0 := fun hb => h ⟨.inr rfl, hb⟩
    have hfits : Integer.ofInt? (a.toInt - b.toInt * a.toInt.fdiv b.toInt)
        = some (Integer.floorMod a b) := by
      rw [Integer.ofInt?_eq_some_iff, Integer.toInt_floorMod a hb, Int.fmod_def]
    rw [ofInts, if_neg hb, exact, hfits, exactly?]

/-- Nothing else is refused as a division by zero. -/
theorem Operator.apply_eq_divisionByZero_iff (hop : op ∈ [.add, .sub, .mul, .floorDiv, .mod]) :
    op.apply (.int a) (.int b) = .error .divisionByZero ↔ op.DividesByZero b := by
  rw [apply_eq_ofInts hop]
  refine ⟨fun h => Classical.byContradiction fun hnot => ?_, ofInts_of_dividesByZero⟩
  rw [ofInts_eq_exactly? hop hnot] at h
  cases hword : Integer.ofInt? (op.exact a.toInt b.toInt) with
  | none => simp [hword, exactly?] at h
  | some n => simp [hword, exactly?] at h

/-- Every other operation gives the exact integer, or is refused. -/
theorem Operator.isExactly_apply (hop : op ∈ [.add, .sub, .mul, .floorDiv, .mod])
    (h : ¬op.DividesByZero b) :
    IsExactly (op.exact a.toInt b.toInt) (op.apply (.int a) (.int b)) := by
  rw [isExactly_iff, apply_eq_ofInts hop, ofInts_eq_exactly? hop h]

/-- An operator that gives an integer gives the exact one. -/
theorem Operator.of_apply_eq_ok {n : Int64} (hop : op ∈ [.add, .sub, .mul, .floorDiv, .mod])
    (h : op.apply (.int a) (.int b) = .ok (.int n)) :
    ¬op.DividesByZero b ∧ n.toInt = op.exact a.toInt b.toInt := by
  have hnot : ¬op.DividesByZero b := fun hzero => by
    rw [(apply_eq_divisionByZero_iff hop).mpr hzero] at h
    cases h
  exact ⟨hnot, ((isExactly_apply hop hnot).value n).mp h⟩

end

/-- What was taken of a dividend and what is left of it make it up. What is left is smaller than the
divisor, on its side of zero, and never too large; nor does putting the quotient and the remainder of
words right leave the words. -/
structure DividesDown (a b : Int64) : Prop where
  whole : ∀ q m : Int64, Operator.floorDiv.apply (.int a) (.int b) = .ok (.int q) →
    Operator.mod.apply (.int a) (.int b) = .ok (.int m) → a.toInt = q.toInt * b.toInt + m.toInt
  remainder : ∀ m : Int64, Operator.mod.apply (.int a) (.int b) = .ok (.int m) →
    (m.toInt = 0 ∨ m.toInt.sign = b.toInt.sign) ∧ m.toInt.natAbs < b.toInt.natAbs
  noOverflow : Operator.mod.apply (.int a) (.int b) ≠ .error .integerOverflow
  quotientFits : b ≠ 0 → Integer.roundedUp (a % b) b = true →
    (a / b - 1).toInt = (a / b).toInt - 1
  remainderFits : b ≠ 0 → Integer.roundedUp (a % b) b = true →
    (a % b + b).toInt = (a % b).toInt + b.toInt

/-- The quotient and the remainder of two words are those of the floor. -/
theorem dividesDown (a b : Int64) : DividesDown a b where
  whole q m hq hm := by
    rw [(Operator.of_apply_eq_ok (by simp) hq).2, (Operator.of_apply_eq_ok (by simp) hm).2,
      Operator.exact, Operator.exact, Int.mul_comm b.toInt]
    omega
  remainder m hm := by
    obtain ⟨hnot, hexact⟩ := Operator.of_apply_eq_ok (by simp) hm
    have hb : b.toInt ≠ 0 := fun hb => hnot ⟨.inr rfl, Integer.toInt_eq_zero_iff.mp hb⟩
    rw [hexact, Operator.exact, ← Int.fmod_def]
    exact (Integer.fmod_bounds a.toInt hb).symm
  noOverflow h := by
    by_cases hb : b = 0
    · rw [(Operator.apply_eq_divisionByZero_iff (by simp)).mpr ⟨.inr rfl, hb⟩] at h
      cases h
    · rw [Operator.apply_eq_ofInts (by simp), Operator.ofInts, if_neg hb] at h
      cases h
  quotientFits hb h := Integer.toInt_sub_of_roundedUp hb h
  remainderFits _ h := Integer.toInt_add_of_roundedUp h

/-- Adding, subtracting, multiplying and dividing integers is exact or refused: there is no dividing
by zero, and everything else gives the exact number where that is a word and an overflow where it is
none. So a quotient rounded down and its remainder make up the dividend. -/
theorem arithmetic_exact_or_refused (op : Operator)
    (hop : op ∈ [.add, .sub, .mul, .floorDiv, .mod]) (a b : Int64) :
    (op.apply (.int a) (.int b) = .error .divisionByZero ↔ op.DividesByZero b) ∧
      (¬op.DividesByZero b →
        IsExactly (op.exact a.toInt b.toInt) (op.apply (.int a) (.int b))) ∧
      DividesDown a b :=
  ⟨Operator.apply_eq_divisionByZero_iff hop, Operator.isExactly_apply hop, dividesDown a b⟩

theorem arithmetic_exact_or_refused_least :
    Operator.floorDiv ∈ [.add, .sub, .mul, Operator.floorDiv, .mod] ∧
      ¬Operator.floorDiv.DividesByZero (-1) ∧
      Operator.floorDiv.apply (.int Int64.minValue) (.int (-1)) = .error .integerOverflow ∧
      Operator.mod.apply (.int Int64.minValue) (.int (-1)) ≠ .error .integerOverflow := by
  have hop : Operator.floorDiv ∈ [.add, .sub, .mul, Operator.floorDiv, .mod] := by decide
  have hnot : ¬Operator.floorDiv.DividesByZero (-1) := fun h => absurd h.2 (by decide)
  obtain ⟨-, hexact, hdown⟩ := arithmetic_exact_or_refused .floorDiv hop Int64.minValue (-1)
  exact ⟨hop, hnot, (hexact hnot).overflow.mpr (by decide), hdown.noOverflow⟩

/-! ### Powers -/

/-- A power with a natural exponent is exact, or is refused. -/
theorem Operator.apply_pow {a b : Int64} (hb : 0 ≤ b.toInt) :
    Operator.pow.apply (.int a) (.int b) = exactly? (Integer.pow? a b) := by
  have hsign : ¬b < 0 := by
    rw [Int64.lt_iff_toInt_lt]
    exact Int.not_lt.mpr hb
  exact if_neg hsign

/-- The power of an integer with an exponent that is not negative is exact or refused if the exponent
has at most thirty-two bits or the base is none of zero, one and minus one. Every greater exponent is
refused, so the powers of these three bases are refused there although they are words. -/
theorem pow_exact_or_refused_iff (a b : Int64) (hb : 0 ≤ b.toInt) :
    (IsExactly (Operator.pow.exact a.toInt b.toInt) (Operator.pow.apply (.int a) (.int b)) ↔
      b.toInt < 2 ^ 32 ∨ 2 ≤ a.toInt.natAbs) ∧
    (2 ^ 32 ≤ b.toInt → Operator.pow.apply (.int a) (.int b) = .error .integerOverflow) := by
  rw [isExactly_iff, Operator.apply_pow hb, Integer.pow?_eq, Operator.exact]
  split
  · next hsmall => exact ⟨iff_of_true rfl (.inl hsmall), fun h => absurd h (Int.not_le.mpr hsmall)⟩
  · next hlarge =>
    refine ⟨?_, fun _ => rfl⟩
    have hrefused : exactly? none = exactly? (Integer.ofInt? (a.toInt ^ b.toInt.toNat)) ↔
        Integer.ofInt? (a.toInt ^ b.toInt.toNat) = none := by
      rw [← exactly?_eq_error_iff]
      exact eq_comm
    rw [hrefused]
    constructor
    · exact fun h => .inr (Nat.le_of_not_lt fun ha => Integer.ofInt?_pow_ne_none ha _ h)
    · intro h
      exact Integer.ofInt?_pow_eq_none (h.resolve_left hlarge) (by omega)

theorem pow_exact_or_refused_iff_least :
    0 ≤ (63 : Int64).toInt ∧
      Operator.pow.apply (.int (-2)) (.int 63) = .ok (.int Int64.minValue) := by
  have hb : 0 ≤ (63 : Int64).toInt := by decide
  have hexact := (pow_exact_or_refused_iff (-2) 63 hb).1.mpr (.inl (by decide))
  exact ⟨hb, (hexact.value Int64.minValue).mpr (by decide)⟩

/-- One is refused to the power of two to the thirty-second, which is one. -/
theorem pow_one_refused :
    Operator.pow.exact (1 : Int64).toInt (4294967296 : Int64).toInt = 1 ∧
      Operator.pow.apply (.int 1) (.int 4294967296) = .error .integerOverflow ∧
      ¬IsExactly (Operator.pow.exact (1 : Int64).toInt (4294967296 : Int64).toInt)
        (Operator.pow.apply (.int 1) (.int 4294967296)) := by
  have hone : Operator.pow.exact (1 : Int64).toInt (4294967296 : Int64).toInt = 1 := one_pow _
  have hrefused : Operator.pow.apply (.int 1) (.int 4294967296) = .error .integerOverflow := rfl
  refine ⟨hone, hrefused, fun h => ?_⟩
  rw [hone] at h
  exact h.overflow.mp hrefused (by decide)

end ScriptShell
