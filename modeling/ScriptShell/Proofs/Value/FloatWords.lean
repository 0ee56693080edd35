import ScriptShell.Proofs.Number.ExactValue
import ScriptShell.Proofs.Value.Ranges
import ScriptShell.Value.Arithmetic

/-!
# Floating-point numbers taken for integers

A floating-point number is made an integer, and looked for in a range, by dropping its fraction and
moving what is left into the range of words. What fits a word is not moved, so that the integer is
the number rounded toward zero and only items of the range are found. What fits none becomes the
greatest or the least word without a fault, and is found in every range that has this word.
-/

namespace ScriptShell

/-! ### The word nearest to a number -/

namespace Integer

theorem toInt_clamp (n : Int) : (clamp n).toInt =
    if n < -2 ^ 63 then -2 ^ 63 else if 2 ^ 63 ≤ n then 2 ^ 63 - 1 else n := by
  have hbound : bound = 2 ^ 63 := rfl
  unfold clamp
  rw [hbound]
  split
  · rfl
  · next hlow =>
    split
    · rfl
    · next hhigh => exact Int64.toInt_ofInt_of_le (Int.not_lt.mp hlow) (Int.not_le.mp hhigh)

/-- The word nearest to a number is that number exactly if the number is a word. -/
theorem toInt_clamp_eq_iff (n : Int) : (clamp n).toInt = n ↔ -2 ^ 63 ≤ n ∧ n < 2 ^ 63 := by
  constructor
  · intro h
    rw [← h]
    exact ⟨Int64.le_toInt _, Int64.toInt_lt _⟩
  · rintro ⟨hlow, hhigh⟩
    rw [toInt_clamp, if_neg (Int.not_lt.mpr hlow), if_neg (Int.not_le.mpr hhigh)]

end Integer

/-! ### Conversion -/

/-- A conversion gives the number as an integer or is refused. -/
def GivesOrRefuses (n : Int) (result : Except EvalError Value) : Prop :=
  (∃ w : Int64, result = .ok (.int w) ∧ w.toInt = n) ∨ ∃ e, result = .error e

section

variable {x : Float} {q : ℚ}

theorem convert_int_float (h : Binary64.value? x = some q) :
    Builtin.int.convert [.float x] = .ok (.int (Integer.clamp (towardZero q))) := by
  have hconvert : Builtin.int.convert [.float x] = Builtin.toInt (.float x) := rfl
  rw [hconvert, Builtin.toInt, Binary64.truncate?_eq h]

theorem givesOrRefuses_convert_int_iff (h : Binary64.value? x = some q) :
    GivesOrRefuses (towardZero q) (Builtin.int.convert [.float x]) ↔
      -2 ^ 63 ≤ towardZero q ∧ towardZero q < 2 ^ 63 := by
  rw [convert_int_float h, ← Integer.toInt_clamp_eq_iff]
  constructor
  · rintro (⟨w, hw, hexact⟩ | ⟨e, he⟩)
    · cases hw
      exact hexact
    · cases he
  · exact fun hexact => .inl ⟨_, rfl, hexact⟩

end

/-! ### Membership -/

namespace Progression

variable (r : Progression)

/-- A number lies beyond the greatest or the least word, and that word is in the range. -/
def Catches (q : ℚ) : Prop :=
  2 ^ 63 ≤ q ∧ 2 ^ 63 - 1 ∈ r.numbers ∨ q < -2 ^ 63 ∧ -2 ^ 63 ∈ r.numbers

theorem catches_intCast_iff (n : Int) :
    r.Catches n ↔ 2 ^ 63 ≤ n ∧ 2 ^ 63 - 1 ∈ r.numbers ∨ n < -2 ^ 63 ∧ -2 ^ 63 ∈ r.numbers := by
  unfold Catches
  norm_cast

theorem not_catches_of_mem {n : Int} (h : n ∈ r.numbers) : ¬r.Catches n := by
  have hfits := r.fits_of_mem h
  rw [catches_intCast_iff]
  omega

/-- The word nearest to a number is in a range if the number is, or is caught by the range. -/
theorem toInt_clamp_mem_iff (n : Int) :
    (Integer.clamp n).toInt ∈ r.numbers ↔ n ∈ r.numbers ∨ r.Catches n := by
  rw [Integer.toInt_clamp, catches_intCast_iff]
  split
  · next hlow =>
    have hout : n ∉ r.numbers := fun h => Int.not_le.mpr hlow (r.fits_of_mem h).1
    have hhigh : ¬2 ^ 63 ≤ n := by omega
    simp only [hout, hhigh, hlow, true_and, false_and, false_or]
  · next hlow =>
    split
    · next hhigh =>
      have hout : n ∉ r.numbers := fun h => Int.not_le.mpr (r.fits_of_mem h).2 hhigh
      simp only [hout, hhigh, hlow, true_and, false_and, false_or, or_false]
    · next hhigh => simp only [hhigh, hlow, false_and, or_false]

end Progression

section

variable {x : Float} {q : ℚ}

/-- A number that is caught by a range has no fraction. -/
theorem exists_eq_intCast_of_catches {r : Progression} (h : Binary64.value? x = some q)
    (hcatches : r.Catches q) : ∃ n : Int, q = n := by
  refine Binary64.exists_eq_intCast_of_large h ?_
  rcases hcatches with ⟨hhigh, -⟩ | ⟨hlow, -⟩
  · exact le_trans (by norm_num) (hhigh.trans (le_abs_self q))
  · exact le_trans (by norm_num) ((le_neg_of_le_neg hlow.le).trans (neg_le_abs q))

/-- A number is found in a range if it is one of the numbers of the range, or is caught by it. -/
theorem isStep_float_iff (h : Binary64.value? x = some q) (r : Progression) :
    Value.isStep r (.float x) = true ↔ (∃ n ∈ r.numbers, q = n) ∨ r.Catches q := by
  unfold Value.isStep
  dsimp only
  rw [Binary64.truncate?_eq h]
  split
  · next hwhole =>
    obtain ⟨n, rfl⟩ := (Binary64.isWhole_iff h).mp hwhole
    rw [towardZero_intCast, Option.map_some, Option.any_some, r.contains_iff_mem_numbers,
      r.toInt_clamp_mem_iff]
    simp only [Int.cast_inj, exists_eq_right']
  · next hfraction =>
    have hnot : ¬∃ n : Int, q = n := fun hn => hfraction ((Binary64.isWhole_iff h).mpr hn)
    refine iff_of_false Bool.false_ne_true ?_
    rintro (⟨n, -, hn⟩ | hcatches)
    · exact hnot ⟨n, hn⟩
    · exact hnot (exists_eq_intCast_of_catches h hcatches)

/-- Looking for a number in a range goes wrong exactly if the number is caught by the range. -/
theorem isStep_float_iff_mem_iff (h : Binary64.value? x = some q) (r : Progression) :
    (Value.isStep r (.float x) = true ↔ ∃ n ∈ r.numbers, q = n) ↔ ¬r.Catches q := by
  rw [isStep_float_iff h]
  constructor
  · intro hright hcatches
    obtain ⟨n, hn, rfl⟩ := hright.mp (.inr hcatches)
    exact r.not_catches_of_mem hn hcatches
  · exact fun hnot => or_iff_left hnot

end

/-- A finite number is made an integer by rounding it toward zero and moving it into the range of
words, so that it is exact exactly if it fits a word, and never refused. Looking for it in a range
always has an answer, which is right exactly if the number does not lie beyond a word that is in the
range. -/
theorem float_to_integer_exact_iff {x : Float} (hx : Binary64.isFinite x = true) :
    ∃ q, Binary64.value? x = some q ∧
      Builtin.int.convert [.float x] = .ok (.int (Integer.clamp (towardZero q))) ∧
      (GivesOrRefuses (towardZero q) (Builtin.int.convert [.float x]) ↔
        -2 ^ 63 ≤ towardZero q ∧ towardZero q < 2 ^ 63) ∧
      ∀ r : Progression, ∃ found,
        Operator.isIn.apply (.float x) (.range r) = .ok (.bool found) ∧
          ((found = true ↔ ∃ n ∈ r.numbers, q = n) ↔ ¬r.Catches q) := by
  obtain ⟨q, hq⟩ := Binary64.exists_value?_iff.mpr hx
  exact ⟨q, hq, convert_int_float hq, givesOrRefuses_convert_int_iff hq, fun r =>
    ⟨Value.isStep r (.float x), rfl, isStep_float_iff_mem_iff hq r⟩⟩

theorem float_to_integer_exact_iff_half :
    Binary64.isFinite (Float.ofBits 0x4004000000000000) = true ∧
      Binary64.value? (Float.ofBits 0x4004000000000000) = some (5 / 2) ∧
      GivesOrRefuses 2 (Builtin.int.convert [.float (Float.ofBits 0x4004000000000000)]) := by
  have hfinite : Binary64.isFinite (Float.ofBits 0x4004000000000000) = true := by decide
  have hvalue : Binary64.value? (Float.ofBits 0x4004000000000000) = some (5 / 2) := by
    have hparts : Binary64.parts (Float.ofBits 0x4004000000000000) =
        .finite false 0x14000000000000 (-51) := by decide
    rw [Binary64.value?_of_positive hparts]
    norm_num [Binary64.magnitude]
  have htrunc : towardZero (5 / 2) = 2 := by norm_num [towardZero]
  obtain ⟨q, hq, -, hgives, -⟩ := float_to_integer_exact_iff hfinite
  rw [hvalue] at hq
  cases hq
  rw [htrunc] at hgives
  exact ⟨hfinite, hvalue, hgives.mpr (by decide)⟩

/-- Ten to the nineteenth power is made the greatest word, and is found in the range from that word
down to zero. -/
theorem float_beyond_words :
    Binary64.value? (Float.ofBits 0x43E158E460913D00) = some (10 ^ 19) ∧
      Builtin.int.convert [.float (Float.ofBits 0x43E158E460913D00)] =
        .ok (.int 9223372036854775807) ∧
      Operator.isIn.apply (.float (Float.ofBits 0x43E158E460913D00))
        (.range ⟨9223372036854775807, 0, -1, by decide⟩) = .ok (.bool true) ∧
      ¬∃ n ∈ Progression.numbers ⟨9223372036854775807, 0, -1, by decide⟩, (10 ^ 19 : ℚ) = n := by
  have hparts : Binary64.parts (Float.ofBits 0x43E158E460913D00) =
      .finite false 0x1158E460913D00 11 := by decide
  refine ⟨?_, rfl, rfl, ?_⟩
  · rw [Binary64.value?_of_positive hparts]
    norm_num [Binary64.magnitude]
  · rintro ⟨n, hn, hvalue⟩
    have hfits := Progression.fits_of_mem _ hn
    have hinteger : n = 10 ^ 19 := by exact_mod_cast hvalue.symm
    omega

end ScriptShell
