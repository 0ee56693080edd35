import ScriptShell.Number.Integer

/-!
# Decimal digits

The decimal digits of a natural number spell that number, so an integer that is not negative is read
back from its text.
-/

namespace ScriptShell.Integer

/-- A remainder of ten is written as a digit that stands for it. -/
theorem digit_of_lt_ten : ∀ d < 10,
    (Char.ofNat ('0'.toNat + d)).isDigit = true ∧ digitValue (Char.ofNat ('0'.toNat + d)) = d := by
  decide

/-- What is put before other characters are digits that spell the number. -/
theorem exists_digitsOnto {fuel n : Nat} (h : n < fuel) (tail : List Char) :
    ∃ ds, digitsOnto fuel n tail = ds ++ tail ∧ ds ≠ [] ∧ (∀ c ∈ ds, c.isDigit = true) ∧
      Digits.number 10 (ds.map digitValue) = n := by
  induction fuel generalizing n tail with
  | zero => exact absurd h (Nat.not_lt_zero n)
  | succ fuel ih =>
    obtain ⟨hdigit, hvalue⟩ := digit_of_lt_ten (n % 10) (Nat.mod_lt n (by decide))
    rw [digitsOnto]
    generalize Char.ofNat ('0'.toNat + n % 10) = digit at hdigit hvalue
    split
    · next hsmall =>
      refine ⟨[digit], rfl, List.cons_ne_nil _ _, by simpa using hdigit, ?_⟩
      have hspelled := Digits.number_concat 10 [] n
      rw [List.map_singleton, hvalue, Nat.mod_eq_of_lt hsmall, ← List.nil_append [n], hspelled]
      exact Nat.zero_add n
    · next hlarge =>
      obtain ⟨ds, hds, -, hdigits, hnumber⟩ := ih (n := n / 10) (by omega) (digit :: tail)
      refine ⟨ds ++ [digit], ?_, by simp, ?_, ?_⟩
      · rw [hds, List.append_assoc, List.singleton_append]
      · intro c hc
        rcases List.mem_append.mp hc with hc | hc
        · exact hdigits c hc
        · rw [List.mem_singleton.mp hc]
          exact hdigit
      · rw [List.map_append, List.map_singleton, Digits.number_concat, hnumber, hvalue]
        omega

theorem naturalDigits_ne_nil (n : Nat) : naturalDigits n ≠ [] := by
  obtain ⟨ds, hds, hne, -⟩ := exists_digitsOnto (Nat.lt_succ_self n) []
  rw [naturalDigits, hds, List.append_nil]
  exact hne

theorem isDigit_of_mem_naturalDigits {n : Nat} {c : Char} (h : c ∈ naturalDigits n) :
    c.isDigit = true := by
  obtain ⟨ds, hds, -, hdigits, -⟩ := exists_digitsOnto (Nat.lt_succ_self n) []
  rw [naturalDigits, hds, List.append_nil] at h
  exact hdigits c h

theorem naturalOfDigits?_naturalDigits (n : Nat) : naturalOfDigits? (naturalDigits n) = some n := by
  obtain ⟨ds, hds, hne, hdigits, hnumber⟩ := exists_digitsOnto (Nat.lt_succ_self n) []
  rw [naturalDigits, hds, List.append_nil, naturalOfDigits?, if_neg, hnumber]
  simpa [hne] using hdigits

/-- Decimal digits are read as the number that they are the digits of, if it is a word. -/
theorem parse?_naturalDigits (n : Nat) : parse? (naturalDigits n) = ofInt? n := by
  have hsign : ∀ c ∈ naturalDigits n, c ≠ '-' ∧ c ≠ '+' := by
    intro c hc
    have hdigit := isDigit_of_mem_naturalDigits hc
    constructor <;> rintro rfl <;> cases hdigit
  rw [parse?]
  · rw [naturalOfDigits?_naturalDigits, Option.bind_some]
  · intro cs hcs
    exact (hsign '-' (by simp [hcs])).1 rfl
  · intro cs hcs
    exact (hsign '+' (by simp [hcs])).2 rfl

end ScriptShell.Integer
