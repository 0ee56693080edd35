import Mathlib.Data.List.Basic
import Mathlib.Tactic.Ring
import ScriptShell.Value.Progression

/-!
# The numbers of a progression

A progression stands for the numbers from its start on in equal steps, as long as they lie strictly
before its stop in the direction of the steps. Everything that is told of a progression from its
start, stop and step alone holds of this list: its length, its items, what is in it, and which
progressions are the same. No item leaves the words and no length the lengths, for the numbers lie
between the start and the stop and no two of them are equal.
-/

namespace ScriptShell

/-- A number lies strictly before `stop` in the direction of `step`. -/
def Precedes (stop step n : Int) : Prop := 0 < step ∧ n < stop ∨ step < 0 ∧ stop < n

instance (stop step n : Int) : Decidable (Precedes stop step n) :=
  inferInstanceAs (Decidable (_ ∨ _))

/-- The numbers from `n` on in steps of `step` that lie strictly before `stop`. -/
def stepsFrom (stop step n : Int) : List Int :=
  if Precedes stop step n then n :: stepsFrom stop step (n + step) else []
termination_by if 0 < step then (stop - n).toNat else (n - stop).toNat
decreasing_by
  next h =>
    unfold Precedes at h
    split <;> omega

section

variable {stop step n : Int}

/-- What is reached in steps that lead to the stop and lies before it lies between the place where
the steps started and the stop. -/
theorem Precedes.between {k : Nat} (h : Precedes stop step (n + k * step)) :
    0 < step ∧ n ≤ n + k * step ∧ n + k * step < stop ∨
      step < 0 ∧ stop < n + k * step ∧ n + k * step ≤ n := by
  rcases h with ⟨hup, hbefore⟩ | ⟨hdown, hbefore⟩
  · have hsteps : 0 ≤ k * step := Int.mul_nonneg (Int.natCast_nonneg k) (Int.le_of_lt hup)
    exact .inl ⟨hup, Int.le_add_of_nonneg_right hsteps, hbefore⟩
  · have hsteps : k * step ≤ 0 :=
      Int.mul_nonpos_of_nonneg_of_nonpos (Int.natCast_nonneg k) (Int.le_of_lt hdown)
    exact .inr ⟨hdown, hbefore, add_le_of_nonpos_right hsteps⟩

/-- Where a later number lies before the stop, so does each one that comes before it. -/
theorem Precedes.of_later {k : Nat} (h : Precedes stop step (n + k * step)) :
    Precedes stop step n :=
  h.between.imp (fun h => ⟨h.1, Int.lt_of_le_of_lt h.2.1 h.2.2⟩)
    fun h => ⟨h.1, Int.lt_of_lt_of_le h.2.1 h.2.2⟩

/-- The numbers up to a bound are those of the progression that precede it. -/
theorem getElem?_stepsFrom (stop step n : Int) (k : Nat) :
    (stepsFrom stop step n)[k]? =
      if Precedes stop step (n + k * step) then some (n + k * step) else none := by
  induction k generalizing n with
  | zero =>
    rw [stepsFrom]
    split <;> simp_all
  | succ k ih =>
    have hnext : n + step + k * step = n + (k + 1 : Nat) * step := by
      push_cast
      ring
    rw [stepsFrom]
    split
    · rw [List.getElem?_cons_succ, ih, hnext]
    · next hover => rw [if_neg fun h => hover h.of_later, List.getElem?_nil]

example : stepsFrom 10 3 1 = [1, 4, 7] := by cbv

/-- A progression goes on for as long as its numbers precede the bound. -/
theorem lt_length_stepsFrom_iff (k : Nat) :
    k < (stepsFrom stop step n).length ↔ Precedes stop step (n + k * step) := by
  rw [← Nat.not_le, ← List.getElem?_eq_none_iff, getElem?_stepsFrom]
  split <;> simp_all

end

/-- A rounded-up quotient is above a natural number exactly if the dividend is above that many times
the divisor. -/
theorem lt_toNat_ediv_iff {distance size : Int} (hsize : 0 < size) (k : Nat) :
    k < ((distance + size - 1) / size).toNat ↔ k * size < distance := by
  have hmore : (k + 1 : Int) * size = k * size + size := by ring
  rw [Int.lt_toNat, ← Int.add_one_le_iff, Int.le_ediv_iff_mul_le hsize, hmore]
  omega

/-- Looking up the places of a list in order gives as much of the list as there are places. -/
theorem filterMap_getElem?_range {α : Type} (xs : List α) (n : Nat) :
    (List.range n).filterMap (fun k => xs[k]?) = xs.take n := by
  induction n with
  | zero => rfl
  | succ n ih =>
    rw [List.range_succ, List.filterMap_append, ih, List.take_add_one]
    cases hx : xs[n]? <;> simp [hx]

namespace Progression

/-- The numbers of a progression in order. -/
def numbers (r : Progression) : List Int := stepsFrom r.stop.toInt r.step.toInt r.start.toInt

/-- The number at a place, if there are numbers up to there. -/
def number (r : Progression) (k : Nat) : Int := r.start.toInt + k * r.step.toInt

/-- A number lies between the start and the stop, and is not the stop. -/
def Spans (r : Progression) (n : Int) : Prop :=
  0 < r.step.toInt ∧ r.start.toInt ≤ n ∧ n < r.stop.toInt ∨
    r.step.toInt < 0 ∧ r.stop.toInt < n ∧ n ≤ r.start.toInt

section

variable (r : Progression)

theorem toInt_step_ne_zero : r.step.toInt ≠ 0 := by
  rw [← Int64.toInt_zero, Ne, Int64.toInt_inj]
  exact r.step_ne_zero

/-- Numbers at different places are different. -/
theorem number_injective {j k : Nat} (h : r.number j = r.number k) : j = k :=
  Int.ofNat.inj (Int.eq_of_mul_eq_mul_right r.toInt_step_ne_zero (Int.add_left_cancel h))

/-- A range goes on for as long as its numbers precede the stop. -/
theorem lt_length_numbers_iff (k : Nat) :
    k < r.numbers.length ↔ Precedes r.stop.toInt r.step.toInt (r.number k) :=
  lt_length_stepsFrom_iff k

/-- The numbers of a range are those of its progression. -/
theorem getElem?_numbers (k : Nat) :
    r.numbers[k]? = if k < r.numbers.length then some (r.number k) else none := by
  simp only [lt_length_numbers_iff]
  exact getElem?_stepsFrom ..

/-- A number stands in one place only. -/
theorem place_unique {j k : Nat} {n : Int} (hj : r.numbers[j]? = some n)
    (hk : r.numbers[k]? = some n) : j = k := by
  simp only [getElem?_numbers, Option.ite_none_right_eq_some, Option.some.injEq] at hj hk
  exact r.number_injective (hj.2.trans hk.2.symm)

/-- A number is one of a range if it is so at some position. -/
theorem mem_numbers_iff (n : Int) :
    n ∈ r.numbers ↔ ∃ k, k < r.numbers.length ∧ n = r.number k := by
  simp only [List.mem_iff_getElem?, getElem?_numbers, Option.ite_none_right_eq_some,
    Option.some.injEq]
  exact exists_congr fun k => and_congr_right fun _ => eq_comm

/-- There are numbers up to a place exactly if the number at that place lies before the stop. -/
theorem lt_count_iff (k : Nat) :
    k < r.count ↔ Precedes r.stop.toInt r.step.toInt (r.number k) := by
  have hbefore : Precedes r.stop.toInt r.step.toInt (r.number k) →
      Precedes r.stop.toInt r.step.toInt r.start.toInt := Precedes.of_later
  rcases Int.lt_or_gt_of_ne r.toInt_step_ne_zero with hdown | hup
  · have hcount : r.count = if r.stop.toInt < r.start.toInt then
        ((r.start.toInt - r.stop.toInt + -r.step.toInt - 1) / -r.step.toInt).toNat else 0 :=
      if_neg (Int.not_lt.mpr (Int.le_of_lt hdown))
    rw [hcount]
    unfold Precedes number at *
    split
    · rw [lt_toNat_ediv_iff (Int.neg_pos_of_neg hdown), Int.mul_neg]
      omega
    · omega
  · have hcount : r.count = if r.start.toInt < r.stop.toInt then
        ((r.stop.toInt - r.start.toInt + r.step.toInt - 1) / r.step.toInt).toNat else 0 := if_pos hup
    rw [hcount]
    unfold Precedes number at *
    split
    · rw [lt_toNat_ediv_iff hup]
      omega
    · omega

/-- The count of a range, computed without wrapping, is that of its numbers. -/
theorem count_eq : r.count = r.numbers.length :=
  eq_of_forall_lt_iff fun k => (r.lt_count_iff k).trans (r.lt_length_numbers_iff k).symm

/-! ### Length and items -/

/-- There are fewer numbers than lengths: no two of them are equal, and all of them are words. -/
theorem length_numbers_lt : r.numbers.length < Integer.lengthBound := by
  by_contra hlong
  have hlast := (r.lt_length_numbers_iff (Integer.lengthBound - 1)).mp (by
    unfold Integer.lengthBound at *
    omega)
  have hstart := r.start.le_toInt
  have hstart' := r.start.toInt_lt
  have hstop := r.stop.le_toInt
  have hstop' := r.stop.toInt_lt
  unfold Precedes number Integer.lengthBound at hlast
  omega

/-- The length is the number of items and never cut to the greatest one. -/
theorem length_eq : r.length = r.numbers.length := by
  have hfits := r.length_numbers_lt
  rw [length, count_eq]
  omega

/-- The numbers of a range lie between its start and its stop. -/
theorem spans_number {k : Nat} (h : k < r.numbers.length) : r.Spans (r.number k) :=
  ((r.lt_length_numbers_iff k).mp h).between

/-- What lies between the start and the stop is a word. -/
theorem fits_of_spans {n : Int} (h : r.Spans n) : -2 ^ 63 ≤ n ∧ n < 2 ^ 63 := by
  have hstart := r.start.le_toInt
  have hstart' := r.start.toInt_lt
  have hstop := r.stop.le_toInt
  have hstop' := r.stop.toInt_lt
  unfold Spans at h
  omega

/-- The item at a place is the number there. -/
theorem map_get? (k : Nat) : (r.get? k).map Int64.toInt = r.numbers[k]? := by
  rw [getElem?_numbers, get?, length_eq]
  split
  · next h =>
    have hfits := r.fits_of_spans (r.spans_number h)
    have hword : Integer.ofInt? (r.number k) = some (Int64.ofInt (r.number k)) := if_pos hfits
    rw [← number, hword, Option.map_some, Int64.toInt_ofInt_of_le hfits.1 hfits.2]
  · rfl

/-- The items are the numbers in order, none left out. -/
theorem map_items : r.items.map Int64.toInt = r.numbers := by
  rw [items, List.map_filterMap]
  simp only [map_get?]
  rw [filterMap_getElem?_range, length_eq, List.take_length]

/-- An item of a range is computed from its position. -/
theorem getElem?_items (k : Nat) : r.items[k]? = r.get? k := by
  refine Option.map_injective (fun a b => Int64.toInt_inj.mp) ?_
  rw [map_get?, ← map_items, List.getElem?_map]

/-- There are as many items as numbers. -/
theorem length_items : r.items.length = r.numbers.length := by
  rw [← map_items, List.length_map]

/-! ### Membership and equality -/

/-- Membership is told from the bounds and whether the steps meet the number. -/
theorem contains_eq_true_iff (n : Int64) :
    r.contains n = true ↔ r.Spans n.toInt ∧ r.step.toInt ∣ n.toInt - r.start.toInt := by
  have hstep := r.toInt_step_ne_zero
  rw [Int.dvd_iff_emod_eq_zero]
  unfold contains Spans
  split <;> simp [Int64.le_iff_toInt_le, Int64.lt_iff_toInt_lt] <;> omega

/-- What lies between the start and the stop and is met by the steps is one of the numbers. -/
theorem mem_numbers_iff_spans (n : Int) :
    n ∈ r.numbers ↔ r.Spans n ∧ r.step.toInt ∣ n - r.start.toInt := by
  rw [mem_numbers_iff]
  constructor
  · rintro ⟨k, hk, rfl⟩
    exact ⟨r.spans_number hk, k, by rw [number, add_sub_cancel_left, Int.mul_comm]⟩
  · rintro ⟨hspans, c, hc⟩
    have hsteps : 0 ≤ c := by
      by_contra hneg
      rcases hspans with ⟨hup, _⟩ | ⟨hdown, _⟩
      · have hproduct := Int.mul_neg_of_pos_of_neg hup (Int.not_le.mp hneg)
        omega
      · have hproduct := Int.mul_pos_of_neg_of_neg hdown (Int.not_le.mp hneg)
        omega
    have hnumber : n = r.number c.toNat := by
      rw [number, Int.toNat_of_nonneg hsteps, Int.mul_comm]
      omega
    refine ⟨c.toNat, (r.lt_length_numbers_iff _).mpr ?_, hnumber⟩
    rw [← hnumber]
    exact hspans.imp (fun h => ⟨h.1, h.2.2⟩) fun h => ⟨h.1, h.2.1⟩

/-- The numbers are words. -/
theorem fits_of_mem {n : Int} (h : n ∈ r.numbers) : -2 ^ 63 ≤ n ∧ n < 2 ^ 63 :=
  r.fits_of_spans ((r.mem_numbers_iff_spans n).mp h).1

/-- Containment, computed with a remainder, is being one of the numbers. -/
theorem contains_iff_mem_numbers (n : Int64) : r.contains n = true ↔ n.toInt ∈ r.numbers := by
  rw [contains_eq_true_iff, mem_numbers_iff_spans]

/-- Containment is being one of the items. -/
theorem contains_iff (n : Int64) : r.contains n = true ↔ n ∈ r.items := by
  rw [contains_iff_mem_numbers, ← map_items]
  exact List.mem_map_of_injective fun a b => Int64.toInt_inj.mp

end

/-- Ranges have the same numbers if they have as many, and the same at each position. -/
theorem numbers_eq_iff {r t : Progression} :
    r.numbers = t.numbers ↔ r.numbers.length = t.numbers.length ∧
      ∀ k < r.numbers.length, r.number k = t.number k := by
  constructor
  · intro h
    refine ⟨congrArg List.length h, fun k hk => ?_⟩
    have hitem : r.numbers[k]? = t.numbers[k]? := by rw [h]
    rwa [getElem?_numbers, getElem?_numbers, ← h, if_pos hk, if_pos hk, Option.some.injEq] at hitem
  · rintro ⟨hlength, hnumber⟩
    refine List.ext_getElem? fun k => ?_
    rw [getElem?_numbers, getElem?_numbers, ← hlength]
    split
    · next hk => rw [hnumber k hk]
    · rfl

/-- The same numbers are told from the lengths, and as far as the length lets them show, from where
the numbers start and how they go on. -/
theorem sameItems_iff (r t : Progression) : r.sameItems t = true ↔ r.numbers = t.numbers := by
  have hstart : r.start = t.start ↔ r.number 0 = t.number 0 := by
    simp [number, Int64.toInt_inj]
  have hstep (h : r.start = t.start) : r.step = t.step ↔ r.number 1 = t.number 1 := by
    simp [number, h, Int64.toInt_inj]
  simp only [sameItems, isEmpty, length_eq, Bool.and_eq_true, Bool.or_eq_true, beq_iff_eq,
    numbers_eq_iff]
  refine and_congr_right fun hlength => ?_
  constructor
  · rintro (hempty | ⟨hs, hone | hd⟩) k hk
    · omega
    · obtain rfl : k = 0 := by omega
      exact hstart.mp hs
    · rw [number, number, hs, hd]
  · intro h
    rcases Nat.eq_zero_or_pos r.numbers.length with hempty | hsome
    · exact .inl hempty
    · have hs := hstart.mpr (h 0 hsome)
      refine .inr ⟨hs, ?_⟩
      rcases Nat.lt_or_ge 1 r.numbers.length with hmore | hone
      · exact .inr ((hstep hs).mpr (h 1 hmore))
      · exact .inl (by omega)

end Progression

end ScriptShell
