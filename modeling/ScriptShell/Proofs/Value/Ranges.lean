import ScriptShell.Function.Conversion
import ScriptShell.Proofs.Value.WideWords

/-!
# Ranges and their items

A range is asked for its length, its items and what is in it without making them. The answers are
those of the list of its items: so are going through it, taking it for a condition, comparing it with
another range and making it a list, which is refused for more than two to the twenty-fourth items.
Only an index does not always find its item, for it is counted from the end with a length of at most
the greatest word.
-/

namespace ScriptShell

/-- Taking one item after the other gives these values, and then there are no more. -/
inductive Value.Items.Yields : Value.Items → List Value → Prop
  | over {items : Value.Items} : items.next? = Option.none → Yields items []
  | next {items others : Value.Items} {v : Value} {vs : List Value} :
      items.next? = some (v, others) → Yields others vs → Yields items (v :: vs)

namespace Progression

/-- What is told of a range and what is made of it are those of a list of words. -/
structure StandsFor (r : Progression) (ns : List Int64) : Prop where
  /-- The length is not cut to the greatest one. -/
  count : r.count = ns.length
  length : r.length = ns.length
  get? : ∀ i, r.get? i = ns[i]?
  contains : ∀ n, r.contains n = true ↔ n ∈ ns
  isTruthy : (Value.range r).isTruthy = true ↔ ns ≠ []
  iterate : ∃ items, (Value.range r).iterate = .ok items ∧ items.Yields (ns.map .int)
  list : ns.length ≤ 2 ^ 24 → Builtin.list.convert [.range r] = .ok (.list (ns.map .int))
  tooLong : (∃ e, Builtin.list.convert [.range r] = .error e ∧ e.category = .memory) ↔
    2 ^ 24 < ns.length

/-- Going on from a place in a range gives the items from that place on. -/
theorem yields_steps (r : Progression) (k : Nat) :
    (Value.Items.steps r k).Yields ((r.items.drop k).map .int) := by
  induction hrest : r.items.drop k generalizing k with
  | nil =>
    have hover : r.get? k = none := by
      rw [← getElem?_items, List.getElem?_eq_none (List.drop_eq_nil_iff.mp hrest)]
    exact .over (by rw [Value.Items.next?, hover, Option.map_none])
  | cons n ns ih =>
    have hitem : r.get? k = some n := by
      rw [← getElem?_items, ← Nat.add_zero k, ← List.getElem?_drop, hrest]
      rfl
    have hrest' : r.items.drop (k + 1) = ns := by
      rw [← List.tail_drop, hrest, List.tail_cons]
    exact .next (by rw [Value.Items.next?, hitem, Option.map_some]) (ih (k + 1) hrest')

theorem convert_list (r : Progression) :
    Builtin.list.convert [.range r] =
      if 2 ^ 24 < r.items.length then .error (.rangeTooLong r)
      else .ok (.list (r.items.map .int)) := by
  have hcollect : (Value.range r).collect = if 2 ^ 24 < r.items.length then .error (.rangeTooLong r)
      else .ok (r.items.map .int) := by
    rw [length_items, ← length_eq]
    rfl
  have hconvert : Builtin.list.convert [.range r] = (Value.range r).collect.map .list := rfl
  rw [hconvert, hcollect]
  split <;> rfl

theorem standsFor_items (r : Progression) : r.StandsFor r.items where
  count := by rw [count_eq, length_items]
  length := by rw [length_eq, length_items]
  get? i := (r.getElem?_items i).symm
  contains := r.contains_iff
  isTruthy := by
    simp [Value.isTruthy, isEmpty, length_eq, ← length_items]
  iterate := ⟨.steps r 0, rfl, r.yields_steps 0⟩
  list h := by rw [convert_list, if_neg (Nat.not_lt.mpr h)]
  tooLong := by
    rw [convert_list]
    split
    · next hlong => exact iff_of_true ⟨_, rfl, rfl⟩ hlong
    · next hshort => exact iff_of_false (by rintro ⟨e, he, -⟩; cases he) hshort

theorem equals_range_iff (r t : Progression) :
    (Value.range r).equals (.range t) = true ↔ r.numbers = t.numbers := by
  have hequals : (Value.range r).equals (.range t) = r.sameItems t := by simp [Value.equals]
  rw [hequals, sameItems_iff]

end Progression

/-- A range stands for its numbers: they are words, every question about the range is answered as the
list of them would answer it, ranges are equal exactly if their numbers are, and no computation on the
way leaves the wide words. -/
theorem range_stands_for_numbers (r : Progression) :
    (∃ ns : List Int64, ns.map Int64.toInt = r.numbers ∧ r.StandsFor ns) ∧
      (∀ t : Progression, (Value.range r).equals (.range t) = true ↔ r.numbers = t.numbers) ∧
      r.wideCount? = some (r.count : Int) ∧ (∀ i, r.wideGet? i = some (r.get? i)) ∧
      ∀ n, r.wideContains? n = some (r.contains n) :=
  ⟨⟨r.items, r.map_items, r.standsFor_items⟩, r.equals_range_iff, r.wideCount?_eq, r.wideGet?_eq,
    r.wideContains?_eq⟩

/-! ### Indices -/

/-- What an index finds in a list: an index below zero is counted from the end, and one that leaves
the list on either side finds nothing. -/
inductive IsItemAt (ns : List Int) (i : Int) : Except EvalError Value → Prop
  | fromStart {n : Int64} : 0 ≤ i → ns[i.toNat]? = some n.toInt → IsItemAt ns i (.ok (.int n))
  | fromEnd {n : Int64} : i < 0 → 0 ≤ ns.length + i →
      ns[(ns.length + i).toNat]? = some n.toInt → IsItemAt ns i (.ok (.int n))
  | outside : i < -ns.length ∨ ns.length ≤ i → IsItemAt ns i (.error (.outOfRange .range))

/-- The place that an index denotes: one below zero is counted from the end, and for that the length is
cut to the greatest word. -/
theorem Value.position_int (i : Int64) {length n : Nat} (hn : n = min (2 ^ 63 - 1) length)
    (sequence : Sequence) :
    (Value.int i).position length sequence =
      let place := if i.toInt < 0 then n + i.toInt else i.toInt
      if 0 ≤ place ∧ place < n then .ok place.toNat else .error (.outOfRange sequence) := by
  have hlength : (min length (Integer.bound - 1) : Int) = n := by
    unfold Integer.bound
    omega
  have hsign : i < 0 ↔ i.toInt < 0 := Int64.lt_iff_toInt_lt
  simp only [← hlength, ← hsign, Int.add_comm _ i.toInt]
  rfl

namespace Progression

variable (r : Progression) (i : Int64)

theorem item_range_eq :
    (Value.range r).item (.int i) = ((Value.int i).position r.length .range).bind fun k =>
      match r.get? k with
      | some n => .ok (.int n)
      | none => .error (.outOfRange .range) := rfl

/-- Where there is a number, the item at that place is the word for it. -/
theorem exists_get?_eq_some {k : Nat} (h : k < r.numbers.length) :
    ∃ n, r.get? k = some n ∧ r.numbers[k]? = some n.toInt := by
  have hget := r.map_get? k
  rw [getElem?_numbers, if_pos h] at hget ⊢
  obtain ⟨n, hn, hnumber⟩ := Option.map_eq_some_iff.mp hget
  exact ⟨n, hn, congrArg some hnumber.symm⟩

/-- An index finds its item among as many of the first numbers as the greatest word. -/
theorem isItemAt_take :
    IsItemAt (r.numbers.take (2 ^ 63 - 1)) i.toInt ((Value.range r).item (.int i)) := by
  generalize hms : r.numbers.take (2 ^ 63 - 1) = ms
  have hlength : ms.length = min (2 ^ 63 - 1) r.length := by
    rw [← hms, List.length_take, length_eq]
  have hfound {k : Nat} (hk : k < ms.length) : ∃ n, r.get? k = some n ∧ ms[k]? = some n.toInt := by
    rw [hlength, length_eq] at hk
    obtain ⟨n, hget, hnumber⟩ := r.exists_get?_eq_some (Nat.lt_min.mp hk).2
    exact ⟨n, hget, by rw [← hms, List.getElem?_take_of_lt (Nat.lt_min.mp hk).1, hnumber]⟩
  rw [item_range_eq, Value.position_int i hlength]
  by_cases hi : i.toInt < 0
  · simp only [if_pos hi]
    split
    · obtain ⟨n, hget, hnumber⟩ := hfound (k := (ms.length + i.toInt).toNat) (by omega)
      simp only [Except.bind, hget]
      exact .fromEnd hi (by omega) hnumber
    · exact .outside (.inl (by omega))
  · simp only [if_neg hi]
    split
    · obtain ⟨n, hget, hnumber⟩ := hfound (k := i.toInt.toNat) (by omega)
      simp only [Except.bind, hget]
      exact .fromStart (by omega) hnumber
    · exact .outside (.inr (by omega))

/-- An index finds its item in a range whose length is a word, and from the start on in every range up
to the greatest word. -/
theorem isItemAt_numbers_iff :
    IsItemAt r.numbers i.toInt ((Value.range r).item (.int i)) ↔
      r.numbers.length < 2 ^ 63 ∨ 0 ≤ i.toInt ∧ i.toInt < 2 ^ 63 - 1 := by
  have htake := r.isItemAt_take i
  have hlength : (r.numbers.take (2 ^ 63 - 1)).length = min (2 ^ 63 - 1) r.numbers.length :=
    List.length_take
  have hi := i.le_toInt
  have hi' := i.toInt_lt
  generalize (Value.range r).item (.int i) = result at htake ⊢
  constructor
  · intro h
    by_contra hnot
    cases h with
    | fromStart hfront hn =>
      cases htake with
      | fromStart _ hn' =>
        have hplace := (List.getElem?_eq_some_iff.mp hn').1
        omega
      | fromEnd hback => omega
    | fromEnd hback _ hn =>
      cases htake with
      | fromStart hfront => omega
      | fromEnd _ hplace hn' =>
        rw [List.getElem?_take_of_lt (by omega)] at hn'
        have hsame := r.place_unique hn hn'
        omega
    | outside hout => omega
  · rintro (hshort | hfront)
    · rwa [List.take_of_length_le (by omega)] at htake
    · cases htake with
      | fromStart h hn =>
        rw [List.getElem?_take_of_lt (by omega)] at hn
        exact .fromStart h hn
      | fromEnd hback => omega
      | outside hout => exact .outside (.inr (by omega))

end Progression

/-- An index finds its item among the first numbers of a range, as many as the greatest word. So it
finds its item in the whole range exactly if the length of the range is a word, or the index is counted
from the start and is not the greatest word. -/
theorem range_item_iff (r : Progression) (i : Int64) :
    IsItemAt (r.numbers.take (2 ^ 63 - 1)) i.toInt ((Value.range r).item (.int i)) ∧
      (IsItemAt r.numbers i.toInt ((Value.range r).item (.int i)) ↔
        r.numbers.length < 2 ^ 63 ∨ 0 ≤ i.toInt ∧ i.toInt < 2 ^ 63 - 1) :=
  ⟨r.isItemAt_take i, r.isItemAt_numbers_iff i⟩

/-- A range over almost all words has the greatest but one for its last item, and minus one is found
instead. -/
theorem range_last_item_missed :
    ∃ r, Progression.of? (-9223372036854775807) 9223372036854775807 1 = some r ∧
      r.numbers.getLast? = some 9223372036854775806 ∧
      (Value.range r).item (.int (-1)) = .ok (.int (-1)) ∧
      ¬IsItemAt r.numbers (-1) ((Value.range r).item (.int (-1))) := by
  let r : Progression := ⟨-9223372036854775807, 9223372036854775807, 1, by decide⟩
  have hlength : r.numbers.length = 18446744073709551614 := by
    rw [← Progression.count_eq]
    decide +kernel
  have hnumber (k : Nat) : r.number k = -9223372036854775807 + k := by
    rw [Progression.number, show r.step.toInt = 1 from rfl, Int.mul_one]
    rfl
  have hlast : r.numbers.getLast? = some 9223372036854775806 := by
    rw [List.getLast?_eq_getElem?, Progression.getElem?_numbers, hlength, hnumber]
    rfl
  have hplace : r.numbers[9223372036854775806]? = some (-1) := by
    rw [Progression.getElem?_numbers, hlength, hnumber]
    rfl
  have hminus : (-1 : Int64).toInt = -1 := rfl
  have hitem : (Value.range r).item (.int (-1)) = .ok (.int (-1)) := by
    have hfound := r.isItemAt_take (-1)
    have hfirst : (r.numbers.take (2 ^ 63 - 1)).length = 9223372036854775807 := by
      rw [List.length_take, hlength]
      rfl
    generalize (Value.range r).item (.int (-1)) = result at hfound ⊢
    cases hfound with
    | fromStart hfront => exact absurd hfront (by decide)
    | @fromEnd n _ _ hn =>
      rw [hfirst, hminus, List.getElem?_take_of_lt (by decide)] at hn
      obtain rfl : n = -1 := Int64.toInt_inj.mp (Option.some.inj (hn.symm.trans hplace))
      rfl
    | outside hout =>
      rw [hfirst, hminus] at hout
      exact absurd hout (by decide)
  refine ⟨r, rfl, hlast, hitem, ?_⟩
  have hiff := r.isItemAt_numbers_iff (-1)
  rw [hlength] at hiff
  exact fun h => absurd (hiff.mp h) (by decide)

end ScriptShell
