import Mathlib.Data.String.Basic
import Mathlib.Tactic.Ring
import ScriptShell.Proofs.Value.Numbers
import ScriptShell.Proofs.Value.Order
import ScriptShell.Proofs.Value.Ranges

/-!
# Limits on what one step builds

A repetition is refused exactly if the list or string would be longer than the greatest length, and
so is making a list of a range; what is built has the size that the operands say. But two sequences
are joined and the keys of a dict are listed whatever the length: these steps go beyond the limit,
and they are the only ones.
-/

namespace ScriptShell

/-- The size of a list in items and of a string in bytes; no other value has one. -/
def Value.size? : Value → Option Nat
  | .list items => some items.length
  | .str s => some s.utf8ByteSize
  | _ => Option.none

/-- A value that is no list or string of more than the greatest length. -/
def Value.WithinLimit (v : Value) : Prop := ∀ n, v.size? = some n → n ≤ greatestLength

/-- The size of a text is its number of bytes. -/
theorem Value.withinLimit_str_iff {s : String} :
    (Value.str s).WithinLimit ↔ s.utf8ByteSize ≤ greatestLength := by
  simp [WithinLimit, size?]

/-- The size of the list or string that an operator makes of two values, if it makes one of them. -/
def Operator.builtSize? : Operator → Value → Value → Option Nat
  | .add, .str s, .str t => some (s.utf8ByteSize + t.utf8ByteSize)
  | .add, .list xs, .list ys => some (xs.length + ys.length)
  | .mul, .str s, .int n | .mul, .int n, .str s => some (n.toInt.toNat * s.utf8ByteSize)
  | .mul, .list xs, .int n | .mul, .int n, .list xs => some (n.toInt.toNat * xs.length)
  | _, _, _ => none

/-- The number of items that a value has as a list, if it has any notion of them. -/
def Value.count? : Value → Option Nat
  | .list items => some items.length
  | .str s => some s.length
  | .dict entries => some entries.length
  | .range r => some r.numbers.length
  | _ => Option.none

/-- A result is refused for want of memory. -/
def IsRefused (result : Except EvalError Value) : Prop :=
  ∃ e, result = .error e ∧ e.category = .memory

/-- What is built is within the limit, and what would not be is refused. -/
structure KeepsLimit (size? : Option Nat) (result : Except EvalError Value) : Prop where
  within : ∀ v, result = .ok v → v.WithinLimit
  refused : ∀ n, size? = some n → greatestLength < n → IsRefused result

/-- What is built has the given size, and is refused exactly if it is subject to the limit and
beyond it. -/
structure BuildsSized (size? : Option Nat) (limited : Prop) (result : Except EvalError Value) :
    Prop where
  size : ∀ v, result = .ok v → v.size? = size?
  refused : IsRefused result ↔ limited ∧ ∃ n, size? = some n ∧ greatestLength < n

namespace BuildsSized

variable {size? : Option Nat} {limited : Prop} {result : Except EvalError Value}

/-- The limit is kept exactly where all that would be beyond it is subject to it. -/
theorem keepsLimit_iff (h : BuildsSized size? limited result) :
    KeepsLimit size? result ↔ ∀ n, size? = some n → greatestLength < n → limited := by
  constructor
  · exact fun hkeeps n hn hlarge => (h.refused.mp (hkeeps.refused n hn hlarge)).1
  · intro hlimited
    refine ⟨fun v hv n hn => ?_, fun n hn hlarge =>
      h.refused.mpr ⟨hlimited n hn hlarge, n, hn, hlarge⟩⟩
    by_contra hlarge
    have hsize : size? = some n := (h.size v hv).symm.trans hn
    obtain ⟨e, he, -⟩ := h.refused.mpr
      ⟨hlimited n hsize (Nat.lt_of_not_le hlarge), n, hsize, Nat.lt_of_not_le hlarge⟩
    rw [hv] at he
    cases he

theorem ok {v : Value} (hsize : v.size? = size?)
    (hwithin : limited → ∀ n, size? = some n → n ≤ greatestLength) :
    BuildsSized size? limited (.ok v) where
  size w hw := by
    cases hw
    exact hsize
  refused := by
    refine iff_of_false (by rintro ⟨e, he, -⟩; cases he) ?_
    rintro ⟨hlimited, n, hn, hlarge⟩
    exact absurd (hwithin hlimited n hn) (Nat.not_le.mpr hlarge)

/-- A result that is a number or a truth value, or a fault other than want of memory. -/
theorem none_ok {v : Value} (hsize : v.size? = none) : BuildsSized none limited (.ok v) :=
  .ok hsize fun _ _ => nofun

theorem none_error {e : EvalError} (he : e.category ≠ .memory) :
    BuildsSized none limited (.error e) where
  size := nofun
  refused := by
    refine iff_of_false ?_ (by rintro ⟨-, n, hn, -⟩; cases hn)
    rintro ⟨e', he', hmemory⟩
    cases he'
    exact he hmemory

theorem tooLarge {e : EvalError} {n : Nat} (he : e.category = .memory) (hlimited : limited)
    (hn : greatestLength < n) : BuildsSized (some n) limited (.error e) where
  size := nofun
  refused := iff_of_true ⟨e, rfl, he⟩ ⟨hlimited, n, rfl, hn⟩

end BuildsSized

/-! ### Operators -/

/-- A repeated text is as long as its repetitions together. -/
theorem utf8ByteSize_join_replicate (count : Nat) (s : String) :
    (String.join (List.replicate count s)).utf8ByteSize = count * s.utf8ByteSize := by
  induction count with
  | zero => simp
  | succ count ih =>
    rw [List.replicate_succ, String.join_cons, String.utf8ByteSize_append, ih]
    ring

/-- A repetition that is refused if it would be beyond the limit. -/
theorem buildsSized_repetitions {limited : Prop} (hlimited : limited) (times : Int64) {length : Nat}
    {build : Nat → Value} (hbuild : ∀ count, (build count).size? = some (count * length)) :
    BuildsSized (some (times.toInt.toNat * length)) limited
      (repetitions times length >>= fun count => .ok (build count)) := by
  unfold repetitions
  dsimp only
  split
  · next hwithin =>
    refine .ok (hbuild _) fun _ n hn => ?_
    cases hn
    exact hwithin
  · next hlarge => exact .tooLarge rfl hlimited (Nat.lt_of_not_le hlarge)

section

variable {limited : Prop}

/-- Repeating a text builds one of the product of the sizes, or is refused for that size. -/
theorem buildsSized_repeatText (hlimited : limited) (times : Int64) (s : String) :
    BuildsSized (some (times.toInt.toNat * s.utf8ByteSize)) limited (repeatText times s) := by
  refine buildsSized_repetitions hlimited times fun count => ?_
  split
  · next hempty => simp [Value.size?, String.isEmpty_iff_utf8ByteSize_eq_zero.mp hempty]
  · rw [Value.size?, utf8ByteSize_join_replicate]

/-- Repeating a list builds one of the product of the sizes, or is refused for that size. -/
theorem buildsSized_repeatItems (hlimited : limited) (times : Int64) (items : List Value) :
    BuildsSized (some (times.toInt.toNat * items.length)) limited (repeatItems times items) := by
  refine buildsSized_repetitions hlimited times fun count => ?_
  split
  · next hempty => simp [Value.size?, List.isEmpty_iff.mp hempty]
  · simp [Value.size?]

/-- A number has no size. -/
theorem buildsSized_of_isNumeric {result : Except EvalError Value} (h : IsNumeric result) :
    BuildsSized none limited result := by
  cases h with
  | int n => exact .none_ok rfl
  | float x => exact .none_ok rfl
  | overflow => exact .none_error nofun
  | divisionByZero => exact .none_error nofun
  | operandKinds => exact .none_error nofun

/-- Arithmetic builds nothing that has a size. -/
theorem buildsSized_ofNumbers (op : Operator) (a b : Value) :
    BuildsSized none limited (op.ofNumbers a b) :=
  buildsSized_of_isNumeric (op.isNumeric_ofNumbers a b)

/-- A truth value, or a fault of types. -/
theorem buildsSized_truth {result : Except EvalError Bool}
    (h : ∀ e, result = .error e → e.category = .type) :
    BuildsSized none limited (result.map .bool) := by
  cases result with
  | error e => exact .none_error (by simp [h e rfl])
  | ok holds => exact .none_ok rfl

end

/-- What cannot be looked into is a fault of its type. -/
theorem category_of_contains {container item : Value} {e : EvalError}
    (h : container.contains item = .error e) : e.category = .type := by
  unfold Value.contains at h
  split at h
  · cases h
  · cases h
  · split at h <;> cases h
    rfl
  · split at h <;> cases h
  · cases h
    rfl

/-- Joining builds a value of the sum of the sizes, and looks at no limit. -/
theorem buildsSized_add (a b : Value) :
    BuildsSized (Operator.add.builtSize? a b) (Operator.add ≠ .add) (Operator.add.apply a b) := by
  unfold Operator.apply
  dsimp only
  split
  · exact .ok (by rw [Value.size?, String.utf8ByteSize_append]; rfl) (absurd rfl)
  · exact .ok (by rw [Value.size?, List.length_append]; rfl) (absurd rfl)
  · next htexts hlists =>
    have hnone : Operator.add.builtSize? a b = none := by
      unfold Operator.builtSize?
      split <;> simp_all
    rw [hnone]
    exact buildsSized_ofNumbers .add a b

/-- Multiplying builds a value of the product of the sizes within the limit, or is refused. -/
theorem buildsSized_mul (a b : Value) :
    BuildsSized (Operator.mul.builtSize? a b) (Operator.mul ≠ .add) (Operator.mul.apply a b) := by
  unfold Operator.apply
  dsimp only
  split
  · exact buildsSized_repeatText nofun _ _
  · exact buildsSized_repeatText nofun _ _
  · exact buildsSized_repeatItems nofun _ _
  · exact buildsSized_repeatItems nofun _ _
  · have hnone : Operator.mul.builtSize? a b = none := by
      unfold Operator.builtSize?
      split <;> simp_all
    rw [hnone]
    exact buildsSized_ofNumbers .mul a b

/-- What an operator builds has the size that its operands say, and all but joining two sequences is
subject to the limit. -/
theorem Operator.buildsSized (op : Operator) (a b : Value) :
    BuildsSized (op.builtSize? a b) (op ≠ .add) (op.apply a b) := by
  have hcompare (op other : Operator) :
      BuildsSized none (other ≠ .add) ((Value.compare op a b).map .bool) :=
    buildsSized_truth fun _ => Value.category_of_compare
  cases op with
  | add => exact buildsSized_add a b
  | mul => exact buildsSized_mul a b
  | eq => exact .none_ok rfl
  | ne => exact .none_ok rfl
  | lt => exact hcompare .lt .lt
  | gt => exact hcompare .gt .gt
  | le => exact hcompare .le .le
  | ge => exact hcompare .ge .ge
  | isIn => exact buildsSized_truth fun _ => category_of_contains
  | sub => exact buildsSized_ofNumbers .sub a b
  | div => exact buildsSized_ofNumbers .div a b
  | floorDiv => exact buildsSized_ofNumbers .floorDiv a b
  | mod => exact buildsSized_ofNumbers .mod a b
  | pow => exact buildsSized_ofNumbers .pow a b

/-! ### Lists of items -/

/-- A text has no more characters than bytes. -/
theorem length_le_utf8ByteSize (s : String) : s.length ≤ s.utf8ByteSize := by
  rw [← String.length_toList, ← String.utf8Len_toList]
  induction s.toList with
  | nil => exact Nat.le_refl _
  | cons c cs ih =>
    have hc := c.utf8Size_pos
    rw [List.length_cons, String.utf8Len_cons]
    omega

/-- A list of a range has as many items as the range, within the limit. -/
theorem buildsSized_list_range (r : Progression) :
    BuildsSized (Value.range r).count? ((Value.range r).kind = .range)
      (Builtin.list.convert [.range r]) := by
  rw [Progression.convert_list, Value.count?, ← Progression.length_items]
  split
  · next hlong => exact .tooLarge rfl rfl hlong
  · next hshort =>
    refine .ok (by rw [Value.size?, List.length_map]) fun _ n hn => ?_
    cases hn
    exact Nat.le_of_not_lt hshort

/-- A list made of a value has as many items as the value, and only of a range is it subject to the
limit. -/
theorem Value.buildsSized_list (v : Value) :
    BuildsSized v.count? (v.kind = .range) (Builtin.list.convert [v]) := by
  cases v with
  | list items => exact .ok rfl nofun
  | str s => exact .ok (by simp [Value.size?, Value.count?, String.length_toList]) nofun
  | dict entries => exact .ok (by simp [Value.size?, Value.count?]) nofun
  | range r => exact buildsSized_list_range r
  | _ => exact .none_error nofun

/-- Lists and strings within the limit have no more items than the limit, for a character takes at
least one byte. -/
theorem Value.WithinLimit.count_le {v : Value} (h : v.WithinLimit) (hrange : v.kind ≠ .range)
    (hdict : v.kind ≠ .dict) {n : Nat} (hn : v.count? = some n) : n ≤ greatestLength := by
  cases v with
  | list items => exact h n hn
  | str s =>
    cases hn
    exact Nat.le_trans (length_le_utf8ByteSize s) (withinLimit_str_iff.mp h)
  | dict entries => exact absurd rfl hdict
  | range r => exact absurd rfl hrange
  | _ => cases hn

/-! ### Which steps keep the limit -/

/-- What a step builds has the size that its operands say. An operator keeps the limit except where
it joins two sequences that are too long together, and making a list keeps it except for the keys of
a dict that has too many of them. -/
theorem limit_kept_iff (op : Operator) (a b : Value) {v : Value} (hv : v.WithinLimit) :
    BuildsSized (op.builtSize? a b) (op ≠ .add) (op.apply a b) ∧
      (KeepsLimit (op.builtSize? a b) (op.apply a b) ↔
        (op = .add → ∀ n, op.builtSize? a b = some n → n ≤ greatestLength)) ∧
      BuildsSized v.count? (v.kind = .range) (Builtin.list.convert [v]) ∧
      (KeepsLimit v.count? (Builtin.list.convert [v]) ↔
        (v.kind = .dict → ∀ n, v.count? = some n → n ≤ greatestLength)) := by
  have happly := op.buildsSized a b
  have hlist := v.buildsSized_list
  refine ⟨happly, happly.keepsLimit_iff.trans ?_, hlist, hlist.keepsLimit_iff.trans ?_⟩
  · constructor
    · intro hlimited hadd n hn
      exact Nat.le_of_not_lt fun hlarge => hlimited n hn hlarge hadd
    · intro hjoined n hn hlarge hadd
      exact Nat.not_le.mpr hlarge (hjoined hadd n hn)
  · constructor
    · intro hlimited hdict n hn
      refine Nat.le_of_not_lt fun hlarge => ?_
      have hrange := hlimited n hn hlarge
      rw [hdict] at hrange
      cases hrange
    · intro hkeys n hn hlarge
      by_contra hrange
      have hdict : v.kind ≠ .dict := fun hdict => Nat.not_le.mpr hlarge (hkeys hdict n hn)
      exact Nat.not_le.mpr hlarge (hv.count_le hrange hdict hn)

/-- A repeated text that is too long, and a list of the keys of a dict. -/
theorem limit_kept_iff_repeated :
    (Value.dict [("a", .none)]).WithinLimit ∧
      IsRefused (Operator.mul.apply (.str "ab") (.int 8388609)) ∧
      KeepsLimit (some 1) (Builtin.list.convert [.dict [("a", .none)]]) := by
  have hdict : (Value.dict [("a", .none)]).WithinLimit := nofun
  obtain ⟨hmul, -, -, hkeys⟩ := limit_kept_iff .mul (.str "ab") (.int 8388609) hdict
  refine ⟨hdict, hmul.refused.mpr ⟨nofun, _, rfl, by decide⟩, hkeys.mpr fun _ n hn => ?_⟩
  cases hn
  decide

/-- A text of the greatest length is joined with one more character. -/
theorem joined_beyond_limit :
    (Value.str (String.join (List.replicate greatestLength "a"))).WithinLimit ∧
      (Value.str "a").WithinLimit ∧
      ∃ v, Operator.add.apply (.str (String.join (List.replicate greatestLength "a"))) (.str "a") =
        .ok v ∧ ¬ v.WithinLimit := by
  have hone : "a".utf8ByteSize = 1 := rfl
  have hsize := utf8ByteSize_join_replicate greatestLength "a"
  rw [hone, Nat.mul_one] at hsize
  refine ⟨Value.withinLimit_str_iff.mpr (Nat.le_of_eq hsize),
    Value.withinLimit_str_iff.mpr (by decide), _, rfl, fun hwithin => ?_⟩
  rw [Value.withinLimit_str_iff, String.utf8ByteSize_append, hsize, hone] at hwithin
  exact Nat.not_succ_le_self _ hwithin

end ScriptShell
