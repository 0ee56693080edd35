import Mathlib.Order.Basic
import ScriptShell.Value.Arithmetic

/-!
# Order of integers, strings and lists

Integers stand in an order by size, strings by their characters, and lists by the first items that
are not equal, a list standing before the longer ones that it starts. Items behind these are not
looked at, so that two lists may have an order although some of their items have none. The order of
two values seen from the other side looks at the same items, and the order of the outer two of three
values at no others than the orders of neighbours do. So the comparisons agree with each other and
with equality, and where one of them has an answer all of them have.
-/

namespace ScriptShell

/-! ### Orders of integers and texts -/

theorem ite_lt_eq_compare {α : Type} [Ord α] [LT α] [LE α] [Std.LawfulOrderOrd α]
    [Std.LawfulOrderLT α] [DecidableLT α] (a b : α) :
    (if a < b then Ordering.lt else if b < a then .gt else .eq) = Ord.compare a b := by
  have hlt : a < b ↔ Ord.compare a b = .lt := Std.compare_eq_lt.symm
  have hgt : b < a ↔ Ord.compare a b = .gt := Std.compare_eq_gt.symm
  cases h : Ord.compare a b <;> simp [hlt, hgt, h]

/-- Of three things the outer two stand in the first order of neighbours that is not equality, if
neither order is backward. -/
theorem cmp_eq_then {α : Type} {cmp : α → α → Ordering} [Std.TransCmp cmp] {a b c : α}
    (hab : (cmp a b).isLE) (hbc : (cmp b c).isLE) : cmp a c = (cmp a b).then (cmp b c) := by
  cases h : cmp a b with
  | gt => simp [h] at hab
  | eq =>
    rw [Ordering.eq_then]
    exact Std.TransCmp.congr_left h
  | lt => exact Std.TransCmp.lt_of_lt_of_isLE h hbc

/-- The order of characters by their code points tells them apart. -/
instance lawfulEqCmp_compareOn_toNat : Std.LawfulEqCmp (compareOn Char.toNat) where
  compare_self := Nat.compare_eq_eq.mpr rfl
  eq_of_compare h := Char.toNat_inj.mp (Nat.compare_eq_eq.mp h)

namespace Value

theorem orderOfInts_eq (m n : Int64) : orderOfInts m n = Ord.compare m n := ite_lt_eq_compare m n

theorem orderOfTexts_eq (cs ds : List Char) :
    orderOfTexts cs ds = List.compareLex (compareOn Char.toNat) cs ds := by
  induction cs generalizing ds with
  | nil => cases ds <;> rfl
  | cons c cs ih =>
    cases ds with
    | nil => rfl
    | cons d ds =>
      have hhead : (compareOn Char.toNat c d) =
          if c.toNat < d.toNat then .lt else if d.toNat < c.toNat then .gt else .eq :=
        (ite_lt_eq_compare c.toNat d.toNat).symm
      rw [List.compareLex_cons_cons, hhead, orderOfTexts, ih]
      split
      · rfl
      · split <;> rfl

/-! ### Orders of values -/

/-- Integers, strings, and lists of such values. -/
inductive IsOrderable : Value → Prop
  | int (n : Int64) : IsOrderable (.int n)
  | str (s : String) : IsOrderable (.str s)
  | list {items : List Value} (parts : ∀ v ∈ items, IsOrderable v) : IsOrderable (.list items)

/-- Two values stand in an order. Lists are told apart by their first items that are not equal. -/
inductive Compares : Value → Value → Ordering → Prop
  | ints (m n : Int64) : Compares (.int m) (.int n) (orderOfInts m n)
  | texts (s t : String) : Compares (.str s) (.str t) (orderOfTexts s.toList t.toList)
  | same : Compares (.list []) (.list []) .eq
  | shorter (y : Value) (ys : List Value) : Compares (.list []) (.list (y :: ys)) .lt
  | longer (x : Value) (xs : List Value) : Compares (.list (x :: xs)) (.list []) .gt
  | decided {x y : Value} {xs ys : List Value} {o : Ordering} : Compares x y o → o ≠ .eq →
      Compares (.list (x :: xs)) (.list (y :: ys)) o
  | next {x y : Value} {xs ys : List Value} {o : Ordering} : Compares x y .eq →
      Compares (.list xs) (.list ys) o → Compares (.list (x :: xs)) (.list (y :: ys)) o

namespace Compares

variable {a b c : Value} {o o' : Ordering}

theorem order (h : Compares a b o) (op : Operator) : a.order op b = .ok (some o) := by
  induction h with
  | ints m n => rw [Value.order]
  | texts s t => rw [Value.order]
  | same => rw [Value.order, orderOfItems]
  | shorter y ys => rw [Value.order, orderOfItems]
  | longer x xs => rw [Value.order, orderOfItems]
  | @decided x y xs ys o _ hne ih =>
    rw [Value.order, orderOfItems, ih]
    cases o with
    | eq => exact absurd rfl hne
    | lt => rfl
    | gt => rfl
  | next _ _ ihx ihxs =>
    rw [Value.order] at ihxs ⊢
    rw [orderOfItems, ihx]
    exact ihxs

/-- From the other side the order is turned round. -/
theorem swap (h : Compares a b o) : Compares b a o.swap := by
  induction h with
  | ints m n =>
    rw [orderOfInts_eq, ← Std.OrientedOrd.eq_swap, ← orderOfInts_eq]
    exact .ints n m
  | texts s t =>
    rw [orderOfTexts_eq, ← Std.OrientedCmp.eq_swap, ← orderOfTexts_eq]
    exact .texts t s
  | same => exact .same
  | shorter y ys => exact .longer y ys
  | longer x xs => exact .shorter x xs
  | decided _ hne ih => exact .decided ih (mt Ordering.swap_eq_eq.mp hne)
  | next _ _ ihx ihxs => exact .next ihx ihxs

/-- Of three values the outer two stand in the first order of neighbours that is not equality, if
neither order is backward. -/
theorem trans (h : Compares a b o) (h' : Compares b c o') (ho : o.isLE) (ho' : o'.isLE) :
    Compares a c (o.then o') := by
  induction h generalizing c o' with
  | ints m n =>
    cases h' with
    | ints _ k =>
      rw [orderOfInts_eq] at ho ho' ⊢
      rw [orderOfInts_eq, ← cmp_eq_then ho ho', ← orderOfInts_eq]
      exact .ints m k
  | texts s t =>
    cases h' with
    | texts _ u =>
      rw [orderOfTexts_eq] at ho ho' ⊢
      rw [orderOfTexts_eq, ← cmp_eq_then ho ho', ← orderOfTexts_eq]
      exact .texts s u
  | same =>
    cases h' with
    | same => exact .same
    | shorter z zs => exact .shorter z zs
  | shorter y ys =>
    cases h' with
    | longer => simp at ho'
    | decided => exact .shorter ..
    | next => exact .shorter ..
  | longer => simp at ho
  | @decided x y xs ys o hxy hne ih =>
    obtain rfl : o = .lt := by cases o <;> simp_all
    cases h' with
    | longer => simp at ho'
    | decided hyz _ => exact .decided (ih hyz ho ho') nofun
    | next hyz _ =>
      have hxz := ih hyz ho rfl
      exact .decided hxz nofun
  | @next x y xs ys o hxy hrest ihx ihxs =>
    cases h' with
    | longer => simp at ho'
    | @decided _ z _ zs o' hyz hne =>
      obtain rfl : o' = .lt := by cases o' <;> simp_all
      have hlt : o.then .lt = .lt := by cases o <;> simp_all
      rw [hlt]
      exact .decided (ihx hyz rfl rfl) nofun
    | next hyz hrest' => exact .next (ihx hyz rfl rfl) (ihxs hrest' ho ho')

/-- Values that stand in an order are equal exactly if the order says so. -/
theorem equals_iff (h : Compares a b o) : a.equals b = true ↔ o = .eq := by
  induction h with
  | ints m n =>
    rw [orderOfInts_eq, Std.LawfulEqOrd.compare_eq_iff_eq]
    simp [equals]
  | texts s t =>
    rw [orderOfTexts_eq, Std.LawfulEqCmp.compare_eq_iff_eq, String.toList_inj]
    simp [equals]
  | same => simp [equals, itemsEqual]
  | shorter y ys => simp [equals, itemsEqual]
  | longer x xs => simp [equals, itemsEqual]
  | decided _ hne ih =>
    have hdiffer := mt ih.mp hne
    simp [equals, itemsEqual, hdiffer, hne]
  | next _ _ ihx ihxs =>
    have hsame := ihx.mpr rfl
    rw [equals] at ihxs ⊢
    simpa [itemsEqual, hsame] using ihxs

end Compares

/-! ### Faults -/

mutual

/-- What keeps two values from being compared is a fault of types. -/
theorem category_of_order (op : Operator) :
    ∀ (a b : Value) (e : EvalError), a.order op b = .error e → e.category = .type
  | a, b, e => by
    unfold order
    split
    · nofun
    · nofun
    · exact category_of_orderOfItems op _ _ e
    · unfold orderOfNumbers
      split
      · nofun
      · rintro ⟨⟩
        rfl

theorem category_of_orderOfItems (op : Operator) : ∀ (xs ys : List Value) (e : EvalError),
    orderOfItems op xs ys = .error e → e.category = .type
  | [], [], _ => nofun
  | [], _ :: _, _ => nofun
  | _ :: _, [], _ => nofun
  | x :: xs, y :: ys, e => by
    rw [orderOfItems]
    cases horder : x.order op y with
    | error e' =>
      rintro ⟨⟩
      exact category_of_order op x y e horder
    | ok decided =>
      change (match decided with
        | some .eq => orderOfItems op xs ys
        | decided => .ok decided) = .error e → _
      split
      · exact category_of_orderOfItems op xs ys e
      · nofun

end

theorem category_of_compare {op : Operator} {a b : Value} {e : EvalError}
    (h : compare op a b = .error e) : e.category = .type := by
  unfold compare at h
  cases horder : a.order op b with
  | error e' =>
    rw [horder] at h
    cases h
    exact category_of_order op a b e horder
  | ok decided =>
    rw [horder] at h
    cases h

/-! ### What can be compared -/

/-- Where the items of a list stand in an order to every value or cannot be compared with it, so
does the list. -/
theorem order_items {op : Operator} {xs ys : List Value}
    (hitems : ∀ x ∈ xs, ∀ y ∈ ys, (∃ o, Compares x y o) ∨ ∃ e, x.order op y = .error e) :
    (∃ o, Compares (.list xs) (.list ys) o) ∨ ∃ e, orderOfItems op xs ys = .error e := by
  induction xs generalizing ys with
  | nil =>
    cases ys with
    | nil => exact .inl ⟨_, .same⟩
    | cons y ys => exact .inl ⟨_, .shorter y ys⟩
  | cons x xs ih =>
    cases ys with
    | nil => exact .inl ⟨_, .longer x xs⟩
    | cons y ys =>
      rcases hitems x (List.mem_cons_self ..) y (List.mem_cons_self ..) with ⟨o, hxy⟩ | ⟨e, he⟩
      · by_cases heq : o = .eq
        · subst heq
          rw [orderOfItems, hxy.order op]
          refine (ih fun x' hx' y' hy' => hitems x' (List.mem_cons_of_mem _ hx') y'
            (List.mem_cons_of_mem _ hy')).imp_left ?_
          rintro ⟨o, hrest⟩
          exact ⟨o, .next hxy hrest⟩
        · exact .inl ⟨o, .decided hxy heq⟩
      · exact .inr ⟨e, by rw [orderOfItems, he]; rfl⟩

/-- Values of different types cannot be compared. -/
theorem order_of_kind_ne {a b : Value} (ha : a.IsOrderable) (hb : b.IsOrderable)
    (hkind : a.kind ≠ b.kind) (op : Operator) :
    a.order op b = .error (.unordered op a.kind b.kind) := by
  cases ha <;> cases hb <;> first | exact absurd rfl hkind | simp [order, orderOfNumbers, asFloat?]

/-- Integers, strings and lists of such values stand in an order, or cannot be compared. -/
theorem order_cases {a b : Value} (ha : a.IsOrderable) (hb : b.IsOrderable) (op : Operator) :
    (∃ o, Compares a b o) ∨ ∃ e, a.order op b = .error e := by
  induction ha generalizing b with
  | int m =>
    cases hb with
    | int n => exact .inl ⟨_, .ints m n⟩
    | str t => exact .inr ⟨_, order_of_kind_ne (.int m) (.str t) nofun op⟩
    | list hys => exact .inr ⟨_, order_of_kind_ne (.int m) (.list hys) nofun op⟩
  | str s =>
    cases hb with
    | int n => exact .inr ⟨_, order_of_kind_ne (.str s) (.int n) nofun op⟩
    | str t => exact .inl ⟨_, .texts s t⟩
    | list hys => exact .inr ⟨_, order_of_kind_ne (.str s) (.list hys) nofun op⟩
  | list hxs ih =>
    cases hb with
    | int n => exact .inr ⟨_, order_of_kind_ne (.list hxs) (.int n) nofun op⟩
    | str t => exact .inr ⟨_, order_of_kind_ne (.list hxs) (.str t) nofun op⟩
    | list hys =>
      rw [order]
      exact order_items fun x hx y hy => ih x hx (hys y hy)

end Value

/-! ### Comparisons -/

/-- The operators that compare two values. -/
def Operator.comparisons : List Operator := [.lt, .le, .gt, .ge, .eq, .ne]

/-- An operator applied to two values gives the truth. -/
def Operator.Holds (op : Operator) (a b : Value) : Prop := op.apply a b = .ok (.bool true)

/-- What a comparison says of two values in an order. -/
def Operator.saysOf (op : Operator) (o : Ordering) : Bool :=
  match op with
  | .lt => o == .lt
  | .le => o != .gt
  | .gt => o == .gt
  | .ge => o != .lt
  | .eq => o == .eq
  | _ => o != .eq

theorem Value.Compares.apply {a b : Value} {o : Ordering} (h : Compares a b o) {op : Operator}
    (hop : op ∈ Operator.comparisons) : op.apply a b = .ok (.bool (op.saysOf o)) := by
  have horder : ∀ op,
      (Value.compare op a b).map Value.bool = .ok (.bool (Value.holds op (some o))) := by
    intro op
    rw [Value.compare, h.order op]
    rfl
  have hequals : a.equals b = (o == .eq) := by
    rw [Bool.eq_iff_iff, h.equals_iff, beq_iff_eq]
  simp only [Operator.comparisons, List.mem_cons, List.not_mem_nil, or_false] at hop
  rcases hop with rfl | rfl | rfl | rfl | rfl | rfl
  · exact horder .lt
  · exact horder .le
  · exact horder .gt
  · exact horder .ge
  · rw [Operator.apply, hequals]
    rfl
  · rw [Operator.apply, hequals]
    rfl

theorem Value.Compares.holds_iff {a b : Value} {o : Ordering} (h : Compares a b o) (op : Operator)
    (hop : op ∈ Operator.comparisons) : op.Holds a b ↔ op.saysOf o = true := by
  rw [Operator.Holds, h.apply hop]
  simp

/-- The comparisons of two values agree: all of them have an answer from both sides, one of the two
values stands before the other or they are equal, and never two of these, and the remaining
comparisons follow. -/
structure ComparedAlike (a b : Value) : Prop where
  answered : ∀ op ∈ Operator.comparisons, ∃ t, op.apply a b = .ok (.bool t)
  answeredBack : ∀ op ∈ Operator.comparisons, ∃ t, op.apply b a = .ok (.bool t)
  oneOfThree : Operator.lt.Holds a b ∧ ¬Operator.eq.Holds a b ∧ ¬Operator.lt.Holds b a ∨
    ¬Operator.lt.Holds a b ∧ Operator.eq.Holds a b ∧ ¬Operator.lt.Holds b a ∨
    ¬Operator.lt.Holds a b ∧ ¬Operator.eq.Holds a b ∧ Operator.lt.Holds b a
  le_iff : Operator.le.Holds a b ↔ ¬Operator.lt.Holds b a
  ge_iff : Operator.ge.Holds a b ↔ ¬Operator.lt.Holds a b
  gt_iff : Operator.gt.Holds a b ↔ Operator.lt.Holds b a
  ne_iff : Operator.ne.Holds a b ↔ ¬Operator.eq.Holds a b

theorem Value.Compares.comparedAlike {a b : Value} {o : Ordering} (h : Compares a b o) :
    ComparedAlike a b := by
  have hlt := h.holds_iff .lt (by decide)
  have hle := h.holds_iff .le (by decide)
  have hgt := h.holds_iff .gt (by decide)
  have hge := h.holds_iff .ge (by decide)
  have heq := h.holds_iff .eq (by decide)
  have hne := h.holds_iff .ne (by decide)
  have hback := h.swap.holds_iff .lt (by decide)
  refine ⟨fun op hop => ⟨_, h.apply hop⟩, fun op hop => ⟨_, h.swap.apply hop⟩, ?_, ?_, ?_, ?_, ?_⟩
  · rw [hlt, heq, hback]
    cases o <;> decide
  · rw [hle, hback]
    cases o <;> decide
  · rw [hge, hlt]
    cases o <;> decide
  · rw [hgt, hback]
    cases o <;> decide
  · rw [hne, heq]
    cases o <;> decide

/-- Two values of which one stands before the other, if that can be asked at all. -/
theorem Value.exists_compares {a b : Value} (ha : a.IsOrderable) (hb : b.IsOrderable)
    (h : ∀ e, Operator.lt.apply a b = .error e → e.category ≠ .type) : ∃ o, Compares a b o := by
  refine (order_cases ha hb .lt).resolve_right ?_
  rintro ⟨e, he⟩
  refine h e ?_ (category_of_order .lt a b e he)
  change (Value.compare .lt a b).map Value.bool = .error e
  rw [Value.compare, he]
  rfl

theorem Value.compares_of_holds {a b : Value} (ha : a.IsOrderable) (hb : b.IsOrderable)
    (h : Operator.lt.Holds a b) : Compares a b .lt := by
  obtain ⟨o, ho⟩ := exists_compares ha hb fun e he => by rw [h] at he; cases he
  have hsays := (ho.holds_iff .lt (by decide)).mp h
  obtain rfl : o = .lt := by simpa [Operator.saysOf] using hsays
  exact ho

/-- Integers, strings and lists of such values are in a total order as far as they can be compared:
where asking whether one stands before the other is no fault of types, all comparisons have an
answer and agree, and what stands before a value stands before all that the value stands before. -/
theorem order_is_total {a b c : Value} (ha : a.IsOrderable) (hb : b.IsOrderable)
    (hc : c.IsOrderable) :
    ((∀ e, Operator.lt.apply a b = .error e → e.category ≠ .type) → ComparedAlike a b) ∧
      (Operator.lt.Holds a b → Operator.lt.Holds b c → Operator.lt.Holds a c) := by
  refine ⟨fun h => ?_, fun hab hbc => ?_⟩
  · obtain ⟨o, ho⟩ := Value.exists_compares ha hb h
    exact ho.comparedAlike
  · have hac :=
      (Value.compares_of_holds ha hb hab).trans (Value.compares_of_holds hb hc hbc) rfl rfl
    exact (hac.holds_iff .lt (by decide)).mpr rfl

/-- The second items of the first two lists cannot be compared, and are not looked at. -/
theorem order_is_total_nested :
    (Value.list [.list [.int 1], .str "x"]).IsOrderable ∧
      (Value.list [.list [.int 1, .int 2], .int 0]).IsOrderable ∧
      (Value.list [.list [.int 3]]).IsOrderable ∧
      Operator.lt.apply (.list [.list [.int 1], .str "x"]) (.list [.list [.int 1, .int 2], .int 0])
        = .ok (.bool true) ∧
      Operator.lt.Holds (.list [.list [.int 1, .int 2], .int 0]) (.list [.list [.int 3]]) ∧
      ComparedAlike (.list [.list [.int 1], .str "x"]) (.list [.list [.int 1, .int 2], .int 0]) ∧
      Operator.lt.Holds (.list [.list [.int 1], .str "x"]) (.list [.list [.int 3]]) := by
  have ha : (Value.list [.list [.int 1], .str "x"]).IsOrderable :=
    .list (by simp [Value.IsOrderable.int, Value.IsOrderable.str, Value.IsOrderable.list])
  have hb : (Value.list [.list [.int 1, .int 2], .int 0]).IsOrderable :=
    .list (by simp [Value.IsOrderable.int, Value.IsOrderable.list])
  have hc : (Value.list [.list [.int 3]]).IsOrderable :=
    .list (by simp [Value.IsOrderable.int, Value.IsOrderable.list])
  have hab : Operator.lt.apply (.list [.list [.int 1], .str "x"])
      (.list [.list [.int 1, .int 2], .int 0]) = .ok (.bool true) := rfl
  have hbc : Operator.lt.Holds (.list [.list [.int 1, .int 2], .int 0]) (.list [.list [.int 3]]) :=
    rfl
  obtain ⟨halike, htrans⟩ := order_is_total ha hb hc
  refine ⟨ha, hb, hc, hab, hbc, halike fun e he => ?_, htrans hab hbc⟩
  have hanswer := hab.symm.trans he
  cases hanswer

end ScriptShell
