import Mathlib.Data.List.Forall2
import Mathlib.Data.List.Nodup
import Mathlib.Data.List.Perm.Subperm
import ScriptShell.Proofs.Value.Keys
import ScriptShell.Proofs.Value.Order
import ScriptShell.Proofs.Value.Ranges

/-!
# Equality of values

Values made of nothing, integers, strings, ranges, lists and dicts with distinct keys are equal when
they stand for the same: lists with equal items, ranges with the same numbers, dicts with the same
keys and equal items under them. Looking up the entries of one dict in another as long as it is
enough for that, since as many keys that are all different can only be all of the other's. What is
equal is alike to every third value, whatever that is made of; from this and from the fact that a
value is equal to itself all laws of an equivalence follow.
-/

namespace ScriptShell.Value

/-- Nothing, integers, strings, progressions, and lists and dicts of such values, in which no key is
there twice. -/
inductive IsPlain : Value → Prop
  | none : IsPlain .none
  | int (n : Int64) : IsPlain (.int n)
  | str (s : String) : IsPlain (.str s)
  | range (r : Progression) : IsPlain (.range r)
  | list {items : List Value} (parts : ∀ v ∈ items, IsPlain v) : IsPlain (.list items)
  | dict {entries : Entries Value} (keys : entries.keys.Nodup)
      (parts : ∀ entry ∈ entries, IsPlain entry.2) : IsPlain (.dict entries)

/-! ### Lists and dicts -/

/-- Items are equal one by one. -/
theorem itemsEqual_iff {xs ys : List Value} :
    itemsEqual xs ys = true ↔ List.Forall₂ (fun x y => x.equals y = true) xs ys := by
  induction xs generalizing ys with
  | nil => cases ys <;> simp [itemsEqual]
  | cons x xs ih => cases ys <;> simp [itemsEqual, ih]

/-- A dict is within another where each of its entries has an equal one there. -/
theorem entriesWithin_iff {es fs : Entries Value} :
    entriesWithin es fs = true ↔ ∀ e ∈ es, ∃ f ∈ fs, e.1 = f.1 ∧ e.2.equals f.2 = true := by
  induction es with
  | nil => simp [entriesWithin]
  | cons e es ih =>
    obtain ⟨key, x⟩ := e
    rw [entriesWithin, Bool.and_eq_true, ih, List.forall_mem_cons]
    simp

/-- Lists are equal where their items are. -/
theorem equals_list_iff {xs ys : List Value} : (list xs).equals (.list ys) = true ↔
    List.Forall₂ (fun x y => x.equals y = true) xs ys := by
  rw [equals, itemsEqual_iff]

/-- Dicts of one size are equal where the first is within the second. -/
theorem equals_dict_iff {es fs : Entries Value} : (dict es).equals (.dict fs) = true ↔
    es.length = fs.length ∧ ∀ e ∈ es, ∃ f ∈ fs, e.1 = f.1 ∧ e.2.equals f.2 = true := by
  rw [equals, Bool.and_eq_true, beq_iff_eq, entriesWithin_iff]

end ScriptShell.Value

namespace ScriptShell.Entries

variable {α : Type}

/-- Of entries with distinct keys there is one for each key. -/
theorem eq_of_nodup_keys {es : Entries α} (h : es.keys.Nodup) {e e' : String × α} (he : e ∈ es)
    (he' : e' ∈ es) (hkey : e.1 = e'.1) : e = e' :=
  List.inj_on_of_nodup_map h he he' hkey

theorem exists_mem_of_mem_keys {es : Entries α} {key : String} (h : key ∈ es.keys) :
    ∃ e ∈ es, e.1 = key :=
  List.mem_map.mp h

/-- As many entries whose distinct keys are among others are all of them. -/
theorem keys_subset_of_length {β : Type} {es : Entries α} {fs : Entries β} (h : es.keys.Nodup)
    (hwithin : es.keys ⊆ fs.keys) (hlength : es.length = fs.length) : fs.keys ⊆ es.keys := by
  have hle : fs.keys.length ≤ es.keys.length := by simp [keys, hlength]
  exact ((List.subperm_of_subset h hwithin).perm_of_length_le hle).symm.subset

end ScriptShell.Entries

namespace ScriptShell.Value

/-- Two dicts have the same keys, and equal items under each. -/
structure SameEntries (es fs : Entries Value) : Prop where
  keys : ∀ key, key ∈ es.keys ↔ key ∈ fs.keys
  items : ∀ key x y, (key, x) ∈ es → (key, y) ∈ fs → x.equals y = true

/-- The keys of a dict are those of an equal one. -/
theorem keys_subset_of_equals {es fs : Entries Value} (h : (dict es).equals (.dict fs) = true) :
    es.keys ⊆ fs.keys := by
  intro key hkey
  obtain ⟨e, he, rfl⟩ := Entries.exists_mem_of_mem_keys hkey
  obtain ⟨f, hf, heq, -⟩ := (equals_dict_iff.mp h).2 e he
  rw [heq]
  exact List.mem_map_of_mem hf

/-- Dicts with distinct keys are equal exactly if they have the same keys with equal items. -/
theorem equals_dict_iff_sameEntries {es fs : Entries Value} (hes : es.keys.Nodup)
    (hfs : fs.keys.Nodup) : (dict es).equals (.dict fs) = true ↔ SameEntries es fs := by
  constructor
  · intro h
    obtain ⟨hlength, hitems⟩ := equals_dict_iff.mp h
    have hback := Entries.keys_subset_of_length hes (keys_subset_of_equals h) hlength
    refine ⟨fun key => ⟨fun hkey => keys_subset_of_equals h hkey, fun hkey => hback hkey⟩, ?_⟩
    intro key x y hx hy
    obtain ⟨f, hf, hkey, hequal⟩ := hitems _ hx
    rwa [Entries.eq_of_nodup_keys hfs hf hy hkey.symm] at hequal
  · intro h
    have hperm : es.keys.Perm fs.keys := (List.perm_ext_iff_of_nodup hes hfs).mpr h.keys
    have hlength : es.length = fs.length := by simpa [Entries.keys] using hperm.length_eq
    refine equals_dict_iff.mpr ⟨hlength, fun e he => ?_⟩
    obtain ⟨f, hf, hkey⟩ := Entries.exists_mem_of_mem_keys
      ((h.keys e.1).mp (List.mem_map_of_mem he))
    refine ⟨f, hf, hkey.symm, h.items e.1 e.2 f.2 he ?_⟩
    rwa [← hkey]

/-! ### Values that nothing tells apart -/

/-- No third value is equal to one of two values and not to the other, or stands in another order to
the one than to the other, from either side. -/
structure Alike (a b : Value) : Prop where
  equalsLeft : ∀ c, a.equals c = b.equals c
  equalsRight : ∀ c : Value, c.equals a = c.equals b
  orderLeft : ∀ op c, a.order op c = b.order op c
  orderRight : ∀ op (c : Value), c.order op a = c.order op b

namespace Alike

theorem refl (a : Value) : Alike a a := ⟨fun _ => rfl, fun _ => rfl, fun _ _ => rfl, fun _ _ => rfl⟩

/-- Likeness goes both ways. -/
theorem symm {a b : Value} (h : Alike a b) : Alike b a where
  equalsLeft c := (h.equalsLeft c).symm
  equalsRight c := (h.equalsRight c).symm
  orderLeft op c := (h.orderLeft op c).symm
  orderRight op c := (h.orderRight op c).symm

/-! #### Lists -/

/-- Lists of like items are equal to the same lists. -/
theorem itemsEqual {xs ys : List Value} (h : List.Forall₂ Alike xs ys) (zs : List Value) :
    itemsEqual xs zs = itemsEqual ys zs ∧ itemsEqual zs xs = itemsEqual zs ys := by
  induction h generalizing zs with
  | nil => exact ⟨rfl, rfl⟩
  | cons hhead _ ih =>
    cases zs with
    | nil => simp [Value.itemsEqual]
    | cons z zs =>
      simp only [Value.itemsEqual, hhead.equalsLeft, hhead.equalsRight, (ih zs).1, (ih zs).2,
        and_self]

/-- Lists of like items are ordered alike. -/
theorem orderOfItems {xs ys : List Value} (h : List.Forall₂ Alike xs ys) (op : Operator)
    (zs : List Value) : orderOfItems op xs zs = orderOfItems op ys zs ∧
      orderOfItems op zs xs = orderOfItems op zs ys := by
  induction h generalizing zs with
  | nil => exact ⟨rfl, rfl⟩
  | cons hhead _ ih =>
    cases zs with
    | nil => simp [Value.orderOfItems]
    | cons z zs =>
      simp only [Value.orderOfItems, hhead.orderLeft, hhead.orderRight, (ih zs).1, (ih zs).2,
        and_self]

/-- Lists of values that nothing tells apart. -/
theorem list {xs ys : List Value} (h : List.Forall₂ Alike xs ys) :
    Alike (.list xs) (.list ys) where
  equalsLeft c := by cases c <;> simp [equals, sameNumber, asFloat?, (itemsEqual h _).1]
  equalsRight c := by cases c <;> simp [equals, sameNumber, asFloat?, (itemsEqual h _).2]
  orderLeft op c := by
    cases c <;> simp [order, orderOfNumbers, asFloat?, kind, (orderOfItems h op _).1]
  orderRight op c := by
    cases c <;> simp [order, orderOfNumbers, asFloat?, kind, (orderOfItems h op _).2]

/-! #### Dicts -/

/-- A dict that equals another is as long, and its entries go together with some of that one: so do
those of a dict whose entries go together with its own. -/
theorem equals_dict_left {es fs gs : Entries Value} (hlength : es.length = fs.length)
    (hback : ∀ f ∈ fs, ∃ e ∈ es, f.1 = e.1 ∧ Alike f.2 e.2)
    (h : (Value.dict es).equals (.dict gs) = true) : (Value.dict fs).equals (.dict gs) = true := by
  obtain ⟨hlength', hitems⟩ := equals_dict_iff.mp h
  refine equals_dict_iff.mpr ⟨hlength.symm.trans hlength', fun f hf => ?_⟩
  obtain ⟨e, he, hkey, halike⟩ := hback f hf
  obtain ⟨g, hg, hkey', hequal⟩ := hitems e he
  exact ⟨g, hg, hkey.trans hkey', (halike.equalsLeft g.2).trans hequal⟩

/-- A dict with like values at the same keys is equal to the same dicts. -/
theorem equals_dict_right {es fs gs : Entries Value} (hlength : es.length = fs.length)
    (hforth : ∀ e ∈ es, ∃ f ∈ fs, e.1 = f.1 ∧ Alike e.2 f.2)
    (h : (Value.dict gs).equals (.dict es) = true) : (Value.dict gs).equals (.dict fs) = true := by
  obtain ⟨hlength', hitems⟩ := equals_dict_iff.mp h
  refine equals_dict_iff.mpr ⟨hlength'.trans hlength, fun g hg => ?_⟩
  obtain ⟨e, he, hkey, hequal⟩ := hitems g hg
  obtain ⟨f, hf, hkey', halike⟩ := hforth e he
  exact ⟨f, hf, hkey.trans hkey', (halike.equalsRight g.2).symm.trans hequal⟩

/-- Dicts as long as each other whose entries go together by their keys, with items that nothing
tells apart. -/
theorem dict {es fs : Entries Value} (hlength : es.length = fs.length)
    (hforth : ∀ e ∈ es, ∃ f ∈ fs, e.1 = f.1 ∧ Alike e.2 f.2)
    (hback : ∀ f ∈ fs, ∃ e ∈ es, f.1 = e.1 ∧ Alike f.2 e.2) : Alike (.dict es) (.dict fs) where
  equalsLeft c := by
    cases c with
    | dict gs =>
      exact Bool.eq_iff_iff.mpr
        ⟨equals_dict_left hlength hback, equals_dict_left hlength.symm hforth⟩
    | _ => simp [equals, sameNumber, asFloat?]
  equalsRight c := by
    cases c with
    | dict gs =>
      exact Bool.eq_iff_iff.mpr
        ⟨equals_dict_right hlength hforth, equals_dict_right hlength.symm hback⟩
    | _ => simp [equals, sameNumber, asFloat?]
  orderLeft op c := by cases c <;> simp [order, orderOfNumbers, asFloat?, kind]
  orderRight op c := by cases c <;> simp [order, orderOfNumbers, asFloat?, kind]

/-- An item of a list can be put in the place of another that nothing tells from it. -/
theorem replaceItem {a b : Value} (h : Alike a b) (before after : List Value) :
    Alike (.list (before ++ a :: after)) (.list (before ++ b :: after)) := by
  have hsame (vs : List Value) : List.Forall₂ Alike vs vs :=
    List.forall₂_same.mpr fun v _ => .refl v
  exact .list (List.rel_append (hsame before) (.cons h (hsame after)))

/-- An item of a dict can be put in the place of another that nothing tells from it. -/
theorem replaceEntry {a b : Value} (h : Alike a b) (before after : Entries Value) (key : String) :
    Alike (.dict (before ++ (key, a) :: after)) (.dict (before ++ (key, b) :: after)) := by
  have hgo : ∀ {a b : Value}, Alike a b → ∀ e ∈ before ++ (key, a) :: after,
      ∃ f ∈ before ++ (key, b) :: after, e.1 = f.1 ∧ Alike e.2 f.2 := by
    intro a b h e he
    rcases List.mem_append.mp he with hbefore | hmem
    · exact ⟨e, List.mem_append_left _ hbefore, rfl, .refl _⟩
    · rcases List.mem_cons.mp hmem with rfl | hafter
      · exact ⟨(key, b), by simp, rfl, h⟩
      · exact ⟨e, by simp [hafter], rfl, .refl _⟩
  exact .dict (by simp) (hgo h) (hgo h.symm)

/-- Ranges with the same numbers. -/
theorem range {r t : Progression} (h : r.numbers = t.numbers) : Alike (.range r) (.range t) where
  equalsLeft c := by
    cases c with
    | range u => rw [Bool.eq_iff_iff, r.equals_range_iff, t.equals_range_iff, h]
    | _ => simp [equals, sameNumber, asFloat?]
  equalsRight c := by
    cases c with
    | range u => rw [Bool.eq_iff_iff, u.equals_range_iff, u.equals_range_iff, h]
    | _ => simp [equals, sameNumber, asFloat?]
  orderLeft op c := by cases c <;> simp [order, orderOfNumbers, asFloat?, kind]
  orderRight op c := by cases c <;> simp [order, orderOfNumbers, asFloat?, kind]

end Alike

/-! ### Equal values -/

/-- Items that are equal are alike, if equal items are. -/
theorem forall₂_alike {xs ys : List Value}
    (halike : ∀ x ∈ xs, ∀ y ∈ ys, x.equals y = true → Alike x y)
    (h : List.Forall₂ (fun x y => x.equals y = true) xs ys) : List.Forall₂ Alike xs ys := by
  induction h with
  | nil => exact .nil
  | cons hhead _ ih =>
    refine .cons (halike _ (List.mem_cons_self ..) _ (List.mem_cons_self ..) hhead) (ih ?_)
    exact fun x hx y hy => halike x (List.mem_cons_of_mem _ hx) y (List.mem_cons_of_mem _ hy)

/-- Plain values that are equal are of one kind. -/
theorem kind_eq_of_equals {a b : Value} (ha : a.IsPlain) (hb : b.IsPlain)
    (h : a.equals b = true) : a.kind = b.kind := by
  cases ha <;> cases hb <;> first | rfl | simp [equals, sameNumber, asFloat?] at h

/-- A plain value equals itself. -/
theorem equals_self {a : Value} (ha : a.IsPlain) : a.equals a = true := by
  induction ha with
  | none => simp [equals]
  | int n => simp [equals]
  | str s => simp [equals]
  | range r => exact (r.equals_range_iff r).mpr rfl
  | list _ ih => exact equals_list_iff.mpr (List.forall₂_same.mpr ih)
  | dict _ _ ih => exact equals_dict_iff.mpr ⟨rfl, fun e he => ⟨e, he, rfl, ih e he⟩⟩

/-- Nothing tells equal values apart. -/
theorem alike_of_equals {a b : Value} (ha : a.IsPlain) (hb : b.IsPlain) (h : a.equals b = true) :
    Alike a b := by
  induction ha generalizing b with
  | none =>
    have hkind := kind_eq_of_equals .none hb h
    cases hb with
    | none => exact .refl _
    | _ => cases hkind
  | int m =>
    have hkind := kind_eq_of_equals (.int m) hb h
    cases hb with
    | int n =>
      obtain rfl : m = n := by simpa [equals] using h
      exact .refl _
    | _ => cases hkind
  | str s =>
    have hkind := kind_eq_of_equals (.str s) hb h
    cases hb with
    | str t =>
      obtain rfl : s = t := by simpa [equals] using h
      exact .refl _
    | _ => cases hkind
  | range r =>
    have hkind := kind_eq_of_equals (.range r) hb h
    cases hb with
    | range t => exact .range ((r.equals_range_iff t).mp h)
    | _ => cases hkind
  | list hxs ih =>
    have hkind := kind_eq_of_equals (.list hxs) hb h
    cases hb with
    | list hys =>
      have hitems := equals_list_iff.mp h
      exact .list (forall₂_alike (fun x hx y hy => ih x hx (hys y hy)) hitems)
    | _ => cases hkind
  | @dict es hes hparts ih =>
    have hkind := kind_eq_of_equals (.dict hes hparts) hb h
    cases hb with
    | @dict fs hfs hparts' =>
      obtain ⟨hlength, -⟩ := equals_dict_iff.mp h
      have hsame := (equals_dict_iff_sameEntries hes hfs).mp h
      have halike : ∀ e ∈ es, ∀ f ∈ fs, e.1 = f.1 → Alike e.2 f.2 := by
        rintro ⟨key, x⟩ he ⟨_, y⟩ hf rfl
        exact ih _ he (hparts' _ hf) (hsame.items key x y he hf)
      refine .dict hlength (fun e he => ?_) fun f hf => ?_
      · obtain ⟨f, hf, hkey⟩ := Entries.exists_mem_of_mem_keys
          ((hsame.keys e.1).mp (List.mem_map_of_mem he))
        exact ⟨f, hf, hkey.symm, halike e he f hf hkey.symm⟩
      · obtain ⟨e, he, hkey⟩ := Entries.exists_mem_of_mem_keys
          ((hsame.keys f.1).mpr (List.mem_map_of_mem hf))
        exact ⟨e, he, hkey.symm, (halike e he f hf hkey).symm⟩
    | _ => cases hkind

/-- All comparisons of two values with any third one come out the same, from either side. -/
def SameCompared (a b : Value) : Prop :=
  ∀ op ∈ Operator.comparisons, ∀ c, op.apply a c = op.apply b c ∧ op.apply c a = op.apply c b

/-- Two values cannot be told apart by comparing them with any third value, be it by themselves, as
items of lists or as items of dicts, nor by looking for them in a list or for anything in a list
that has them for an item. -/
structure Interchangeable (a b : Value) : Prop where
  compared : SameCompared a b
  soughtIn : ∀ items, Operator.isIn.apply a (.list items) = Operator.isIn.apply b (.list items)
  foundIn : ∀ before after c, Operator.isIn.apply c (.list (before ++ a :: after)) =
    Operator.isIn.apply c (.list (before ++ b :: after))
  asItem : ∀ before after,
    SameCompared (.list (before ++ a :: after)) (.list (before ++ b :: after))
  asEntry : ∀ before after key,
    SameCompared (.dict (before ++ (key, a) :: after)) (.dict (before ++ (key, b) :: after))

/-- Like values are compared alike. -/
theorem Alike.sameCompared {a b : Value} (h : Alike a b) : SameCompared a b := by
  intro op hop c
  have hcompare (op) : (Value.compare op a c).map Value.bool = (Value.compare op b c).map .bool ∧
      (Value.compare op c a).map Value.bool = (Value.compare op c b).map .bool := by
    simp only [Value.compare, h.orderLeft, h.orderRight, and_self]
  simp only [Operator.comparisons, List.mem_cons, List.not_mem_nil, or_false] at hop
  rcases hop with rfl | rfl | rfl | rfl | rfl | rfl
  · exact hcompare .lt
  · exact hcompare .le
  · exact hcompare .gt
  · exact hcompare .ge
  · simp only [Operator.apply, h.equalsLeft, h.equalsRight, and_self]
  · simp only [Operator.apply, h.equalsLeft, h.equalsRight, and_self]

/-- Like values can stand for each other. -/
theorem Alike.interchangeable {a b : Value} (h : Alike a b) : Interchangeable a b where
  compared := h.sameCompared
  soughtIn items := by simp only [Operator.apply, contains, h.equalsRight]
  foundIn before after c := by
    simp only [Operator.apply, contains, List.any_append, List.any_cons, h.equalsLeft]
  asItem before after := (h.replaceItem before after).sameCompared
  asEntry before after key := (h.replaceEntry before after key).sameCompared

end ScriptShell.Value

namespace ScriptShell

/-- Equality is an equivalence of the values that are made of nothing, integers, strings, ranges,
lists and dicts with distinct keys. Of two dicts it says that they have the same keys with equal
items, in whatever order; and equal values cannot be told apart. -/
theorem equality_is_equivalence {a b : Value} (ha : a.IsPlain) (hb : b.IsPlain) :
    a.equals a = true ∧ (a.equals b = true → b.equals a = true) ∧
      (∀ c, a.equals b = true → b.equals c = true → a.equals c = true) ∧
      (∀ es fs : Entries Value, a = .dict es → b = .dict fs →
        (a.equals b = true ↔ Value.SameEntries es fs)) ∧
      (a.equals b = true → Value.Interchangeable a b) := by
  have halike := Value.alike_of_equals ha hb
  refine ⟨Value.equals_self ha, fun hab => ?_, fun c hab hbc => ?_, ?_, fun hab =>
    (halike hab).interchangeable⟩
  · rw [← (halike hab).equalsLeft]
    exact Value.equals_self ha
  · rw [(halike hab).equalsLeft]
    exact hbc
  · rintro es fs rfl rfl
    cases ha with
    | dict hes _ =>
      cases hb with
      | dict hfs _ => exact Value.equals_dict_iff_sameEntries hes hfs

/-- Two dicts with the same entries in another order, one of them an empty range. -/
theorem equality_is_equivalence_reordered :
    (Value.dict [("x", .int 1), ("y", .range ⟨0, 0, 1, by decide⟩)]).IsPlain ∧
      (Value.dict [("y", .range ⟨5, 1, 2, by decide⟩), ("x", .int 1)]).IsPlain ∧
      (Value.dict [("x", .int 1), ("y", .range ⟨0, 0, 1, by decide⟩)]).equals
        (.dict [("y", .range ⟨5, 1, 2, by decide⟩), ("x", .int 1)]) = true ∧
      (Value.dict [("y", .range ⟨5, 1, 2, by decide⟩), ("x", .int 1)]).equals
        (.dict [("x", .int 1), ("y", .range ⟨0, 0, 1, by decide⟩)]) = true ∧
      Value.Interchangeable (.dict [("x", .int 1), ("y", .range ⟨0, 0, 1, by decide⟩)])
        (.dict [("y", .range ⟨5, 1, 2, by decide⟩), ("x", .int 1)]) := by
  have ha : (Value.dict [("x", .int 1), ("y", .range ⟨0, 0, 1, by decide⟩)]).IsPlain :=
    .dict (by decide) (by simp [Value.IsPlain.int, Value.IsPlain.range])
  have hb : (Value.dict [("y", .range ⟨5, 1, 2, by decide⟩), ("x", .int 1)]).IsPlain :=
    .dict (by decide) (by simp [Value.IsPlain.int, Value.IsPlain.range])
  obtain ⟨-, hsymm, -, -, hsame⟩ := equality_is_equivalence ha hb
  have hab : (Value.dict [("x", .int 1), ("y", .range ⟨0, 0, 1, by decide⟩)]).equals
      (.dict [("y", .range ⟨5, 1, 2, by decide⟩), ("x", .int 1)]) = true := rfl
  exact ⟨ha, hb, hab, hsymm hab, hsame hab⟩

end ScriptShell
