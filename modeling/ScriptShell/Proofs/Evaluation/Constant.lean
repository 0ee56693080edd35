import Mathlib.Data.List.Forall2
import ScriptShell.Evaluation.Evaluator

/-!
# Constant expressions

An expression denotes a value when it evaluates to it in every state and changes nothing. Displays
denote what their items denote: the entries of a dict are in the order in which they are written
when no key is written twice.
-/

namespace ScriptShell

/-- An entry under a new key is the last one. -/
theorem Entries.insert_of_not_mem {α : Type} {key : String} (item : α) {es : Entries α}
    (h : key ∉ es.keys) : es.insert key item = es ++ [(key, item)] := by
  induction es with
  | nil => rfl
  | cons e es ih =>
    obtain ⟨k, a⟩ := e
    obtain ⟨hk, hes⟩ := not_or.mp (mt List.mem_cons.mpr h)
    rw [insert, if_neg (Ne.symm hk), ih hes]
    rfl

namespace Expr

/-- An expression evaluates to a value in every state, if there is enough fuel, and changes
nothing. -/
def Denotes (e : Expr) (v : Value) : Prop :=
  ∃ enough, ∀ fuel, enough ≤ fuel → ∀ s, eval fuel e s = .value v s

theorem denotes_of_eval {e : Expr} {v : Value} (h : ∀ fuel s, eval (fuel + 1) e s = .value v s) :
    e.Denotes v := by
  refine ⟨1, fun fuel hfuel s => ?_⟩
  obtain ⟨fuel, rfl⟩ := Nat.exists_eq_add_of_le' hfuel
  exact h fuel s

theorem Denotes.neg {e : Expr} {v w : Value} (h : e.Denotes v) (hneg : v.negate = .ok w) :
    (Expr.neg e).Denotes w := by
  obtain ⟨enough, h⟩ := h
  refine ⟨enough + 1, fun fuel hfuel s => ?_⟩
  obtain ⟨fuel, rfl⟩ := Nat.exists_eq_add_of_le' hfuel
  rw [← Nat.add_assoc, eval, h _ (Nat.le_add_left ..), Run.andThen_value, hneg]
  rfl

/-- Expressions that denote values evaluate to them in order. -/
theorem exists_evalAll {es : List Expr} {vs : List Value} (h : List.Forall₂ Denotes es vs) :
    ∃ enough, ∀ fuel, enough ≤ fuel → ∀ s, evalAll fuel es s = .value vs s := by
  induction h with
  | nil =>
    refine ⟨1, fun fuel hfuel s => ?_⟩
    obtain ⟨fuel, rfl⟩ := Nat.exists_eq_add_of_le' hfuel
    rfl
  | cons hd _ ih =>
    obtain ⟨n, hd⟩ := hd
    obtain ⟨m, ih⟩ := ih
    refine ⟨max n m + 1, fun fuel hfuel s => ?_⟩
    obtain ⟨fuel, rfl⟩ := Nat.exists_eq_add_of_le' hfuel
    rw [← Nat.add_assoc, evalAll, hd _ (by omega), Run.andThen_value, ih _ (by omega)]
    rfl

theorem denotes_list {es : List Expr} {vs : List Value} (h : List.Forall₂ Denotes es vs) :
    (Expr.list es).Denotes (.list vs) := by
  obtain ⟨n, h⟩ := exists_evalAll h
  refine ⟨n + 1, fun fuel hfuel s => ?_⟩
  obtain ⟨fuel, rfl⟩ := Nat.exists_eq_add_of_le' hfuel
  rw [← Nat.add_assoc, eval, h _ (Nat.le_add_left ..)]
  rfl

/-- A pair of expressions denotes an entry. -/
structure DenotesEntry (pair : Expr × Expr) (entry : String × Value) : Prop where
  key : pair.1 = .str entry.1
  item : pair.2.Denotes entry.2

/-- Pairs that denote entries under new keys evaluate to them, behind the entries made so far. -/
theorem exists_evalPairs {pairs : List (Expr × Expr)} {entries : Entries Value}
    (h : List.Forall₂ DenotesEntry pairs entries) {before : Entries Value}
    (hkeys : (Entries.keys (before ++ entries)).Nodup) :
    ∃ enough, ∀ fuel, enough ≤ fuel → ∀ s,
      evalPairs fuel pairs before s = .value (before ++ entries) s := by
  induction h generalizing before with
  | nil =>
    refine ⟨1, fun fuel hfuel s => ?_⟩
    obtain ⟨fuel, rfl⟩ := Nat.exists_eq_add_of_le' hfuel
    rw [List.append_nil]
    rfl
  | @cons pair entry pairs entries hd _ ih =>
    obtain ⟨k, e⟩ := pair
    obtain ⟨key, v⟩ := entry
    obtain ⟨rfl, n, hd⟩ := hd
    have hnew : key ∉ Entries.keys before := by
      unfold Entries.keys at hkeys
      rw [List.map_append, List.nodup_append] at hkeys
      exact fun hmem => hkeys.2.2 key hmem key (List.mem_cons_self ..) rfl
    have hbehind : before ++ (key, v) :: entries = (before ++ [(key, v)]) ++ entries := by simp
    rw [hbehind] at hkeys ⊢
    obtain ⟨m, ih⟩ := ih hkeys
    refine ⟨max n m + 2, fun fuel hfuel s => ?_⟩
    obtain ⟨fuel, rfl⟩ := Nat.exists_eq_add_of_le' hfuel
    rw [← Nat.add_assoc, evalPairs, eval, Run.andThen_value]
    dsimp only
    rw [hd _ (by omega), Run.andThen_value, Entries.insert_of_not_mem v hnew, ih _ (by omega)]

theorem denotes_dict {pairs : List (Expr × Expr)} {entries : Entries Value}
    (h : List.Forall₂ DenotesEntry pairs entries) (hkeys : (Entries.keys entries).Nodup) :
    (Expr.dict pairs).Denotes (.dict entries) := by
  have hfront : (Entries.keys ([] ++ entries)).Nodup := hkeys
  obtain ⟨n, h⟩ := exists_evalPairs h hfront
  refine ⟨n + 1, fun fuel hfuel s => ?_⟩
  obtain ⟨fuel, rfl⟩ := Nat.exists_eq_add_of_le' hfuel
  rw [← Nat.add_assoc, eval, h _ (Nat.le_add_left ..)]
  rfl

end Expr

end ScriptShell
