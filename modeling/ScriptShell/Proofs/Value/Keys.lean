import Mathlib.Data.List.Induction
import ScriptShell.Function.Conversion
import ScriptShell.Proofs.Value.Parts

/-!
# Keys of dicts

The entries of a dict stand for a map that remembers the order of its keys: no key stands in it
twice, and inserting one entry after the other leaves the keys in the order of their first
occurrence, each with its last item. Everything that asks a dict for its entries sees this map.
-/

namespace ScriptShell

namespace Entries

variable {α : Type}

theorem nodup_keys_insert {es : Entries α} (h : es.keys.Nodup) (key : String) (item : α) :
    (es.insert key item).keys.Nodup := by
  rw [keys_insert]
  split
  · exact h
  · next hnew =>
    refine List.nodup_append.mpr ⟨h, List.pairwise_singleton .., fun k hk k' hk' heq => hnew ?_⟩
    rwa [← List.mem_singleton.mp hk', ← heq]

/-- Of two items that are inserted under a key the second stays. -/
theorem insert_insert (key : String) (item item' : α) (es : Entries α) :
    (es.insert key item).insert key item' = es.insert key item' := by
  induction es with
  | nil => simp [insert]
  | cons e es ih =>
    obtain ⟨k, a⟩ := e
    by_cases hk : k = key
    · simp [insert, hk]
    · simp only [insert, if_neg hk, ih]

/-- Inserts entries one after the other. -/
def insertAll (es entries : Entries α) : Entries α :=
  entries.foldl (fun es entry => es.insert entry.1 entry.2) es

theorem insertAll_append (es entries others : Entries α) :
    es.insertAll (entries ++ others) = (es.insertAll entries).insertAll others :=
  List.foldl_append

/-- The keys of entries that were inserted stand in the order of their first occurrence. -/
theorem keys_insertAll_nil (entries : Entries α) :
    (insertAll [] entries).keys = entries.keys.eraseDups := by
  induction entries using List.reverseRecOn with
  | nil => rfl
  | append_singleton entries entry ih =>
    have hkeys : keys (entries ++ [entry]) = keys entries ++ [entry.1] := List.map_append
    have hmem : entry.1 ∈ (insertAll [] entries).keys ↔ entry.1 ∈ keys entries := by
      rw [ih, List.mem_eraseDups]
    rw [insertAll_append, hkeys, List.eraseDups_append, ← ih]
    change ((insertAll [] entries).insert entry.1 entry.2).keys = _
    rw [keys_insert]
    by_cases hold : entry.1 ∈ keys entries
    · simp [if_pos (hmem.mpr hold), List.removeAll, hold]
    · simp [if_neg (mt hmem.mp hold), List.removeAll, hold, List.eraseDups_cons]

/-- Under a key stands the last item that was inserted under it. -/
theorem find?_insertAll_nil (entries : Entries α) (key : String) :
    (insertAll [] entries).find? key = Entries.find? key entries.reverse := by
  induction entries using List.reverseRecOn with
  | nil => rfl
  | append_singleton entries entry ih =>
    rw [insertAll_append, List.reverse_append, List.reverse_singleton, List.singleton_append,
      Entries.find?]
    change ((insertAll [] entries).insert entry.1 entry.2).find? key = _
    split
    · next heq => rw [heq, find?_insert_self]
    · next hne => rw [find?_insert_of_ne (Ne.symm hne), ih]

end Entries

namespace Value

/-- If a value is a dict, its keys are distinct. -/
def HasDistinctKeys (v : Value) : Prop := ∀ es : Entries Value, v = .dict es → es.keys.Nodup

theorem stable_hasDistinctKeys : Stable HasDistinctKeys where
  plain v hkind _ := by
    rintro es rfl
    exact absurd rfl hkind
  dict es hkeys := by
    intro es' heq
    cases heq
    exact hkeys
  insert es key v hes := by
    intro es' heq
    cases heq
    exact Entries.nodup_keys_insert (hes es rfl) key v

/-- A value answers as the map does that has the given keys, in order, and under each the given
item: by its entry under a key, by indexing, by membership, by its length and when its items are
gone through. -/
structure AnswersAs (dict : Value) (keys : List String) (item? : String → Option Value) : Prop where
  get? : ∀ key, dict.get? key = item? key
  item : ∀ key v, dict.item (.str key) = .ok v ↔ item? key = some v
  contains : ∀ key, dict.contains (.str key) = .ok (item? key).isSome
  length : Builtin.lengthOf dict = .ok (.int (Integer.clamp keys.length))
  iterate : dict.iterate = .ok (.values (keys.map .str))
  collect : dict.collect = .ok (keys.map .str)

/-- Everything that asks a dict for its entries sees the same map. -/
theorem answersAs_dict (es : Entries Value) :
    AnswersAs (.dict es) es.keys fun key => es.find? key where
  get? _ := rfl
  item key v := by
    unfold Value.item
    dsimp only
    cases es.find? key <;> simp
  contains _ := rfl
  length := by rw [Entries.keys, List.length_map]; rfl
  iterate := by rw [Entries.keys, List.map_map]; rfl
  collect := by rw [Entries.keys, List.map_map]; rfl

end Value

end ScriptShell
