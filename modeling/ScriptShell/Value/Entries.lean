/-!
# Keyed entries

A list of entries in which a key is looked up from the front. Inserting under a key that is there
replaces its item in place, and inserting under a new key adds an entry at the end, so the keys
stay in the order in which they were first inserted. The entries of a dict and the variables of a
scope are kept this way.
-/

namespace ScriptShell

/-- Items by key, in the order of first insertion. -/
abbrev Entries (α : Type) := List (String × α)

namespace Entries

/-- The keys, in order. -/
def keys {α : Type} (es : Entries α) : List String := es.map Prod.fst

/-- The item under a key. -/
def find? {α : Type} (key : String) : Entries α → Option α
  | [] => none
  | (k, a) :: es => if k = key then some a else find? key es

/-- Puts an item under a key. -/
def insert {α : Type} (key : String) (item : α) : Entries α → Entries α
  | [] => [(key, item)]
  | (k, a) :: es => if k = key then (k, item) :: es else (k, a) :: insert key item es

/-- Whether a key is there. -/
def has {α : Type} (key : String) (es : Entries α) : Bool := (es.find? key).isSome

@[simp] theorem find?_insert_self {α : Type} (key : String) (item : α) (es : Entries α) :
    (es.insert key item).find? key = some item := by
  induction es with
  | nil => simp [insert, find?]
  | cons e es ih =>
    obtain ⟨k, a⟩ := e
    by_cases h : k = key <;> simp [insert, find?, h, ih]

theorem find?_insert_of_ne {α : Type} {key other : String} (h : other ≠ key) (item : α)
    (es : Entries α) : (es.insert key item).find? other = es.find? other := by
  induction es with
  | nil => simp [insert, find?, Ne.symm h]
  | cons e es ih =>
    obtain ⟨k, a⟩ := e
    by_cases hk : k = key
    · subst hk
      simp [insert, find?, Ne.symm h]
    · simp only [insert, hk, if_false, find?]
      rw [ih]

theorem has_iff_mem_keys {α : Type} {key : String} {es : Entries α} :
    es.has key ↔ key ∈ es.keys := by
  induction es with
  | nil => simp [has, find?, keys]
  | cons e es ih =>
    obtain ⟨k, a⟩ := e
    simp only [has, keys, find?, List.map_cons, List.mem_cons] at ih ⊢
    by_cases h : k = key
    · simp [h]
    · simp [h, Ne.symm h, ih]

theorem keys_insert {α : Type} (key : String) (item : α) (es : Entries α) :
    (es.insert key item).keys = if key ∈ es.keys then es.keys else es.keys ++ [key] := by
  induction es with
  | nil => simp [insert, keys]
  | cons e es ih =>
    obtain ⟨k, a⟩ := e
    by_cases h : k = key
    · simp [insert, keys, h]
    · have h' : ¬key = k := fun e => h e.symm
      simp only [keys] at ih
      simp only [insert, h, if_false, keys, List.map_cons, ih, List.mem_cons, h', false_or]
      by_cases hm : key ∈ es.map Prod.fst <;> simp [hm]

/-- What is in a list of entries after an insertion was there before or is the new item. -/
theorem mem_insert {α : Type} {key : String} {item : α} {es : Entries α} {x : String × α}
    (h : x ∈ es.insert key item) : x ∈ es ∨ x.2 = item := by
  induction es with
  | nil =>
    rw [List.mem_singleton.mp h]
    exact .inr rfl
  | cons e es ih =>
    obtain ⟨k, a⟩ := e
    unfold Entries.insert at h
    split at h
    · rcases List.mem_cons.mp h with rfl | h
      · exact .inr rfl
      · exact .inl (List.mem_cons_of_mem _ h)
    · rcases List.mem_cons.mp h with rfl | h
      · exact .inl (List.mem_cons_self ..)
      · rcases ih h with h | h
        · exact .inl (List.mem_cons_of_mem _ h)
        · exact .inr h

end Entries

end ScriptShell
