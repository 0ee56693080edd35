import ScriptShell.Command.Piece

/-!
# Segments of a text

Which segments a text is made of is said without cutting it. A closed segment starts with a quote,
which is any delimiter but the first, and ends where that quote stands next; or it starts with no
quote and ends where the first delimiter stands. The last segment of a text is open: it lacks the
character that would close it. Cutting a text finds such segments, and there are no others that
together are the text.
-/

namespace ScriptShell.Segment

/-- A quote is a delimiter other than the first. -/
def IsQuote (first : Char) (delimiters : List Char) (c : Char) : Prop :=
  c ∈ delimiters ∧ c ≠ first

/-- A segment with the character that closes it. -/
inductive IsClosed (first : Char) (delimiters : List Char) : List Char → Prop
  /-- It starts with a quote and ends with it, and the quote does not stand between. -/
  | quoted {q : Char} {inside : List Char} : IsQuote first delimiters q → q ∉ inside →
      IsClosed first delimiters (q :: (inside ++ [q]))
  /-- It starts with no quote and ends with the first delimiter, which does not stand before. -/
  | plain {word : List Char} : (∀ c, word.head? = some c → ¬IsQuote first delimiters c) →
      first ∉ word → IsClosed first delimiters (word ++ [first])

/-- A segment without the character that closes it. -/
def IsOpen (first : Char) (delimiters segment : List Char) : Prop :=
  ∃ c, IsClosed first delimiters (segment ++ [c])

/-- A text is made of segments. -/
structure Decomposes (first : Char) (delimiters text : List Char) (segments : List (List Char)) :
    Prop where
  /-- Together the segments are the text. -/
  joined : segments.flatten = text
  /-- None is empty but for the last. -/
  nonempty : ∀ s ∈ segments.dropLast, s ≠ []
  /-- All are closed but for the last. -/
  closed : ∀ s ∈ segments.dropLast, IsClosed first delimiters s
  /-- There is a last segment, and it is open. -/
  left : ∃ s, segments.getLast? = some s ∧ IsOpen first delimiters s

/-- What is read of a segment before the character that closes it. -/
inductive IsBegun (first : Char) (delimiters : List Char) : Char → List Char → Prop
  | quoted {q : Char} {inside : List Char} : IsQuote first delimiters q → q ∉ inside →
      IsBegun first delimiters q (q :: inside)
  | plain {word : List Char} : (∀ c, word.head? = some c → ¬IsQuote first delimiters c) →
      first ∉ word → IsBegun first delimiters first word

variable {first awaited : Char} {delimiters segment : List Char}

/-! ### Reading a segment -/

/-- A closed segment is one that is begun, and the character that closes it. -/
theorem isClosed_concat_iff {c : Char} :
    IsClosed first delimiters (segment ++ [c]) ↔ IsBegun first delimiters c segment := by
  constructor
  · intro h
    generalize hwhole : segment ++ [c] = whole at h
    cases h with
    | @quoted q inside hq hinside =>
      rw [← List.cons_append] at hwhole
      obtain ⟨rfl, hc⟩ := List.append_inj' hwhole rfl
      cases hc
      exact .quoted hq hinside
    | plain hhead hword =>
      obtain ⟨rfl, hc⟩ := List.append_inj' hwhole rfl
      cases hc
      exact .plain hhead hword
  · intro h
    cases h with
    | quoted hq hinside => exact .quoted hq hinside
    | plain hhead hword => exact .plain hhead hword

theorem IsClosed.exists_begun (h : IsClosed first delimiters segment) :
    ∃ c begun, segment = begun ++ [c] ∧ IsBegun first delimiters c begun := by
  cases h with
  | @quoted q inside hq hinside => exact ⟨q, q :: inside, rfl, .quoted hq hinside⟩
  | @plain word hhead hword => exact ⟨first, word, rfl, .plain hhead hword⟩

theorem IsClosed.ne_nil (h : IsClosed first delimiters segment) : segment ≠ [] := by
  cases h <;> simp

/-- At the start of a text nothing is read of its first segment, which the first delimiter
closes. -/
theorem isBegun_nil (first : Char) (delimiters : List Char) : IsBegun first delimiters first [] :=
  .plain nofun List.not_mem_nil

theorem IsBegun.eq_first (h : IsBegun first delimiters awaited []) : awaited = first := by
  cases h
  rfl

/-- A segment goes on with a character that neither closes it nor starts it with a quote. -/
theorem IsBegun.concat {c : Char} (h : IsBegun first delimiters awaited segment)
    (hc : c ≠ awaited) (hstart : segment = [] → c ∉ delimiters) :
    IsBegun first delimiters awaited (segment ++ [c]) := by
  cases h with
  | quoted hq hinside => exact .quoted hq (by simp [hinside, hc.symm])
  | plain hhead hword =>
    refine .plain (fun d hd => ?_) (by simp [hword, hc.symm])
    cases segment with
    | nil =>
      obtain rfl : c = d := by simpa using hd
      exact fun hquote => hstart rfl hquote.1
    | cons e word => exact hhead d (by simpa using hd)

/-! ### Cutting -/

/-- Inside a segment a delimiter that does not close it is read like any other character. -/
theorem splitFrom_inside (first : Char) (delimiters : List Char) {read : List Char}
    (hread : awaited ∉ read) (hsegment : segment ≠ []) (rest : List Char) :
    splitFrom first delimiters awaited segment (read ++ rest) =
      splitFrom first delimiters awaited (read.reverse ++ segment) rest := by
  induction read generalizing segment with
  | nil => rfl
  | cons c read ih =>
    simp only [List.mem_cons, not_or] at hread
    have hnext := ih hread.2 (List.cons_ne_nil c segment)
    simp [splitFrom, Ne.symm hread.1, hsegment, hnext]

/-- From the start of a segment on it is read up to the character that closes it. -/
theorem splitFrom_begun (h : IsBegun first delimiters awaited segment) (rest : List Char) :
    splitFrom first delimiters first [] (segment ++ rest) =
      splitFrom first delimiters awaited segment.reverse rest := by
  cases h with
  | @quoted q inside hq hinside =>
    have hnext := splitFrom_inside first delimiters hinside (List.cons_ne_nil awaited []) rest
    simp [splitFrom, hq.1, hq.2, hnext]
  | plain hhead hword =>
    cases segment with
    | nil => rfl
    | cons c word =>
      simp only [List.mem_cons, not_or] at hword
      have hc : c ∉ delimiters := fun hmem => hhead c rfl ⟨hmem, Ne.symm hword.1⟩
      have hnext := splitFrom_inside first delimiters hword.2 (List.cons_ne_nil c []) rest
      simp [splitFrom, Ne.symm hword.1, hc, hnext]

/-- A closed segment is cut off. -/
theorem splitFrom_closed (h : IsClosed first delimiters segment) (rest : List Char) :
    splitFrom first delimiters first [] (segment ++ rest) =
      segment :: splitFrom first delimiters first [] rest := by
  obtain ⟨c, begun, rfl, hbegun⟩ := h.exists_begun
  rw [List.append_assoc, splitFrom_begun hbegun]
  simp [splitFrom]

/-- An open segment is not cut. -/
theorem splitFrom_open (h : IsOpen first delimiters segment) :
    splitFrom first delimiters first [] segment = [segment] := by
  obtain ⟨c, hc⟩ := h
  have hbegun := splitFrom_begun (isClosed_concat_iff.mp hc) []
  rw [List.append_nil] at hbegun
  simp [hbegun, splitFrom]

/-- Segments of which the last is open and the others are closed are cut apart. -/
theorem splitFrom_flatten {closed : List (List Char)}
    (hclosed : ∀ s ∈ closed, IsClosed first delimiters s) (hopen : IsOpen first delimiters segment) :
    splitFrom first delimiters first [] (closed.flatten ++ segment) = closed ++ [segment] := by
  induction closed with
  | nil => exact splitFrom_open hopen
  | cons s closed ih =>
    obtain ⟨hs, hclosed⟩ := List.forall_mem_cons.mp hclosed
    rw [List.flatten_cons, List.append_assoc, splitFrom_closed hs, ih hclosed, List.cons_append]

/-- What is cut is what was read of the first segment and the text behind it, in closed segments and
an open one. -/
theorem exists_splitFrom {read : List Char}
    (h : IsBegun first delimiters awaited read.reverse) (text : List Char) :
    ∃ closed last, splitFrom first delimiters awaited read text = closed ++ [last] ∧
      closed.flatten ++ last = read.reverse ++ text ∧
      (∀ s ∈ closed, IsClosed first delimiters s) ∧ IsOpen first delimiters last := by
  fun_induction splitFrom first delimiters awaited read text with
  | case1 awaited read =>
    exact ⟨[], read.reverse, rfl, by simp, nofun, awaited, isClosed_concat_iff.mpr h⟩
  | case2 read c cs ih =>
    obtain ⟨closed, last, hcut, hjoined, hclosed, hopen⟩ := ih (isBegun_nil ..)
    have hfirst : IsClosed first delimiters (c :: read).reverse := by
      rw [List.reverse_cons]
      exact isClosed_concat_iff.mpr h
    refine ⟨(c :: read).reverse :: closed, last, by rw [hcut]; rfl, ?_,
      List.forall_mem_cons.mpr ⟨hfirst, hclosed⟩, hopen⟩
    simpa using hjoined
  | case3 awaited read c cs hc hquote ih =>
    simp only [Bool.and_eq_true, List.isEmpty_iff, List.contains_iff_mem] at hquote
    obtain ⟨rfl, hmem⟩ := hquote
    have hbegun : IsBegun first delimiters c [c].reverse :=
      .quoted ⟨hmem, h.eq_first ▸ hc⟩ List.not_mem_nil
    obtain ⟨closed, last, hcut, hjoined, hparts⟩ := ih hbegun
    exact ⟨closed, last, hcut, by simpa using hjoined, hparts⟩
  | case4 awaited read c cs hc hquote ih =>
    simp only [Bool.and_eq_true, List.isEmpty_iff, List.contains_iff_mem, not_and] at hquote
    have hbegun : IsBegun first delimiters awaited (c :: read).reverse := by
      rw [List.reverse_cons]
      exact h.concat hc fun hnil => hquote (List.reverse_eq_nil_iff.mp hnil)
    obtain ⟨closed, last, hcut, hjoined, hparts⟩ := ih hbegun
    exact ⟨closed, last, hcut, by simpa using hjoined, hparts⟩

/-! ### Decompositions -/

/-- A text is cut into closed segments and an open one. -/
theorem exists_split (first : Char) (others text : List Char) :
    ∃ closed last, split (first :: others) text = closed ++ [last] ∧
      closed.flatten ++ last = text ∧
      (∀ s ∈ closed, IsClosed first (first :: others) s) ∧ IsOpen first (first :: others) last := by
  have hbegun : IsBegun first (first :: others) first ([] : List Char).reverse := isBegun_nil ..
  obtain ⟨closed, last, hcut, hjoined, hparts⟩ := exists_splitFrom hbegun text
  exact ⟨closed, last, hcut, hjoined, hparts⟩

/-- A text is made of the segments that it is cut into, and of no others. -/
theorem split_eq_iff_decomposes (others text : List Char) (segments : List (List Char)) :
    split (first :: others) text = segments ↔
      Decomposes first (first :: others) text segments := by
  constructor
  · rintro rfl
    obtain ⟨closed, last, hcut, hjoined, hclosed, hopen⟩ := exists_split first others text
    rw [hcut]
    constructor
    · simpa using hjoined
    · simpa using fun s hs => (hclosed s hs).ne_nil
    · simpa using hclosed
    · exact ⟨last, List.getLast?_concat, hopen⟩
  · intro h
    obtain ⟨last, hlast, hopen⟩ := h.left
    obtain ⟨closed, rfl⟩ := List.getLast?_eq_some_iff.mp hlast
    have hclosed : ∀ s ∈ closed, IsClosed first (first :: others) s := by
      simpa using h.closed
    have hjoined : closed.flatten ++ last = text := by simpa using h.joined
    rw [← hjoined]
    exact splitFrom_flatten hclosed hopen

end ScriptShell.Segment
