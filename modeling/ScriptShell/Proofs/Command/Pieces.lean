import Mathlib.Data.List.DropRight
import ScriptShell.Proofs.Command.Segments

/-!
# Pieces of a joined line

The pieces of a line that has no blanks but spaces are of two kinds. A whole one is a word without
blanks and quotes at its start, or a text between quotes; whatever stands behind it after a space is
cut apart from it. One whose quote is not closed can only be the last. Hence pieces that are joined
with single spaces are the pieces of the line that they make.
-/

namespace ScriptShell

namespace Text

variable {c : Char} {cs : List Char}

theorem trimRight_eq_rdropWhile (cs : List Char) : trimRight cs = cs.rdropWhile isBlank := rfl

/-- Where a text does not start with a blank it is trimmed at its end only. -/
theorem trim_cons (h : isBlank c = false) (cs : List Char) :
    trim (c :: cs) = trimRight (c :: cs) := by
  simp [trim, h]

/-- A text with blanks at neither end is not changed. -/
theorem trim_cons_concat {d : Char} (hc : isBlank c = false) (hd : isBlank d = false) :
    trim (c :: (cs ++ [d])) = c :: (cs ++ [d]) := by
  rw [trim_cons hc, trimRight_eq_rdropWhile, ← List.cons_append,
    List.rdropWhile_concat_neg _ _ _ (by simp [hd])]

/-- A text without blanks is not changed. -/
theorem trim_of_no_blank (h : ∀ c ∈ cs, isBlank c = false) : trim cs = cs := by
  cases cs with
  | nil => rfl
  | cons c cs =>
    rw [trim_cons (h c (List.mem_cons_self ..)), trimRight_eq_rdropWhile]
    refine List.rdropWhile_eq_self_iff.mpr fun hne => ?_
    simp [h _ (List.getLast_mem hne)]

/-- A blank at the end is taken off. -/
theorem trim_concat_blank (hc : isBlank c = true) (h : ∀ d ∈ cs, isBlank d = false) :
    trim (cs ++ [c]) = cs := by
  cases cs with
  | nil => simp [trim, hc, trimRight]
  | cons d cs =>
    have hd := h d (List.mem_cons_self ..)
    rw [List.cons_append, trim_cons hd, trimRight_eq_rdropWhile, ← List.cons_append,
      List.rdropWhile_concat_pos _ _ _ hc, ← trimRight_eq_rdropWhile, ← trim_cons hd,
      trim_of_no_blank h]

end Text

namespace Piece

/-- The segments of a line without the blanks around them, empty ones left out. -/
def trimmedSegments (line : List Char) : List (List Char) :=
  ((Segment.split delimiters line).map Text.trim).filter fun cs => !cs.isEmpty

/-- A text has no blanks but spaces. -/
def IsSpaced (cs : List Char) : Prop := ∀ c ∈ cs, Text.isBlank c = true → c = ' '

/-- A piece that is cut off when a space stands behind it. -/
inductive IsWhole : List Char → Prop
  | word {c : Char} {cs : List Char} : ¬Segment.IsQuote ' ' delimiters c →
      (∀ d ∈ c :: cs, Text.isBlank d = false) → IsWhole (c :: cs)
  | quoted {q : Char} {inside : List Char} : Segment.IsQuote ' ' delimiters q → q ∉ inside →
      IsWhole (q :: (inside ++ [q]))

/-- Texts that can be the pieces of a line: all are whole, but the quote of the last one need not be
closed. -/
inductive ArePieces : List (List Char) → Prop
  | nil : ArePieces []
  | unclosed {q : Char} {inside : List Char} : Segment.IsQuote ' ' delimiters q → q ∉ inside →
      Text.trimRight (q :: inside) = q :: inside → ArePieces [q :: inside]
  | cons {p : List Char} {ps : List (List Char)} : IsWhole p → ArePieces ps → ArePieces (p :: ps)

variable {segment p : List Char}

/-- A quote is no blank. -/
theorem isBlank_of_isQuote {q : Char} (h : Segment.IsQuote ' ' delimiters q) :
    Text.isBlank q = false := by
  obtain ⟨hmem, hne⟩ := h
  simp only [delimiters, List.mem_cons, List.not_mem_nil, or_false] at hmem
  rcases hmem with rfl | rfl | rfl
  · exact absurd rfl hne
  · rfl
  · rfl

/-- Nothing is taken off a text between quotes. -/
theorem trim_quoted {q : Char} (h : Segment.IsQuote ' ' delimiters q) (inside : List Char) :
    Text.trim (q :: (inside ++ [q])) = q :: (inside ++ [q]) :=
  Text.trim_cons_concat (isBlank_of_isQuote h) (isBlank_of_isQuote h)

/-! ### Cutting pieces -/

/-- A closed segment is trimmed apart from what follows it. -/
theorem trimmedSegments_closed (h : Segment.IsClosed ' ' delimiters segment)
    (htrim : Text.trim segment = p) (hp : p ≠ []) (rest : List Char) :
    trimmedSegments (segment ++ rest) = p :: trimmedSegments rest := by
  have hcut : Segment.split delimiters (segment ++ rest) =
      segment :: Segment.split delimiters rest := Segment.splitFrom_closed h rest
  simp [trimmedSegments, hcut, htrim, hp]

/-- A space between pieces is left out. -/
theorem trimmedSegments_space (rest : List Char) :
    trimmedSegments (' ' :: rest) = trimmedSegments rest := by
  have hclosed : Segment.IsClosed ' ' delimiters [' '] :=
    Segment.isClosed_concat_iff.mpr (Segment.isBegun_nil ..)
  have hcut : Segment.split delimiters (' ' :: rest) = [' '] :: Segment.split delimiters rest :=
    Segment.splitFrom_closed hclosed rest
  have hspace : Text.trim [' '] = [] := rfl
  simp [trimmedSegments, hcut, hspace]

/-- An open segment is one piece. -/
theorem trimmedSegments_open (h : Segment.IsOpen ' ' delimiters segment)
    (htrim : Text.trim segment = p) (hp : p ≠ []) : trimmedSegments segment = [p] := by
  have hcut : Segment.split delimiters segment = [segment] := Segment.splitFrom_open h
  simp [trimmedSegments, hcut, htrim, hp]

/-- A word is begun like any segment without a quote. -/
theorem isBegun_word {c : Char} {cs : List Char} (hc : ¬Segment.IsQuote ' ' delimiters c)
    (hcs : ∀ d ∈ c :: cs, Text.isBlank d = false) :
    Segment.IsBegun ' ' delimiters ' ' (c :: cs) := by
  refine .plain (fun d hd => ?_) fun hspace => ?_
  · obtain rfl : c = d := by simpa using hd
    exact hc
  · have hblank := hcs ' ' hspace
    cases hblank

/-- A whole piece with a space behind it is cut off. -/
theorem IsWhole.trimmedSegments_space (h : IsWhole p) (rest : List Char) :
    trimmedSegments (p ++ ' ' :: rest) = p :: trimmedSegments rest := by
  cases h with
  | @word c cs hc hcs =>
    have hclosed : Segment.IsClosed ' ' delimiters (c :: cs ++ [' ']) :=
      Segment.isClosed_concat_iff.mpr (isBegun_word hc hcs)
    have htrim : Text.trim (c :: cs ++ [' ']) = c :: cs := Text.trim_concat_blank rfl hcs
    have hcut := trimmedSegments_closed hclosed htrim (List.cons_ne_nil c cs) rest
    rwa [List.append_assoc, List.singleton_append] at hcut
  | @quoted q inside hq hinside =>
    rw [trimmedSegments_closed (.quoted hq hinside) (trim_quoted hq inside) (List.cons_ne_nil _ _),
      Piece.trimmedSegments_space]

/-- A whole piece is one piece. -/
theorem IsWhole.trimmedSegments_self (h : IsWhole p) : trimmedSegments p = [p] := by
  cases h with
  | @word c cs hc hcs =>
    have hopen : Segment.IsOpen ' ' delimiters (c :: cs) :=
      ⟨' ', Segment.isClosed_concat_iff.mpr (isBegun_word hc hcs)⟩
    exact trimmedSegments_open hopen (Text.trim_of_no_blank hcs) (List.cons_ne_nil c cs)
  | @quoted q inside hq hinside =>
    have hcut := trimmedSegments_closed (.quoted hq hinside) (trim_quoted hq inside)
      (List.cons_ne_nil _ _) []
    rwa [List.append_nil] at hcut

/-- Pieces that are joined with single spaces are cut apart again. -/
theorem ArePieces.trimmedSegments_intercalate {ps : List (List Char)} (h : ArePieces ps) :
    trimmedSegments ([' '].intercalate ps) = ps := by
  induction h with
  | nil => rfl
  | @unclosed q inside hq hinside hend =>
    have hopen : Segment.IsOpen ' ' delimiters (q :: inside) :=
      ⟨q, Segment.isClosed_concat_iff.mpr (.quoted hq hinside)⟩
    have htrim : Text.trim (q :: inside) = q :: inside := by
      rw [Text.trim_cons (isBlank_of_isQuote hq), hend]
    rw [List.intercalate_singleton, trimmedSegments_open hopen htrim (List.cons_ne_nil q inside)]
  | @cons p ps hp hps ih =>
    cases ps with
    | nil => rw [List.intercalate_singleton, hp.trimmedSegments_self]
    | cons q ps =>
      rw [List.intercalate_cons_cons, List.append_assoc, List.singleton_append,
        hp.trimmedSegments_space, ih]

/-! ### The pieces of a line -/

/-- Where only spaces are blank, a text without spaces has no blanks. -/
theorem IsSpaced.no_blank (h : IsSpaced p) (hspace : ' ' ∉ p) :
    ∀ c ∈ p, Text.isBlank c = false := by
  intro c hc
  rw [← Bool.not_eq_true]
  rintro hblank
  exact hspace (h c hc hblank ▸ hc)

/-- A closed segment is blank, or without the blanks around it it is a whole piece. -/
theorem isWhole_trim (h : Segment.IsClosed ' ' delimiters p) (hp : IsSpaced p)
    (hne : Text.trim p ≠ []) : IsWhole (Text.trim p) := by
  cases h with
  | @quoted q inside hq hinside =>
    rw [trim_quoted hq]
    exact .quoted hq hinside
  | @plain word hhead hspace =>
    have hword : ∀ c ∈ word, Text.isBlank c = false :=
      IsSpaced.no_blank (fun c hc => hp c (List.mem_append_left _ hc)) hspace
    rw [Text.trim_concat_blank rfl hword] at hne ⊢
    obtain ⟨c, cs, rfl⟩ := List.exists_cons_of_ne_nil hne
    exact .word (hhead c rfl) hword

/-- An open segment is blank, or without the blanks around it it can be the last piece. -/
theorem arePieces_trim (h : Segment.IsOpen ' ' delimiters p) (hp : IsSpaced p)
    (hne : Text.trim p ≠ []) : ArePieces [Text.trim p] := by
  obtain ⟨c, hc⟩ := h
  cases Segment.isClosed_concat_iff.mp hc with
  | @quoted q inside hq hinside =>
    have hblank := isBlank_of_isQuote hq
    have hprefix : Text.trimRight (c :: inside) <+: c :: inside := List.rdropWhile_prefix _ _
    rw [Text.trim_cons hblank] at hne ⊢
    obtain ⟨d, left, heq⟩ := List.exists_cons_of_ne_nil hne
    have htwice : Text.trimRight (Text.trimRight (c :: inside)) = Text.trimRight (c :: inside) :=
      List.rdropWhile_idempotent ..
    rw [heq] at hprefix htwice ⊢
    obtain ⟨rfl, hleft⟩ := List.cons_prefix_cons.mp hprefix
    exact .unclosed hq (fun hmem => hinside (hleft.subset hmem)) htwice
  | plain hhead hspace =>
    have hword := hp.no_blank hspace
    rw [Text.trim_of_no_blank hword] at hne ⊢
    obtain ⟨c, cs, rfl⟩ := List.exists_cons_of_ne_nil hne
    exact .cons (.word (hhead c rfl) hword) .nil

/-- Segments without the blanks around them are pieces. -/
theorem arePieces_of_segments {closed : List (List Char)} {last : List Char}
    (hclosed : ∀ s ∈ closed, Segment.IsClosed ' ' delimiters s)
    (hopen : Segment.IsOpen ' ' delimiters last) (hspaced : IsSpaced (closed.flatten ++ last)) :
    ArePieces (((closed ++ [last]).map Text.trim).filter fun cs => !cs.isEmpty) := by
  induction closed with
  | nil =>
    by_cases hne : Text.trim last = []
    · simpa [hne] using ArePieces.nil
    · simpa [hne] using arePieces_trim hopen hspaced hne
  | cons s closed ih =>
    obtain ⟨hs, hclosed⟩ := List.forall_mem_cons.mp hclosed
    have hrest := ih hclosed fun c hc => hspaced c (by simp at hc ⊢; exact .inr hc)
    by_cases hne : Text.trim s = []
    · simpa [hne] using hrest
    · have hspacedFirst : IsSpaced s := fun c hc => hspaced c (by simp [hc])
      have hwhole := ArePieces.cons (isWhole_trim hs hspacedFirst hne) hrest
      simpa [hne] using hwhole

/-- A line without blanks but spaces is cut into pieces. -/
theorem arePieces_trimmedSegments {line : List Char} (h : IsSpaced line) :
    ArePieces (trimmedSegments line) := by
  obtain ⟨closed, last, hcut, rfl, hclosed, hopen⟩ := Segment.exists_split ' ' ['"', '\''] line
  have hpieces := arePieces_of_segments hclosed hopen h
  rw [← hcut] at hpieces
  exact hpieces

/-- The pieces of a line that has no blanks but spaces, joined with single spaces, make a line with
the same pieces. -/
theorem ofLine_intercalate {line : String} (h : ∀ c ∈ line.toList, Text.isBlank c = true → c = ' ') :
    ofLine (" ".intercalate (textsOfLine line)) = ofLine line := by
  have htexts : (textsOfLine line).map String.toList = trimmedSegments line.toList := by
    simp [textsOfLine, ofLine, trimmedSegments, Function.comp_def]
  have hjoined : (" ".intercalate (textsOfLine line)).toList =
      [' '].intercalate (trimmedSegments line.toList) := by
    rw [String.toList_intercalate, htexts]
    rfl
  have hpieces := (arePieces_trimmedSegments h).trimmedSegments_intercalate
  rw [← hjoined] at hpieces
  exact congrArg (List.map fun cs => ofText (String.ofList cs)) hpieces

theorem ofLine_intercalate_quotes :
    (∀ c ∈ "cp  \"a b\"'c d  ".toList, Text.isBlank c = true → c = ' ') ∧
      textsOfLine "cp  \"a b\"'c d  " = ["cp", "\"a b\"", "'c d"] ∧
      ofLine "cp \"a b\" 'c d" = ofLine "cp  \"a b\"'c d  " := by
  have hall : ("cp  \"a b\"'c d  ".toList.all fun c => !Text.isBlank c || c == ' ') = true := by
    decide
  have hspaced : ∀ c ∈ "cp  \"a b\"'c d  ".toList, Text.isBlank c = true → c = ' ' := by
    intro c hc hblank
    simpa [hblank] using List.all_eq_true.mp hall c hc
  have htexts : textsOfLine "cp  \"a b\"'c d  " = ["cp", "\"a b\"", "'c d"] := by decide
  have hsame := ofLine_intercalate hspaced
  rw [htexts] at hsame
  exact ⟨hspaced, htexts, hsame⟩

end Piece

end ScriptShell
