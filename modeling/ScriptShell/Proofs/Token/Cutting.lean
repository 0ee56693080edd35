import ScriptShell.Proofs.Token.LineEnds

/-!
# Cutting a text that goes on

What a text is cut into does not change when it goes on with an opening parenthesis, a closing
bracket, a comma, a colon or a line feed: each of these ends whatever stands before it, except a
comment, which only a line feed ends. What is cut off is the front of the text, and a line feed is
never inside it.
-/

namespace ScriptShell.Lexeme

/-- The characters that end what stands before them. -/
def isDelimiter (c : Char) : Bool := c ∈ ['(', ',', ')', ']', ':', '\x7d', '\n']

/-- What holds of every character that ends what stands before it. -/
theorem forall_isDelimiter {p : Char → Prop} :
    (∀ c, isDelimiter c = true → p c) ↔
      p '(' ∧ p ',' ∧ p ')' ∧ p ']' ∧ p ':' ∧ p '\x7d' ∧ p '\n' := by
  simp [isDelimiter]

/-- A text that is empty or starts with a delimiter. -/
def Delimited (cs : List Char) : Prop := ∀ c, cs.head? = some c → isDelimiter c = true

/-- A delimiter starts a delimited text. -/
theorem delimited_cons {c : Char} (h : isDelimiter c = true) (cs : List Char) :
    Delimited (c :: cs) := by
  intro d hd
  cases hd
  exact h

/-- A delimited text is empty or starts with a delimiter. -/
theorem Delimited.cases {cs : List Char} (h : Delimited cs) :
    cs = [] ∨ ∃ c cs', cs = c :: cs' ∧ isDelimiter c = true := by
  cases cs with
  | nil => exact .inl rfl
  | cons c cs => exact .inr ⟨c, cs, rfl, h c rfl⟩

/-- A class of characters without the delimiters. -/
def Undelimited (p : Char → Bool) : Prop := ∀ c, isDelimiter c = true → p c = false

/-- What no delimiter is taken for is taken from the front alone, before a delimited text. -/
theorem Undelimited.takeWhile_append {p : Char → Bool} (hp : Undelimited p) (cs : List Char)
    {rest : List Char} (h : Delimited rest) : (cs ++ rest).takeWhile p = cs.takeWhile p := by
  induction cs with
  | nil =>
    cases rest with
    | nil => rfl
    | cons c rest =>
      rw [List.nil_append, List.takeWhile_cons_of_neg (by simp [hp c (h c rfl)])]
      rfl
  | cons c cs ih => simp only [List.cons_append, List.takeWhile_cons, ih]

/-- What is left of the front stands before the delimited text. -/
theorem Undelimited.dropWhile_append {p : Char → Bool} (hp : Undelimited p) (cs : List Char)
    {rest : List Char} (h : Delimited rest) :
    (cs ++ rest).dropWhile p = cs.dropWhile p ++ rest := by
  induction cs with
  | nil =>
    cases rest with
    | nil => rfl
    | cons c rest =>
      rw [List.nil_append, List.dropWhile_cons_of_neg (by simp [hp c (h c rfl)])]
      rfl
  | cons c cs ih =>
    simp only [List.cons_append, List.dropWhile_cons, ih]
    split <;> rfl

/-- No delimiter is a digit. -/
theorem undelimited_isDigit : Undelimited Char.isDigit := forall_isDelimiter.mpr (by decide)

/-- No delimiter stands in a name. -/
theorem undelimited_continuesName : Undelimited continuesName :=
  forall_isDelimiter.mpr (by decide)

/-- A point delimits nothing, since it may stand in a float. -/
theorem ne_point_of_isDelimiter : ∀ c, isDelimiter c = true → c ≠ '.' :=
  forall_isDelimiter.mpr (by decide)

/-! ### Cuts of a longer text -/

/-- A cut of a text that goes on. -/
def Cut.before (k : Cut) (rest : List Char) : Cut := { k with rest := k.rest ++ rest }

/-- A closed literal is the same whatever follows it. -/
theorem stringBody_append {quote : Char} {cs taken left : List Char}
    (h : stringBody quote cs = (taken, some left)) (rest : List Char) :
    stringBody quote (cs ++ rest) = (taken, some (left ++ rest)) := by
  fun_induction stringBody quote cs generalizing taken with
  | case1 => cases h
  | case2 => cases h
  | case3 => cases h
  | case4 c cs hc taken' left' heq ih =>
    cases h
    rw [List.cons_append, List.cons_append, stringBody]
    · rw [ih heq]
    · exact hc
  | case5 => cases h
  | case6 cs hc hfeed =>
    cases h
    rw [List.cons_append, stringBody]
    · rw [if_neg hfeed, if_pos rfl]
    · exact hc
  | case7 c cs hc hfeed hquote taken' left' heq ih =>
    cases h
    rw [List.cons_append, stringBody]
    · rw [if_neg hfeed, if_neg hquote, ih heq]
    · exact hc

/-- A string that is closed is cut alike before any text. -/
theorem cutString_append {quote : Char} {cs : List Char}
    (h : (cutString quote cs).reading ≠ .unreadable) (rest : List Char) :
    cutString quote (cs ++ rest) = (cutString quote cs).before rest := by
  unfold cutString at h ⊢
  split at h
  · next taken left heq =>
    rw [stringBody_append heq rest]
    rfl
  · exact absurd rfl h

/-- An integer is cut alike before any text. -/
theorem cutInteger_before (digits left rest : List Char) :
    cutNumber.cutInteger digits (left ++ rest) =
      (cutNumber.cutInteger digits left).before rest := by
  unfold cutNumber.cutInteger
  split <;> rfl

/-- A number is cut alike before a delimited text. -/
theorem cutNumber_append (cs : List Char) {rest : List Char} (h : Delimited rest) :
    cutNumber (cs ++ rest) = (cutNumber cs).before rest := by
  unfold cutNumber
  simp only [undelimited_isDigit.takeWhile_append cs h, undelimited_isDigit.dropWhile_append cs h]
  generalize cs.takeWhile Char.isDigit = whole
  generalize cs.dropWhile Char.isDigit = left
  rcases left with _ | ⟨c, left⟩
  · rcases h.cases with rfl | ⟨c, cs', rfl, hc⟩
    · exact cutInteger_before whole [] _
    · rw [List.nil_append]
      split
      · next heq => exact absurd (List.cons.inj heq).1 (ne_point_of_isDelimiter c hc)
      · exact cutInteger_before whole [] _
  by_cases hc : c = '.'
  · subst hc
    rcases left with _ | ⟨d, ds⟩
    · rcases h.cases with rfl | ⟨c, cs', rfl, hc⟩
      · exact cutInteger_before whole ['.'] _
      · have hdigit := undelimited_isDigit c hc
        simp only [List.cons_append, List.nil_append, hdigit, Bool.false_eq_true, if_false]
        exact cutInteger_before whole ['.'] _
    · simp only [List.cons_append]
      split
      · rw [← List.cons_append, undelimited_isDigit.takeWhile_append (d :: ds) h,
          undelimited_isDigit.dropWhile_append (d :: ds) h]
        rfl
      · exact cutInteger_before whole ('.' :: d :: ds) rest
  · rw [List.cons_append]
    split
    · next heq => exact absurd (List.cons.inj heq).1 hc
    · split
      · next heq => exact absurd (List.cons.inj heq).1 hc
      · exact cutInteger_before whole (c :: left) rest

/-- No symbol of two characters ends with a delimiter. -/
theorem ofPair?_delimiter (c : Char) {d : Char} (hd : isDelimiter d = true) :
    Symbol.ofPair? c d = none := by
  unfold Symbol.ofPair?
  split
  all_goals first
    | rfl
    | cases hd

/-- A symbol is cut alike before a delimited text, which carries no symbol on. -/
theorem cutSymbol_append (c : Char) (cs : List Char) {rest : List Char} (h : Delimited rest) :
    cutSymbol c (cs ++ rest) = (cutSymbol c cs).before rest := by
  cases cs with
  | nil =>
    have hpair : rest.head?.bind (Symbol.ofPair? c) = none := by
      cases hd : rest.head? with
      | none => rfl
      | some d => exact ofPair?_delimiter c (h d hd)
    unfold cutSymbol
    rw [List.nil_append, hpair]
    simp only [List.head?_nil, Option.bind_none]
    split <;> rfl
  | cons d cs =>
    unfold cutSymbol
    simp only [List.cons_append, List.head?_cons]
    split
    · rfl
    · split <;> rfl

/-- A comment that a line feed ends is the same whatever follows the line feed. -/
theorem comment_append {cs : List Char} (h : '\n' ∈ cs) (rest : List Char) :
    (cs ++ rest).takeWhile (· != '\n') = cs.takeWhile (· != '\n') ∧
      (cs ++ rest).dropWhile (· != '\n') = cs.dropWhile (· != '\n') ++ rest := by
  induction cs with
  | nil => cases h
  | cons c cs ih =>
    simp only [List.cons_append, List.takeWhile_cons, List.dropWhile_cons]
    by_cases hc : c = '\n'
    · subst hc
      exact ⟨rfl, rfl⟩
    · have hne : (c != '\n') = true := by simpa using hc
      obtain ⟨htake, hdrop⟩ := ih ((List.mem_cons.mp h).resolve_left (Ne.symm hc))
      rw [if_pos hne, if_pos hne, if_pos hne, if_pos hne, htake, hdrop]
      exact ⟨rfl, rfl⟩

/-- What starts with a quote is cut as a string. -/
theorem cut_quote {c : Char} (h : c = '"' ∨ c = '\'') (cs : List Char) :
    cut c cs = cutString c cs := by
  rcases h with rfl | rfl <;> rfl

/-- What is no literal is cut as it is alone if it goes on with a delimiter, unless it is a comment
without a line feed in it. -/
theorem cut_append_unquoted {c : Char} {cs rest : List Char} (h : Delimited rest)
    (hquote : ¬(c = '"' ∨ c = '\'')) (hcomment : c = '#' → '\n' ∈ cs) :
    cut c (cs ++ rest) = (cut c cs).before rest := by
  unfold cut
  split
  · rfl
  split
  · rfl
  split
  · next hc =>
    obtain ⟨htake, hdrop⟩ := comment_append (hcomment hc) rest
    rw [htake, hdrop]
    rfl
  split
  · exact cutNumber_append (c :: cs) h
  split
  · rw [undelimited_continuesName.takeWhile_append cs h,
      undelimited_continuesName.dropWhile_append cs h]
    rfl
  · exact cutSymbol_append c cs h

/-- A text that goes on with a delimiter is cut as it is alone, unless it is a comment without a
line feed in it. -/
theorem cut_append {c : Char} {cs rest : List Char} (h : Delimited rest)
    (hread : (cut c cs).reading ≠ .unreadable) (hcomment : c = '#' → '\n' ∈ cs) :
    cut c (cs ++ rest) = (cut c cs).before rest := by
  by_cases hquote : c = '"' ∨ c = '\''
  · rw [cut_quote hquote] at hread ⊢
    rw [cut_quote hquote, cutString_append hread]
  · exact cut_append_unquoted h hquote hcomment

/-- A sign that makes no pair with the next character is cut off alone. -/
theorem cutSymbol_single {c : Char} {sign : Symbol} (hsign : Symbol.ofChar? c = some sign)
    {cs : List Char} (hpair : ∀ d, cs.head? = some d → Symbol.ofPair? c d = none) :
    cutSymbol c cs = ⟨.token (.symbol sign), [c], cs⟩ := by
  have hnone : cs.head?.bind (Symbol.ofPair? c) = none := by
    cases hd : cs.head? with
    | none => rfl
    | some d => exact hpair d hd
  unfold cutSymbol
  rw [hnone, hsign]

/-! ### What is cut off -/

/-- An integer takes its digits. -/
theorem taken_cutInteger (digits left : List Char) :
    (cutNumber.cutInteger digits left).taken = digits := by
  unfold cutNumber.cutInteger
  split <;> rfl

/-- Cutting an integer loses no character. -/
theorem taken_append_cutInteger (digits left : List Char) :
    (cutNumber.cutInteger digits left).taken ++ (cutNumber.cutInteger digits left).rest =
      digits ++ left := by
  rw [taken_cutInteger, rest_cutInteger]

/-- Cutting a number loses no character. -/
theorem taken_append_cutNumber {cs : List Char} (h : (cutNumber cs).reading ≠ .unreadable) :
    (cutNumber cs).taken ++ (cutNumber cs).rest = cs := by
  have hcs : cs.takeWhile Char.isDigit ++ cs.dropWhile Char.isDigit = cs :=
    List.takeWhile_append_dropWhile
  revert h
  unfold cutNumber
  dsimp only
  generalize cs.takeWhile Char.isDigit = whole at hcs ⊢
  generalize cs.dropWhile Char.isDigit = left at hcs ⊢
  subst hcs
  split
  · next d ds =>
    split
    · intro _
      rw [List.append_assoc, List.cons_append, List.takeWhile_append_dropWhile]
    · exact fun _ => taken_append_cutInteger ..
  · exact fun _ => taken_append_cutInteger ..

/-- Cutting a string that is closed loses no character. -/
theorem taken_append_cutString {quote : Char} {cs : List Char}
    (h : (cutString quote cs).reading ≠ .unreadable) :
    (cutString quote cs).taken ++ (cutString quote cs).rest = quote :: cs := by
  unfold cutString at h ⊢
  split at h
  · next taken left heq =>
    rw [List.cons_append, append_of_stringBody heq]
  · exact absurd rfl h

/-- Cutting a symbol loses no character. -/
theorem taken_append_cutSymbol {c : Char} {cs : List Char} :
    (cutSymbol c cs).taken ++ (cutSymbol c cs).rest = c :: cs := by
  unfold cutSymbol
  split
  · rw [List.cons_append, List.take_append_drop]
  · split <;> rfl

/-- A cut takes the front of the text off. -/
theorem taken_append_rest {c : Char} {cs : List Char} (h : (cut c cs).reading ≠ .unreadable) :
    (cut c cs).taken ++ (cut c cs).rest = c :: cs := by
  unfold cut at h ⊢
  split
  · rfl
  split
  · rfl
  split
  · rw [List.cons_append, List.takeWhile_append_dropWhile]
  split
  · next hgap hfeed hsharp hquote =>
    simp only [hgap, hfeed, hsharp, hquote, if_true, if_false] at h
    exact taken_append_cutString h
  split
  · next hgap hfeed hsharp hquote hdigit =>
    simp only [hgap, hfeed, hsharp, hquote, hdigit, if_true, if_false] at h
    exact taken_append_cutNumber h
  split
  · rw [List.cons_append, List.takeWhile_append_dropWhile]
  · exact taken_append_cutSymbol

/-- A class of characters without the line feed takes no line feed. -/
theorem feed_not_mem_takeWhile {p : Char → Bool} (hp : p '\n' = false) (cs : List Char) :
    '\n' ∉ cs.takeWhile p := by
  intro hmem
  have hfeed := List.all_eq_true.mp List.all_takeWhile _ hmem
  rw [hp] at hfeed
  cases hfeed

/-- The body of a string ends before a line feed. -/
theorem feed_not_mem_stringBody {quote : Char} (hquote : quote ≠ '\n') {cs taken left : List Char}
    (h : stringBody quote cs = (taken, some left)) : '\n' ∉ taken := by
  fun_induction stringBody quote cs generalizing taken with
  | case1 => cases h
  | case2 => cases h
  | case3 => cases h
  | case4 c cs hc taken' left' heq ih =>
    cases h
    have hfeed : ¬('\n' = c) := fun hc' => hc hc'.symm
    simpa [hfeed] using ih heq
  | case5 => cases h
  | case6 cs hc hfeed =>
    cases h
    simpa using hquote.symm
  | case7 c cs hc hfeed _ taken' left' heq ih =>
    cases h
    simpa [Ne.symm hfeed] using ih heq

/-- A string that is closed holds no line feed. -/
theorem feed_not_mem_cutString {quote : Char} (hquote : quote ≠ '\n') {cs : List Char}
    (h : (cutString quote cs).reading ≠ .unreadable) : '\n' ∉ (cutString quote cs).taken := by
  unfold cutString at h ⊢
  split at h
  · next taken left heq => simpa [hquote.symm] using feed_not_mem_stringBody hquote heq
  · exact absurd rfl h

/-- No line feed is taken for a part of a number. -/
theorem feed_not_mem_cutNumber (cs : List Char) : '\n' ∉ (cutNumber cs).taken := by
  have hdigits := fun cs => feed_not_mem_takeWhile (p := Char.isDigit) rfl cs
  unfold cutNumber
  dsimp only
  split
  · split
    · simpa using ⟨hdigits cs, hdigits _⟩
    · rw [taken_cutInteger]
      exact hdigits cs
  · rw [taken_cutInteger]
    exact hdigits cs

/-- No line feed is taken for a part of a symbol. -/
theorem feed_not_mem_cutSymbol {c : Char} (hc : c ≠ '\n') (cs : List Char) :
    '\n' ∉ (cutSymbol c cs).taken := by
  unfold cutSymbol
  split
  · next sign hpair =>
    cases cs with
    | nil => cases hpair
    | cons d cs =>
      have hd : ¬('\n' = d) := by
        rintro rfl
        simp [Symbol.ofPair?] at hpair
      simp [hc.symm, hd]
  · split
    · simpa using hc.symm
    · simpa using hc.symm

/-- A line feed is cut off only by itself. -/
theorem feed_not_mem_taken {c : Char} {cs : List Char} (h : (cut c cs).reading ≠ .unreadable)
    (hc : c ≠ '\n') : '\n' ∉ (cut c cs).taken := by
  unfold cut at h ⊢
  split
  · simpa using hc.symm
  split
  · simpa [hc.symm] using feed_not_mem_takeWhile (by rfl) cs
  split
  · next hgap hsharp hquote =>
    simp only [hgap, hc, hsharp, hquote, if_true, if_false] at h
    exact feed_not_mem_cutString hc h
  split
  · exact feed_not_mem_cutNumber (c :: cs)
  split
  · simpa [hc.symm] using feed_not_mem_takeWhile (by rfl) cs
  · exact feed_not_mem_cutSymbol hc cs

/-- What starts neither a blank nor a comment and is no line feed is read as a token, and not as one
that stands for line structure, if it is read at all. -/
theorem reading_of_lexeme {c : Char} {cs : List Char} (hgap : ¬isGap c = true) (hfeed : c ≠ '\n')
    (hsharp : c ≠ '#') :
    (cut c cs).reading = .unreadable ∨
      ∃ t, (cut c cs).reading = .token t ∧ t.isLayout = false := by
  unfold cut
  rw [if_neg hgap, if_neg hfeed, if_neg hsharp]
  split
  · unfold cutString
    split
    · exact .inr ⟨_, rfl, rfl⟩
    · exact .inl rfl
  split
  · have hinteger : ∀ digits left,
        (cutNumber.cutInteger digits left).reading = .unreadable ∨
          ∃ t, (cutNumber.cutInteger digits left).reading = .token t ∧ t.isLayout = false := by
      intro digits left
      unfold cutNumber.cutInteger
      split
      · exact .inr ⟨_, rfl, rfl⟩
      · exact .inl rfl
    unfold cutNumber
    dsimp only
    split
    · split
      · exact .inr ⟨_, rfl, rfl⟩
      · exact hinteger _ _
    · exact hinteger _ _
  split
  · refine .inr ⟨_, rfl, ?_⟩
    unfold wordToken
    split <;> rfl
  · unfold cutSymbol
    split
    · exact .inr ⟨_, rfl, rfl⟩
    · split
      · exact .inr ⟨_, rfl, rfl⟩
      · exact .inl rfl

/-- A gap is skipped by itself. -/
theorem cut_gap {c : Char} (h : isGap c = true) (cs : List Char) :
    cut c cs = ⟨.skipped, [c], cs⟩ := by
  unfold cut
  rw [if_pos h]

/-- A line feed is a newline by itself. -/
theorem cut_feed (cs : List Char) : cut '\n' cs = ⟨.token .newline, ['\n'], cs⟩ := rfl

/-- What stands between lexemes is a blank or a comment. -/
theorem rest_of_skipped {c : Char} {cs : List Char} (h : (cut c cs).reading = .skipped) :
    (isGap c = true ∧ (cut c cs).rest = cs) ∨
      (c = '#' ∧ (cut c cs).rest = cs.dropWhile (· != '\n')) := by
  by_cases hgap : isGap c = true
  · rw [cut_gap hgap]
    exact .inl ⟨hgap, rfl⟩
  by_cases hsharp : c = '#'
  · subst hsharp
    exact .inr ⟨rfl, rfl⟩
  by_cases hfeed : c = '\n'
  · subst hfeed
    cases h
  rcases reading_of_lexeme hgap hfeed hsharp with hread | ⟨t, hread, _⟩
  all_goals
    rw [hread] at h
    cases h

/-- Only a line feed is read as a token for line structure, and it is read as a newline. -/
theorem eq_feed_of_isLayout {c : Char} {cs : List Char} {t : Token}
    (h : (cut c cs).reading = .token t) (ht : t.isLayout = true) : c = '\n' ∧ t = .newline := by
  by_cases hgap : isGap c = true
  · rw [cut_gap hgap] at h
    cases h
  by_cases hsharp : c = '#'
  · subst hsharp
    cases h
  by_cases hfeed : c = '\n'
  · subst hfeed
    cases h
    exact ⟨rfl, rfl⟩
  rcases reading_of_lexeme hgap hfeed hsharp with hread | ⟨t', hread, ht'⟩
  · rw [hread] at h
    cases h
  · rw [hread] at h
    cases h
    rw [ht] at ht'
    cases ht'

end ScriptShell.Lexeme
