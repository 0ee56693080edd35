import Mathlib.Data.List.TakeWhile
import ScriptShell.Proofs.Token.Cutting

/-!
# The tokens of a text

A text is cut into the same tokens wherever it stands, so they can be looked at apart from places.
The tokens of a text that goes on with a delimiter are those of its parts, unless the text leaves a
comment open: then what follows is lost up to the next line feed.
-/

namespace ScriptShell.Lexeme

/-- The tokens that a text is cut into, if all of it can be read. -/
def lexed : List Char → Option (List Token)
  | [] => some []
  | c :: cs =>
    match (cut c cs).reading with
    | .unreadable => none
    | .skipped => lexed (cut c cs).rest
    | .token t => (lexed (cut c cs).rest).map (t :: ·)
termination_by cs => cs.length
decreasing_by
  all_goals exact Nat.lt_succ_of_le (length_cut_rest_le c cs)

/-- Whether a text ends inside a comment, which then goes on with whatever the text goes on with. -/
def leavesComment : List Char → Bool
  | [] => false
  | c :: cs => (c == '#' && !cs.contains '\n') || leavesComment (cut c cs).rest
termination_by cs => cs.length
decreasing_by exact Nat.lt_succ_of_le (length_cut_rest_le c cs)

/-- Lexemes have the tokens of the text, wherever the text stands. -/
theorem exists_scanFrom_of_lexed {cs : List Char} {ts : List Token} (h : lexed cs = some ts)
    (previous : Option Char) (start : Nat) :
    ∃ ls, scanFrom previous start cs = .ok ls ∧ ls.map Lexeme.token = ts := by
  fun_induction lexed cs generalizing previous start ts with
  | case1 =>
    cases h
    exact ⟨[], by rw [scanFrom], rfl⟩
  | case2 => cases h
  | case3 c cs hread ih =>
    obtain ⟨ls, hls, hts⟩ := ih h _ _
    refine ⟨ls, ?_, hts⟩
    rw [scanFrom, hread]
    exact hls
  | case4 c cs t hread ih =>
    obtain ⟨ts', hts', rfl⟩ := Option.map_eq_some_iff.mp h
    obtain ⟨ls, hls, rfl⟩ := ih hts' (cut c cs).taken.getLast?
      (start + Text.utf8Length (cut c cs).taken)
    rw [scanFrom, hread]
    dsimp only
    rw [hls]
    exact ⟨_, rfl, rfl⟩

theorem lexed_of_scanFrom {previous : Option Char} {start : Nat} {cs : List Char}
    {ls : List Lexeme} (h : scanFrom previous start cs = .ok ls) :
    lexed cs = some (ls.map Lexeme.token) := by
  fun_induction lexed cs generalizing previous start ls with
  | case1 =>
    rw [scanFrom] at h
    cases h
    rfl
  | case2 c cs hread =>
    rw [scanFrom, hread] at h
    cases h
  | case3 c cs hread ih =>
    rw [scanFrom, hread] at h
    exact ih h
  | case4 c cs t hread ih =>
    rw [scanFrom, hread] at h
    obtain ⟨ls', hls, heq⟩ := exists_of_bind_eq_ok h
    cases heq
    rw [ih hls]
    rfl

/-- What is read of a text that starts with one lexeme. -/
theorem lexed_token {c : Char} {cs : List Char} {t : Token} (h : (cut c cs).reading = .token t) :
    lexed (c :: cs) = (lexed (cut c cs).rest).map (t :: ·) := by
  rw [lexed, h]

/-- What is read of a text that starts with something between lexemes. -/
theorem lexed_skipped {c : Char} {cs : List Char} (h : (cut c cs).reading = .skipped) :
    lexed (c :: cs) = lexed (cut c cs).rest := by
  rw [lexed, h]

/-- Of the tokens that stand for line structure a text is cut into newlines only. -/
theorem eq_newline_of_mem_lexed {cs : List Char} {ts : List Token} (h : lexed cs = some ts)
    {t : Token} (hmem : t ∈ ts) (ht : t.isLayout = true) : t = .newline := by
  fun_induction lexed cs generalizing ts with
  | case1 =>
    cases h
    cases hmem
  | case2 => cases h
  | case3 c cs _ ih => exact ih h hmem
  | case4 c cs u hread ih =>
    obtain ⟨ts', hts', rfl⟩ := Option.map_eq_some_iff.mp h
    rcases List.mem_cons.mp hmem with rfl | hmem
    · exact (eq_feed_of_isLayout hread ht).2
    · exact ih hts' hmem

/-- Unless a text is an open comment, it is up to what the first cut leaves whether one is open. -/
theorem leavesComment_cons {c : Char} {cs : List Char} (h : c = '#' → '\n' ∈ cs) :
    leavesComment (c :: cs) = leavesComment (cut c cs).rest := by
  rw [leavesComment]
  by_cases hc : c = '#'
  · simp [h hc]
  · simp [hc]

/-- A text that leaves no comment open leaves none open in its first comment or behind it. -/
theorem of_leavesComment_eq_false {c : Char} {cs : List Char}
    (h : leavesComment (c :: cs) = false) :
    (c = '#' → '\n' ∈ cs) ∧ leavesComment (cut c cs).rest = false := by
  rw [leavesComment, Bool.or_eq_false_iff] at h
  refine ⟨fun hc => ?_, h.2⟩
  simpa [hc] using h.1

/-- The tokens of a text that goes on with a delimiter are those of the two parts. -/
theorem lexed_append {cs rest : List Char} {ts : List Token} (h : lexed cs = some ts)
    (hcomment : leavesComment cs = false) (hrest : Delimited rest) :
    lexed (cs ++ rest) = (lexed rest).map (ts ++ ·) := by
  fun_induction lexed cs generalizing ts with
  | case1 =>
    cases h
    simp
  | case2 => cases h
  | case3 c cs hread ih =>
    obtain ⟨hsharp, hleft⟩ := of_leavesComment_eq_false hcomment
    have hcut := cut_append hrest (by rw [hread]; exact nofun) hsharp
    rw [List.cons_append, lexed_skipped (by rw [hcut]; exact hread), hcut]
    exact ih h hleft
  | case4 c cs t hread ih =>
    obtain ⟨hsharp, hleft⟩ := of_leavesComment_eq_false hcomment
    obtain ⟨ts', hts', rfl⟩ := Option.map_eq_some_iff.mp h
    have hcut := cut_append hrest (by rw [hread]; exact nofun) hsharp
    rw [List.cons_append, lexed_token (by rw [hcut]; exact hread), hcut]
    simp only [Cut.before, ih hts' hleft, Option.map_map]
    rfl

/-- It is up to the delimiter and what follows it whether a text that goes on with them leaves a
comment open. -/
theorem leavesComment_append {cs rest : List Char} {ts : List Token} (h : lexed cs = some ts)
    (hcomment : leavesComment cs = false) (hrest : Delimited rest) :
    leavesComment (cs ++ rest) = leavesComment rest := by
  fun_induction lexed cs generalizing ts with
  | case1 => rfl
  | case2 => cases h
  | case3 c cs hread ih =>
    obtain ⟨hsharp, hleft⟩ := of_leavesComment_eq_false hcomment
    have hcut := cut_append hrest (by rw [hread]; exact nofun) hsharp
    rw [List.cons_append, leavesComment_cons fun hc => List.mem_append_left rest (hsharp hc), hcut]
    exact ih h hleft
  | case4 c cs t hread ih =>
    obtain ⟨hsharp, hleft⟩ := of_leavesComment_eq_false hcomment
    obtain ⟨ts', hts', rfl⟩ := Option.map_eq_some_iff.mp h
    have hcut := cut_append hrest (by rw [hread]; exact nofun) hsharp
    rw [List.cons_append, leavesComment_cons fun hc => List.mem_append_left rest (hsharp hc), hcut]
    exact ih hts' hleft

/-- A text is cut into tokens and leaves no comment open. -/
structure Reads (cs : List Char) (ts : List Token) : Prop where
  lexed : lexed cs = some ts
  closed : leavesComment cs = false

theorem Reads.nil : Reads [] [] := ⟨by rw [Lexeme.lexed], by rw [leavesComment]⟩

/-- A text that goes on with a delimiter is read as its parts are. -/
theorem Reads.append {cs ds : List Char} {ts us : List Token} (h : Reads cs ts) (h' : Reads ds us)
    (hrest : Delimited ds) : Reads (cs ++ ds) (ts ++ us) := by
  constructor
  · rw [lexed_append h.lexed h.closed hrest, h'.lexed]
    rfl
  · rw [leavesComment_append h.lexed h.closed hrest, h'.closed]

/-- A lexeme is read before what follows it. -/
theorem Reads.token {c : Char} {cs taken rest : List Char} {t : Token} {ts : List Token}
    (hcut : cut c cs = ⟨.token t, taken, rest⟩) (h : Reads rest ts) :
    Reads (c :: cs) (t :: ts) := by
  constructor
  · rw [lexed_token (by rw [hcut]), hcut, h.lexed]
    rfl
  · rw [leavesComment_cons, hcut, h.closed]
    rintro rfl
    cases hcut

/-- A blank is not read. -/
theorem Reads.gap {c : Char} {cs : List Char} {ts : List Token} (hc : isGap c = true)
    (h : Reads cs ts) : Reads (c :: cs) ts := by
  have hcut := cut_gap hc cs
  constructor
  · rw [lexed_skipped (by rw [hcut]), hcut, h.lexed]
  · rw [leavesComment_cons, hcut, h.closed]
    rintro rfl
    cases hc

/-- A sign that makes no pair with the next character is read before what follows it. -/
theorem Reads.sign {c : Char} {sign : Symbol} {cs : List Char} {ts : List Token}
    (hcut : cut c cs = cutSymbol c cs) (hsign : Symbol.ofChar? c = some sign)
    (hpair : ∀ d, cs.head? = some d → Symbol.ofPair? c d = none) (h : Reads cs ts) :
    Reads (c :: cs) (.symbol sign :: ts) := by
  rw [cutSymbol_single hsign hpair] at hcut
  exact .token hcut h

/-- The next line feed is behind a text that has none. -/
theorem dropWhile_append_of_no_feed {cs : List Char} (h : '\n' ∉ cs) (rest : List Char) :
    (cs ++ rest).dropWhile (· != '\n') = rest.dropWhile (· != '\n') := by
  refine List.dropWhile_append_of_pos fun c hc => ?_
  simpa using fun heq : c = '\n' => h (heq ▸ hc)

/-- What is read from the next line feed on starts with a newline, if it is not empty. -/
theorem head?_of_lexed_dropWhile {cs : List Char} {ts : List Token}
    (h : lexed (cs.dropWhile (· != '\n')) = some ts) {t : Token} (ht : ts.head? = some t) :
    t = .newline := by
  cases hcs : cs.dropWhile (· != '\n') with
  | nil =>
    rw [hcs, lexed] at h
    cases h
    cases ht
  | cons c rest =>
    have hc : c = '\n' := by
      have hnot := List.head?_dropWhile_not (· != '\n') cs
      rw [hcs] at hnot
      simpa using hnot
    subst hc
    rw [hcs, lexed_token (by rw [cut_feed])] at h
    obtain ⟨us, _, rfl⟩ := Option.map_eq_some_iff.mp h
    cases ht
    rfl

/-- What an open comment is cut into when the text goes on. -/
theorem cut_openComment {cs : List Char} (h : '\n' ∉ cs) (rest : List Char) :
    cut '#' (cs ++ rest) =
      ⟨.skipped, '#' :: (cs ++ rest).takeWhile (· != '\n'), rest.dropWhile (· != '\n')⟩ := by
  rw [← dropWhile_append_of_no_feed h]
  rfl

/-- What follows an open comment is lost up to the next line feed. -/
theorem lexed_append_of_leavesComment {cs : List Char} {ts : List Token} (h : lexed cs = some ts)
    (hcomment : leavesComment cs = true) {rest : List Char} (hrest : Delimited rest) :
    lexed (cs ++ rest) = (lexed (rest.dropWhile (· != '\n'))).map (ts ++ ·) := by
  fun_induction lexed cs generalizing ts with
  | case1 =>
    rw [leavesComment] at hcomment
    cases hcomment
  | case2 => cases h
  | case3 c cs hread ih =>
    by_cases hopen : c = '#' ∧ '\n' ∉ cs
    · obtain ⟨rfl, hfeed⟩ := hopen
      have halone := cut_openComment hfeed []
      rw [List.append_nil] at halone
      rw [halone, List.dropWhile_nil, lexed] at h
      cases h
      rw [List.cons_append, lexed_skipped (by rw [cut_openComment hfeed]),
        cut_openComment hfeed]
      simp
    · have hsharp : c = '#' → '\n' ∈ cs :=
        fun hc => Decidable.not_not.mp fun hfeed => hopen ⟨hc, hfeed⟩
      rw [leavesComment_cons hsharp] at hcomment
      have hcut := cut_append hrest (by rw [hread]; exact nofun) hsharp
      rw [List.cons_append, lexed_skipped (by rw [hcut]; exact hread), hcut]
      exact ih h hcomment
  | case4 c cs t hread ih =>
    obtain ⟨ts', hts', rfl⟩ := Option.map_eq_some_iff.mp h
    have hsharp : c = '#' → '\n' ∈ cs := by
      rintro rfl
      cases hread
    rw [leavesComment_cons hsharp] at hcomment
    have hcut := cut_append hrest (by rw [hread]; exact nofun) hsharp
    rw [List.cons_append, lexed_token (by rw [hcut]; exact hread), hcut]
    simp only [Cut.before, ih hts' hcomment, Option.map_map]
    rfl

/-- Where a line feed stands behind the first character, it stands in what the first cut leaves. -/
theorem exists_rest_of_feed {c : Char} {cs before after : List Char}
    (hread : (cut c cs).reading ≠ .unreadable) (hc : c ≠ '\n')
    (hcs : before ++ '\n' :: after = c :: cs) (hbefore : '\n' ∉ before) :
    ∃ before', (cut c cs).rest = before' ++ '\n' :: after ∧ '\n' ∉ before' := by
  have htaken := feed_not_mem_taken hread hc
  rw [← taken_append_rest hread] at hcs
  rcases List.append_eq_append_iff.mp hcs with ⟨left, htk, hrest⟩ | ⟨left, hb, hrest⟩
  · cases left with
    | nil => exact ⟨[], hrest.symm, List.not_mem_nil⟩
    | cons d left =>
      cases hrest
      exact absurd (by simp [htk]) htaken
  · exact ⟨left, hrest, fun hfeed => hbefore (by simp [hb, hfeed])⟩

/-- Behind a line feed a text is read as it is alone. -/
theorem lexed_behind_feed {before after : List Char} {ts : List Token}
    (h : lexed (before ++ '\n' :: after) = some ts) (hbefore : '\n' ∉ before) :
    ∃ us vs, lexed after = some vs ∧ ts = us ++ .newline :: vs := by
  generalize hcs : before ++ '\n' :: after = cs at h
  fun_induction lexed cs generalizing before ts with
  | case1 => simp at hcs
  | case2 => cases h
  | case3 c cs hread ih =>
    have hc : c ≠ '\n' := by
      rintro rfl
      cases hread
    obtain ⟨before', hrest, hbefore'⟩ :=
      exists_rest_of_feed (by rw [hread]; exact nofun) hc hcs hbefore
    exact ih hbefore' hrest.symm h
  | case4 c cs t hread ih =>
    obtain ⟨ts', hts', rfl⟩ := Option.map_eq_some_iff.mp h
    by_cases hc : c = '\n'
    · subst hc
      cases hread
      cases before with
      | nil =>
        cases hcs
        exact ⟨[], ts', hts', rfl⟩
      | cons d before =>
        cases hcs
        exact absurd (List.mem_cons_self ..) hbefore
    · obtain ⟨before', hrest, hbefore'⟩ :=
        exists_rest_of_feed (by rw [hread]; exact nofun) hc hcs hbefore
      obtain ⟨us, vs, hvs, rfl⟩ := ih hbefore' hrest.symm hts'
      exact ⟨t :: us, vs, hvs, rfl⟩

/-- What the first cut leaves ends like the text, if it leaves anything. -/
theorem getLast?_rest {c : Char} {cs : List Char} (hread : (cut c cs).reading ≠ .unreadable)
    (hrest : (cut c cs).rest ≠ []) : (cut c cs).rest.getLast? = (c :: cs).getLast? := by
  rw [← taken_append_rest hread, List.getLast?_append, List.getLast?_eq_some_getLast hrest,
    Option.some_or]

/-- The last token of a text that ends neither with a blank nor in a comment is at its end, and no
line feed. -/
theorem getLast?_of_lexed {cs : List Char} {ts : List Token} (h : lexed cs = some ts)
    (hcomment : leavesComment cs = false) {last : Char} (hlast : cs.getLast? = some last)
    (hgap : isGap last = false) (hfeed : last ≠ '\n') :
    ∃ t, ts.getLast? = some t ∧ t ≠ .newline := by
  fun_induction lexed cs generalizing ts with
  | case1 => cases hlast
  | case2 => cases h
  | case3 c cs hread ih =>
    obtain ⟨hsharp, hleft⟩ := of_leavesComment_eq_false hcomment
    have hrest : (cut c cs).rest ≠ [] := by
      rcases rest_of_skipped hread with ⟨hc, hrest⟩ | ⟨hc, hrest⟩
      · rw [hrest]
        rintro rfl
        obtain rfl : c = last := Option.some.inj hlast
        rw [hc] at hgap
        cases hgap
      · rw [hrest]
        intro hnil
        have hall := List.dropWhile_eq_nil_iff.mp hnil _ (hsharp hc)
        cases hall
    rw [← getLast?_rest (by rw [hread]; exact nofun) hrest] at hlast
    exact ih h hleft hlast
  | case4 c cs t hread ih =>
    obtain ⟨hsharp, hleft⟩ := of_leavesComment_eq_false hcomment
    obtain ⟨ts', hts', rfl⟩ := Option.map_eq_some_iff.mp h
    by_cases hrest : (cut c cs).rest = []
    · rw [hrest, lexed] at hts'
      cases hts'
      refine ⟨t, rfl, ?_⟩
      rintro rfl
      obtain ⟨rfl, _⟩ := eq_feed_of_isLayout hread rfl
      rw [cut_feed] at hrest
      obtain rfl : cs = [] := hrest
      cases hlast
      exact hfeed rfl
    · rw [← getLast?_rest (by rw [hread]; exact nofun) hrest] at hlast
      obtain ⟨u, hu, hne⟩ := ih hts' hleft hlast
      refine ⟨u, ?_, hne⟩
      rw [List.getLast?_cons, hu]
      rfl

end ScriptShell.Lexeme
