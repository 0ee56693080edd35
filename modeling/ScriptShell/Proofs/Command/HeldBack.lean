import ScriptShell.Command.Continuation
import ScriptShell.Proofs.Command.NativeRun
import ScriptShell.Proofs.Command.Quoting
import ScriptShell.Proofs.Token.Tiling

/-!
# Complete lines that are held back

A line that leaves a bracket or quote open is held back until more lines follow it. What is open is
told from single characters, so a line that is a script can be held back too. It is then never a
bracket of the script that is left open, nor a quote that starts a literal: it is a character inside
a literal, the quote at the end of one, or a character in a comment.
-/

namespace ScriptShell

namespace Continuation

/-- A character between two texts is met with nothing open, and opens a bracket or quote that is not
closed behind it. -/
def LeavesOpen (before : List Char) (c : Char) (after : List Char) : Prop :=
  stillAwaited none before = none ∧ ∃ a, closer? c = some a ∧ a ∉ after

/-- The character behind a text stands in a string literal, behind its opening quote, or in a comment
behind all lexemes. -/
inductive IsHidden (lexemes : List Lexeme) (before : List Char) : Prop
  | literal {l : Lexeme} {text : String} : l ∈ lexemes → l.token = .string text →
      l.start < Text.utf8Length before → Text.utf8Length before < l.stop → IsHidden lexemes before
  | comment {front comment : List Char} : before = front ++ '#' :: comment →
      (∀ l ∈ lexemes, l.stop ≤ Text.utf8Length front) → IsHidden lexemes before

variable {c a : Char} {cs before after : List Char}

/-! ### What is left open -/

theorem stillAwaited_append (awaited : Option Char) (cs ds : List Char) :
    stillAwaited awaited (cs ++ ds) = stillAwaited (stillAwaited awaited cs) ds := by
  induction cs generalizing awaited with
  | nil => rfl
  | cons c cs ih => cases awaited <;> exact ih _

/-- What is open stays open where the character that closes it is missing. -/
theorem stillAwaited_of_not_mem (h : a ∉ cs) : stillAwaited (some a) cs = some a := by
  induction cs with
  | nil => rfl
  | cons c cs ih =>
    simp only [List.mem_cons, not_or] at h
    simp [stillAwaited, Ne.symm h.1, ih h.2]

/-- What is open behind a text was open before it, or was opened in it, and is not closed since. -/
theorem exists_of_stillAwaited {awaited : Option Char} (h : stillAwaited awaited cs = some a) :
    (awaited = some a ∧ a ∉ cs) ∨ ∃ before c after, cs = before ++ c :: after ∧
      stillAwaited awaited before = none ∧ closer? c = some a ∧ a ∉ after := by
  induction cs generalizing awaited with
  | nil => exact .inl ⟨h, List.not_mem_nil⟩
  | cons d cs ih =>
    cases awaited with
    | none =>
      rcases ih h with ⟨hopens, hmem⟩ | ⟨before, c, after, rfl, hbefore, hc⟩
      · exact .inr ⟨[], d, cs, rfl, rfl, hopens, hmem⟩
      · exact .inr ⟨d :: before, c, after, rfl, hbefore, hc⟩
    | some b =>
      rcases ih h with ⟨hstays, hmem⟩ | ⟨before, c, after, rfl, hbefore, hc⟩
      · have hd : d ≠ b := by
          rintro rfl
          simp at hstays
        obtain rfl : b = a := by simpa [hd] using hstays
        exact .inl ⟨rfl, by simp [hmem, Ne.symm hd]⟩
      · exact .inr ⟨d :: before, c, after, rfl, hbefore, hc⟩

/-- A line leaves something open exactly if one of its characters does. -/
theorem isUncompleted_iff (line : String) :
    isUncompleted line = true ↔
      ∃ before c after, line.toList = before ++ c :: after ∧ LeavesOpen before c after := by
  unfold isUncompleted
  constructor
  · intro h
    obtain ⟨a, ha⟩ := Option.isSome_iff_exists.mp h
    rcases exists_of_stillAwaited ha with ⟨hnone, _⟩ | ⟨before, c, after, hline, hbefore, hc⟩
    · cases hnone
    · exact ⟨before, c, after, hline, hbefore, a, hc⟩
  · rintro ⟨before, c, after, hline, hbefore, a, hc, ha⟩
    rw [hline, stillAwaited_append, hbefore, stillAwaited, hc, stillAwaited_of_not_mem ha]
    rfl

/-! ### Characters that open something -/

/-- The characters that open something are the three brackets and the two quotes. -/
theorem opener_cases (h : closer? c = some a) :
    (c = '(' ∧ a = ')') ∨ (c = '[' ∧ a = ']') ∨ (c = '\x7b' ∧ a = '\x7d') ∨
      (c = '"' ∧ a = '"') ∨ (c = '\'' ∧ a = '\'') := by
  unfold closer? at h
  split at h <;> cases h <;> simp

/-- A character that opens something is no blank and no number sign, and stands in no number and no
identifier. -/
theorem opener_stands_alone (h : closer? c = some a) :
    Lexeme.isGap c = false ∧ c ≠ '#' ∧ c ≠ '.' ∧ c.isDigit = false ∧
      Lexeme.continuesName c = false := by
  rcases opener_cases h with ⟨rfl, _⟩ | ⟨rfl, _⟩ | ⟨rfl, _⟩ | ⟨rfl, _⟩ | ⟨rfl, _⟩ <;> decide

/-- No keyword has a character that opens something. -/
theorem closer?_of_mem_keyword (word : Keyword) {c : Char} (hc : c ∈ word.text.toList) :
    closer? c = none := by
  have hall : (word.text.toList.all fun c => (closer? c).isNone) = true := by cases word <;> decide
  exact Option.isNone_iff_eq_none.mp (List.all_eq_true.mp hall c hc)

/-- A symbol with a character that opens something is a bracket. -/
theorem exists_pair_of_mem_symbol (sign : Symbol) {c : Char} (hc : c ∈ sign.text.toList) :
    closer? c = none ∨ ∃ cl, (sign, cl) ∈ bracketPairs ∧ (closer? c).toList = cl.text.toList := by
  have hall : (sign.text.toList.all fun c => (closer? c).isNone) = true ∨
      ∃ cl d, (sign, cl) ∈ bracketPairs ∧ sign.text.toList = [d] ∧
        (closer? d).toList = cl.text.toList := by
    cases sign with
    | openParen => exact .inr ⟨.closeParen, '(', by decide, rfl, rfl⟩
    | openBracket => exact .inr ⟨.closeBracket, '[', by decide, rfl, rfl⟩
    | openBrace => exact .inr ⟨.closeBrace, '\x7b', by decide, rfl, rfl⟩
    | _ => exact .inl (by decide)
  rcases hall with hnone | ⟨cl, d, hpair, htext, hcloser⟩
  · exact .inl (Option.isNone_iff_eq_none.mp (List.all_eq_true.mp hnone c hc))
  · rw [htext] at hc
    obtain rfl := List.mem_singleton.mp hc
    exact .inr ⟨cl, hpair, hcloser⟩

/-- A token with a character that opens something is a bracket of that character, or a string. -/
theorem exists_pair_of_spelledBy {t : Token} {text : List Char} (h : t.SpelledBy text)
    (hc : closer? c = some a) (hmem : c ∈ text) :
    (∃ value, t = .string value) ∨
      ∃ o cl, (o, cl) ∈ bracketPairs ∧ t = .symbol o ∧ cl.text.toList = [a] := by
  obtain ⟨_, _, hpoint, hdigit, hname⟩ := opener_stands_alone hc
  have hno {ds : List Char} (hds : IsDigits ds) : c ∉ ds := fun hin => by
    have hin := hds.isDigit c hin
    rw [hdigit] at hin
    cases hin
  cases h with
  | keyword word =>
    rw [closer?_of_mem_keyword word hmem] at hc
    cases hc
  | symbol sign =>
    rcases exists_pair_of_mem_symbol sign hmem with hnone | ⟨cl, hpair, hclosing⟩
    · rw [hnone] at hc
      cases hc
    · rw [hc] at hclosing
      exact .inr ⟨sign, cl, hpair, rfl, hclosing.symm⟩
  | float hwhole hfraction =>
    simp only [List.mem_append, List.mem_cons] at hmem
    rcases hmem with hin | hin | hin
    · exact absurd hin (hno hwhole)
    · exact absurd hin hpoint
    · exact absurd hin (hno hfraction)
  | integer hdigits => exact absurd hmem (hno hdigits)
  | string => exact .inl ⟨_, rfl⟩
  | @identifier d ds hstart hds =>
    have hall : ∀ e ∈ d :: ds, Lexeme.continuesName e = true :=
      List.forall_mem_cons.mpr ⟨Lexeme.continuesName_of_startsName hstart, hds⟩
    rw [hall c hmem] at hname
    cases hname
  | newline =>
    obtain rfl : c = '\n' := by simpa using hmem
    cases hc

/-- The quote that starts a literal is closed in the literal. -/
theorem mem_of_starts_string {value : String} {behind : List Char}
    (h : (Token.string value).SpelledBy (c :: behind)) (hc : closer? c = some a) : a ∈ behind := by
  cases h with
  | string hquote =>
    rcases hquote with rfl | rfl <;>
    · cases hc
      simp

/-! ### Lines that are scripts -/

/-- In a script each bracket among the lexemes is closed by a later one. -/
theorem closesAll_of_compiles {source : String} (h : compiles source = true) :
    ∃ ls, Lexeme.scan source.toList = .ok ls ∧ ClosesAll (ls.map Lexeme.token) := by
  cases hparse : parse source with
  | error e =>
    rw [(compiles_eq_false_iff source).mpr ⟨e, hparse⟩] at h
    cases h
  | ok script =>
    obtain ⟨ts, hts, hread⟩ := (readSource_eq_ok_iff _ _ _).mp hparse
    have hderives := (script_iff_derives _ _).mp hread
    obtain ⟨ls, hlexed, hrun⟩ := exists_run_of_tokenize hts fun t ht =>
      hderives.isNoFlag _ (List.mem_map_of_mem ht)
    obtain ⟨ls', hscan, htokens⟩ := Lexeme.exists_scanFrom_of_lexed hlexed none 0
    have hcloses := hderives.balanced.content.closesAll
    rw [Layout.content_of_run hrun] at hcloses
    exact ⟨ls', hscan, htokens ▸ hcloses.of_content⟩

/-- Where all brackets are closed, a character of the line that leaves something open is hidden. -/
theorem isHidden_of_leavesOpen {ls : List Lexeme} (hscan : Lexeme.scan cs = .ok ls)
    (hcloses : ClosesAll (ls.map Lexeme.token)) (hline : '\n' ∉ cs)
    (hcs : cs = before ++ c :: after) (hopen : LeavesOpen before c after) : IsHidden ls before := by
  obtain ⟨_, a, hc, ha⟩ := hopen
  obtain ⟨hgap, hsharp, _⟩ := opener_stands_alone hc
  have htiles : Lexeme.Tiles Token.SpelledBy 0 cs ls := .of_scanFrom hscan
  rcases htiles.exists_place hline hcs hgap hsharp with
    ⟨us, l, vs, x, y, back, rfl, htext, rfl, hspelled, hplace, hback⟩ | ⟨front, comment, rfl, hls⟩
  · rw [Nat.zero_add] at hplace
    rcases exists_pair_of_spelledBy hspelled hc (by simp [htext]) with
      ⟨value, hvalue⟩ | ⟨o, cl, hpair, hsign, hclosing⟩
    · refine .literal (l := l) (by simp) hvalue ?_ ?_
      · -- the opening quote opens what the quote at the end closes
        have hx : x ≠ [] := by
          rintro rfl
          rw [hvalue, htext] at hspelled
          exact ha (List.mem_append_left back (mem_of_starts_string hspelled hc))
        have hpos := Text.utf8Length_pos hx
        omega
      · have hsize := c.utf8Size_pos
        rw [Lexeme.stop, htext, hplace]
        simp
        omega
    · -- a bracket is closed by a lexeme further on
      rw [List.map_append, List.map_cons, hsign] at hcloses
      obtain ⟨m, hm, hmtoken⟩ := List.mem_map.mp (hcloses.mem hpair)
      have hmtext : m.text = [a] := by
        have hmspelled := hback.of_mem m hm
        rw [hmtoken] at hmspelled
        rw [hmspelled.eq_text, hclosing]
      have hmem : a ∈ back := hback.text_subset m hm (by simp [hmtext])
      exact absurd (List.mem_append_right y hmem) ha
  · rw [Nat.zero_add] at *
    exact .comment rfl (by simpa using hls)

/-- A line that is a script and does not end with a colon is held back exactly if one of its
characters is met with nothing open, opens a bracket or quote that is not closed behind it, and is
hidden: it stands in a string literal behind the opening quote, or in a comment. A line that is not
held back is the whole command, whatever lines follow. -/
theorem isNeeded_iff_of_compiles {line : String} (hcompiles : compiles line = true)
    (hfeed : '\n' ∉ line.toList) (hcolon : line.toList.getLast? ≠ some ':') :
    ∃ lexemes, Lexeme.scan line.toList = .ok lexemes ∧
      (isNeeded line = true ↔ ∃ before c after, line.toList = before ++ c :: after ∧
        LeavesOpen before c after ∧ IsHidden lexemes before) ∧
      (isNeeded line = false → ∀ lines, readCommand line lines = some (line, 0, lines)) := by
  obtain ⟨ls, hscan, hcloses⟩ := closesAll_of_compiles hcompiles
  have hneeded : isNeeded line = true ↔ isUncompleted line = true := by
    have hempty : isUncompleted line = true → line ≠ "" := by
      rintro h rfl
      cases h
    simpa [isNeeded, hcolon] using hempty
  refine ⟨ls, hscan, ?_, fun hnot lines => by simp [readCommand, hnot]⟩
  rw [hneeded, isUncompleted_iff]
  constructor
  · rintro ⟨before, c, after, hline, hopen⟩
    exact ⟨before, c, after, hline, hopen, isHidden_of_leavesOpen hscan hcloses hfeed hline hopen⟩
  · rintro ⟨before, c, after, hline, hopen, _⟩
    exact ⟨before, c, after, hline, hopen⟩

theorem isNeeded_iff_of_compiles_literal :
    compiles "'('" = true ∧ '\n' ∉ "'('".toList ∧ "'('".toList.getLast? ≠ some ':' ∧
      ∃ lexemes, Lexeme.scan "'('".toList = .ok lexemes ∧
        (¬∃ before c after, "'('".toList = before ++ c :: after ∧
          LeavesOpen before c after ∧ IsHidden lexemes before) ∧
        ∀ lines, readCommand "'('" lines = some ("'('", 0, lines) := by
  have hlexed : Lexeme.lexed "'('".toList = some (List.replicate 0 .newline ++ [.string "("]) :=
    (Lexeme.reads_literal (.inr rfl) ['(']).lexed
  have hread : parseExpression "'('" = .ok (.str "(") :=
    parseExpression_of_oneLine hlexed rfl trivial trivial
      (.of_postfixed (.ofAtom (.literal .string)))
  have hcompiles := compiles_of_parseExpression hread
  have hfeed : '\n' ∉ "'('".toList := by decide
  have hcolon : "'('".toList.getLast? ≠ some ':' := by decide
  have hnot : isNeeded "'('" = false := by decide
  obtain ⟨lexemes, hscan, hiff, hwhole⟩ := isNeeded_iff_of_compiles hcompiles hfeed hcolon
  refine ⟨hcompiles, hfeed, hcolon, lexemes, hscan, ?_, hwhole hnot⟩
  rw [← hiff, hnot]
  exact Bool.false_ne_true

/-- A bracket in a literal closes the bracket before the literal, so that the quote at the end of the
literal is left open and a complete call is held back. -/
theorem isNeeded_call_with_bracket :
    compiles "print(\")\")" = true ∧ '\n' ∉ "print(\")\")".toList ∧
      "print(\")\")".toList.getLast? ≠ some ':' ∧ isNeeded "print(\")\")" = true ∧
        readCommand "print(\")\")" [] = none := by
  have hname : Lexeme.cut 'p' ['r', 'i', 'n', 't', '(', '"', ')', '"', ')'] =
      ⟨.token (.identifier "print"), ['p', 'r', 'i', 'n', 't'], ['(', '"', ')', '"', ')']⟩ := rfl
  have hopen : Lexeme.cut '(' ['"', ')', '"', ')'] =
      ⟨.token (.symbol .openParen), ['('], ['"', ')', '"', ')']⟩ := rfl
  have hliteral : Lexeme.cut '"' [')', '"', ')'] =
      ⟨.token (.string ")"), ['"', ')', '"'], [')']⟩ := Lexeme.cut_literal (.inl rfl) [')'] [')']
  have hclose : Lexeme.cut ')' [] = ⟨.token (.symbol .closeParen), [')'], []⟩ := rfl
  have hlexed : Lexeme.lexed "print(\")\")".toList = some (List.replicate 0 .newline ++
      [.identifier "print", .symbol .openParen, .string ")", .symbol .closeParen]) :=
    (Lexeme.Reads.token hname (.token hopen (.token hliteral (.token hclose .nil)))).lexed
  have hargument : ExprRule.or.Derives [.string ")"] (.str ")") :=
    .of_postfixed (.ofAtom (.literal .string))
  have hderives : ExprRule.or.Derives
      [.identifier "print", .symbol .openParen, .string ")", .symbol .closeParen]
      (.call (.name "print") [.str ")"]) :=
    .of_postfixed (.call (.ofAtom .name) (.lastItem hargument))
  have hread : parseExpression "print(\")\")" = .ok (.call (.name "print") [.str ")"]) :=
    parseExpression_of_oneLine hlexed rfl (by simp [OneLine, Token.isLayout])
      (by simp [Flag.Unflagged]) hderives
  exact ⟨compiles_of_parseExpression hread, by decide, by decide, by decide, by decide⟩

end Continuation

end ScriptShell
