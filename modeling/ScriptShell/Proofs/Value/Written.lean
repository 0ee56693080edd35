import ScriptShell.Command.Execution
import ScriptShell.Proofs.Command.Quoting
import ScriptShell.Proofs.Evaluation.Constant
import ScriptShell.Proofs.Number.Decimal
import ScriptShell.Value.Text

/-!
# Written values

The text of a value that is made of nothing, truth values, integers, strings, lists and dicts is cut
into the tokens of an expression that denotes the value, and so runs to it. The least integer is no
such value, since its digits are no integer without their sign; nor are floating-point numbers,
progressions and functions.
-/

namespace ScriptShell

/-- Nothing, truth values, integers other than the least, strings, and lists and dicts of such
values, in which no key is there twice. -/
inductive Value.IsData : Value → Prop where
  | none : IsData .none
  | bool (b : Bool) : IsData (.bool b)
  | int {n : Int64} (least : n ≠ Int64.minValue) : IsData (.int n)
  | str (s : String) : IsData (.str s)
  | list {items : List Value} (parts : ∀ v ∈ items, IsData v) : IsData (.list items)
  | dict {entries : Entries Value} (keys : entries.keys.Nodup)
      (parts : ∀ entry ∈ entries, IsData entry.2) : IsData (.dict entries)

/-- A text is cut into the tokens of an expression, none of which is taken for a flag. -/
structure Writes (cs : List Char) (e : Expr) (ts : List Token) : Prop where
  reads : Lexeme.Reads cs ts
  derives : ExprRule.or.Derives ts e
  unflagged : Flag.Unflagged false ts

/-- The text of a value is cut into the tokens of an expression that denotes the value. -/
def Value.Written (v : Value) : Prop := ∃ e, (∃ ts, Writes v.shownChars e ts) ∧ e.Denotes v

/-! ### Texts -/

namespace Value

theorem shownChars_int (n : Int64) : (int n).shownChars = Integer.text n.toInt := rfl

theorem shownChars_list (items : List Value) :
    (list items).shownChars = '[' :: itemsChars items ++ [']'] := rfl

theorem shownChars_dict (entries : Entries Value) :
    (dict entries).shownChars = '\x7b' :: entriesChars entries ++ ['\x7d'] := rfl

end Value

/-! ### Literals -/

/-- A literal is written by itself. -/
theorem writes_literal {cs : List Char} {t : Token} {e : Expr} (hreads : Lexeme.Reads cs [t])
    (ht : LiteralToken t e) : Writes cs e [t] :=
  ⟨hreads, .of_postfixed (.ofAtom (.literal ht)), ⟨nofun, trivial⟩⟩

/-- A keyword is read as one. -/
theorem reads_keyword {c : Char} {cs : List Char} (k : Keyword) (htext : c :: cs = k.text.toList)
    (hc : Lexeme.startsName c = true) (hcs : cs.all Lexeme.continuesName = true)
    (hword : Lexeme.wordToken k.text = .keyword k) : Lexeme.Reads k.text.toList [.keyword k] := by
  have hcut := Lexeme.cut_identifier hc hcs
  rw [htext, String.ofList_toList, hword] at hcut
  rw [← htext]
  exact .token hcut .nil

theorem written_none : Value.none.Written :=
  ⟨.none, ⟨_, writes_literal (reads_keyword .nothing rfl rfl rfl rfl) .nothing⟩,
    Expr.denotes_of_eval fun _ _ => rfl⟩

theorem written_bool (b : Bool) : (Value.bool b).Written := by
  cases b with
  | true =>
    exact ⟨.bool true, ⟨_, writes_literal (reads_keyword .yes rfl rfl rfl rfl) .yes⟩,
      Expr.denotes_of_eval fun _ _ => rfl⟩
  | false =>
    exact ⟨.bool false, ⟨_, writes_literal (reads_keyword .no rfl rfl rfl rfl) .no⟩,
      Expr.denotes_of_eval fun _ _ => rfl⟩

/-- The quote that a value is shown with is a quote. -/
theorem preferredQuote_cases (cs : List Char) :
    Text.preferredQuote cs = '"' ∨ Text.preferredQuote cs = '\'' := by
  unfold Text.preferredQuote
  split
  · exact .inl rfl
  · exact .inr rfl

/-- The literal of a string is read as the string, whichever quote it is written with. -/
theorem writes_literalChars (s : String) :
    Writes (Value.literalChars s) (.str s) [.string s] := by
  have hreads := Lexeme.reads_literal (preferredQuote_cases s.toList) s.toList
  rw [String.ofList_toList] at hreads
  exact writes_literal hreads .string

theorem written_str (s : String) : (Value.str s).Written :=
  ⟨.str s, ⟨_, writes_literalChars s⟩, Expr.denotes_of_eval fun _ _ => rfl⟩

/-! ### Integers -/

theorem cut_of_isDigit {c : Char} (h : c.isDigit = true) (cs : List Char) :
    Lexeme.cut c cs = Lexeme.cutNumber (c :: cs) := by
  have hne : ∀ d, d.isDigit = false → c ≠ d := by
    rintro d hd rfl
    rw [h] at hd
    cases hd
  have hgap : ¬Lexeme.isGap c = true := by
    simp [Lexeme.isGap, hne ' ' rfl, hne '\t' rfl, hne '\r' rfl, hne '\x0c' rfl]
  have hquote : ¬(c = '"' ∨ c = '\'') := not_or.mpr ⟨hne _ rfl, hne _ rfl⟩
  rw [Lexeme.cut, if_neg hgap, if_neg (hne _ rfl), if_neg (hne _ rfl), if_neg hquote, if_pos h]

/-- Decimal digits are read as the integer that they are the digits of. -/
theorem reads_naturalDigits {n : Nat} {w : Int64} (hw : Integer.ofInt? n = some w) :
    ∃ c cs, Integer.naturalDigits n = c :: cs ∧ c.isDigit = true ∧
      Lexeme.Reads (c :: cs) [.integer w] := by
  obtain ⟨c, cs, hdigits⟩ := List.exists_cons_of_ne_nil (Integer.naturalDigits_ne_nil n)
  have hall : ∀ d ∈ c :: cs, d.isDigit = true := by
    rw [← hdigits]
    exact fun d => Integer.isDigit_of_mem_naturalDigits
  have hc := hall c (List.mem_cons_self ..)
  have hparse := Integer.parse?_naturalDigits n
  rw [hdigits, hw] at hparse
  have hcut : Lexeme.cut c cs = ⟨.token (.integer w), c :: cs, []⟩ := by
    rw [cut_of_isDigit hc, Lexeme.cutNumber, List.takeWhile_eq_self_iff.mpr hall,
      List.dropWhile_eq_nil_iff.mpr hall]
    simp only [Lexeme.cutNumber.cutInteger, hparse]
  exact ⟨c, cs, hdigits, hc, .token hcut .nil⟩

/-- An integer that is not negative is written by its digits. -/
theorem written_of_nonneg {n : Int64} (h : 0 ≤ n.toInt) :
    (Value.int n).Written := by
  have hword : Integer.ofInt? (n.toInt.natAbs : Int) = some n := by
    rw [Int.natAbs_of_nonneg h]
    exact Integer.ofInt?_eq_some_iff.mpr rfl
  obtain ⟨c, cs, hdigits, -, hreads⟩ := reads_naturalDigits hword
  have htext : (Value.int n).shownChars = c :: cs := by
    rw [Value.shownChars_int, Integer.text, if_neg (Int.not_lt.mpr h), hdigits]
  unfold Value.Written
  rw [htext]
  exact ⟨.int n, ⟨_, writes_literal hreads .integer⟩, Expr.denotes_of_eval fun _ _ => rfl⟩

/-- A negative integer is written as the negative of its digits, unless it is the least. -/
theorem written_of_neg {n : Int64} (h : n.toInt < 0) (least : n ≠ Int64.minValue) :
    (Value.int n).Written := by
  have hlow := Int64.le_toInt n
  have hhigh := Int64.toInt_lt n
  have hleast : n.toInt ≠ -2 ^ 63 := fun heq => least (Int64.toInt_inj.mp heq)
  obtain ⟨w, hw⟩ : ∃ w, Integer.ofInt? (n.toInt.natAbs : Int) = some w := by
    rw [← Option.ne_none_iff_exists', Ne, Integer.ofInt?_eq_none_iff, not_not, Integer.bound]
    omega
  obtain ⟨c, cs, hdigits, hc, hreads⟩ := reads_naturalDigits hw
  have htext : (Value.int n).shownChars = '-' :: c :: cs := by
    rw [Value.shownChars_int, Integer.text, if_pos h, hdigits]
  have hminus : Lexeme.Reads ('-' :: c :: cs) [.symbol .minus, .integer w] := by
    refine .sign rfl rfl (fun d hd => ?_) hreads
    obtain rfl : c = d := Option.some.inj hd
    unfold Symbol.ofPair?
    split
    all_goals first
      | rfl
      | cases hc
  have hneg : (Value.int w).negate = .ok (.int n) := by
    have hback : Integer.neg? w = some n := by
      rw [Integer.neg?, Integer.ofInt?_eq_some_iff, Integer.ofInt?_eq_some_iff.mp hw]
      omega
    simp only [Value.negate, Value.asInt?, hback, exactly?]
  have hdenotes : (Expr.int w).Denotes (.int w) := Expr.denotes_of_eval fun _ _ => rfl
  have hderives : ExprRule.or.Derives [.symbol .minus, .integer w] (.neg (.int w)) :=
    .ofAnd (.ofNot (.ofComparison (.ofSum (.ofTerm (.ofUnary
      (.minus (.ofPower (.ofPostfixed (.ofAtom (.literal .integer))))))))))
  unfold Value.Written
  rw [htext]
  exact ⟨.neg (.int w), ⟨_, hminus, hderives, nofun, nofun, trivial⟩,
    hdenotes.neg hneg⟩

/-- An integer reads as itself, except for the least, whose digits alone are out of range. -/
theorem written_int {n : Int64} (least : n ≠ Int64.minValue) :
    (Value.int n).Written := by
  by_cases h : n.toInt < 0
  · exact written_of_neg h least
  · exact written_of_nonneg (Int.not_lt.mp h)

/-! ### Lists -/

/-- A comma and a blank are one token. -/
theorem reads_comma {cs : List Char} {ts : List Token} (h : Lexeme.Reads cs ts) :
    Lexeme.Reads (',' :: ' ' :: cs) (.symbol .comma :: ts) :=
  .sign rfl rfl (fun _ _ => rfl) (.gap rfl h)

/-- A colon and a blank are one token. -/
theorem reads_colon {cs : List Char} {ts : List Token} (h : Lexeme.Reads cs ts) :
    Lexeme.Reads (':' :: ' ' :: cs) (.symbol .colon :: ts) :=
  .sign rfl rfl (fun _ _ => rfl) (.gap rfl h)

/-- Behind an item stands a comma, if anything does. -/
theorem delimited_itemsCharsAfter (vs : List Value) :
    Lexeme.Delimited (Value.itemsCharsAfter vs) := by
  cases vs with
  | nil => exact nofun
  | cons v vs => exact Lexeme.delimited_cons rfl _

/-- The text behind an item is read as further items. -/
theorem exists_items {vs : List Value} (h : ∀ v ∈ vs, v.Written) :
    ∃ us es, Lexeme.Reads (Value.itemsCharsAfter vs) us ∧ Flag.Unflagged true us ∧
      (∀ ts e, ExprRule.or.Derives ts e → ExprRule.items.Derives (ts ++ us) (e :: es)) ∧
      List.Forall₂ Expr.Denotes es vs := by
  induction vs with
  | nil =>
    refine ⟨[], [], .nil, trivial, fun ts e hd => ?_, .nil⟩
    rw [List.append_nil]
    exact .lastItem hd
  | cons v vs ih =>
    obtain ⟨⟨e, ⟨ts, hw⟩, hv⟩, hvs⟩ := List.forall_mem_cons.mp h
    obtain ⟨us, es, hreads, hflags, hderives, hes⟩ := ih hvs
    refine ⟨.symbol .comma :: (ts ++ us), e :: es, ?_, ?_, ?_, .cons hv hes⟩
    · exact reads_comma (hw.reads.append hreads (delimited_itemsCharsAfter vs))
    · exact ⟨fun _ => nofun, hw.unflagged.append_behindOperand hflags⟩
    · intro ts' e' hd
      exact .moreItems hd (hderives ts e hw.derives)

/-- Tokens between square brackets are read as a list of what the text between them is read as. -/
theorem writes_list {cs : List Char} {ts : List Token} {es : List Expr}
    (hreads : Lexeme.Reads cs ts) (hderives : ExprRule.items.Derives ts es)
    (hflags : Flag.Unflagged false ts) :
    Writes ('[' :: cs ++ [']']) (.list es)
      (.symbol .openBracket :: ts ++ [.symbol .closeBracket]) := by
  refine ⟨?_, .of_postfixed (.ofAtom (.list hderives)), nofun, hflags.append nofun trivial⟩
  have hclose : Lexeme.Reads [']'] [.symbol .closeBracket] := .token rfl .nil
  have hboth := hreads.append hclose (Lexeme.delimited_cons rfl [])
  exact .sign rfl rfl (fun _ _ => rfl) hboth

/-- A list reads as itself if its items do. -/
theorem written_list {items : List Value} (h : ∀ v ∈ items, v.Written) :
    (Value.list items).Written := by
  unfold Value.Written
  rw [Value.shownChars_list]
  cases items with
  | nil => exact ⟨_, ⟨_, writes_list .nil .noItems trivial⟩, Expr.denotes_list .nil⟩
  | cons v vs =>
    obtain ⟨⟨e, ⟨ts, hw⟩, hv⟩, hvs⟩ := List.forall_mem_cons.mp h
    obtain ⟨us, es, hreads, hflags, hderives, hes⟩ := exists_items hvs
    rw [Value.itemsChars]
    have hboth := hw.reads.append hreads (delimited_itemsCharsAfter vs)
    exact ⟨_, ⟨_, writes_list hboth (hderives ts e hw.derives)
      (hw.unflagged.append_behindOperand hflags)⟩, Expr.denotes_list (.cons hv hes)⟩

/-! ### Dicts -/

/-- Behind an entry stands a comma, if anything does. -/
theorem delimited_entriesCharsAfter (es : Entries Value) :
    Lexeme.Delimited (Value.entriesCharsAfter es) := by
  cases es with
  | nil => exact nofun
  | cons e es => exact Lexeme.delimited_cons rfl _

/-- A key and an item with a colon between them are read as the two. -/
theorem reads_entry (key : String) {cs : List Char} {e : Expr} {ts : List Token}
    (h : Writes cs e ts) {rest : List Char} {us : List Token} (hrest : Lexeme.Reads rest us)
    (hdelimited : Lexeme.Delimited rest) (hflags : Flag.Unflagged true us) :
    Lexeme.Reads (Value.literalChars key ++ ':' :: ' ' :: cs ++ rest)
        (.string key :: .symbol .colon :: ts ++ us) ∧
      Flag.Unflagged false (.string key :: .symbol .colon :: ts ++ us) := by
  have hitem := reads_colon (h.reads.append hrest hdelimited)
  have hboth := (writes_literalChars key).reads.append hitem (Lexeme.delimited_cons rfl _)
  refine ⟨?_, nofun, fun _ => nofun, h.unflagged.append_behindOperand hflags⟩
  rw [List.append_assoc]
  exact hboth

/-- The text behind an entry is read as further entries. -/
theorem exists_entries {entries : Entries Value}
    (h : ∀ entry ∈ entries, entry.2.Written) :
    ∃ us pairs, Lexeme.Reads (Value.entriesCharsAfter entries) us ∧ Flag.Unflagged true us ∧
      (∀ ts vs k e, ExprRule.or.Derives ts k → ExprRule.or.Derives vs e →
        ExprRule.pairs.Derives (ts ++ .symbol .colon :: vs ++ us) ((k, e) :: pairs)) ∧
      List.Forall₂ Expr.DenotesEntry pairs entries := by
  induction entries with
  | nil =>
    refine ⟨[], [], .nil, trivial, fun ts vs k e hk he => ?_, .nil⟩
    rw [List.append_nil]
    exact .lastPair hk he
  | cons entry entries ih =>
    obtain ⟨key, v⟩ := entry
    obtain ⟨⟨e, ⟨ts, hw⟩, hv⟩, hentries⟩ := List.forall_mem_cons.mp h
    obtain ⟨us, pairs, hreads, hflags, hderives, hpairs⟩ := ih hentries
    obtain ⟨hentry, hunflagged⟩ :=
      reads_entry key hw hreads (delimited_entriesCharsAfter entries) hflags
    refine ⟨.symbol .comma :: (.string key :: .symbol .colon :: ts ++ us), (.str key, e) :: pairs,
      ?_, ⟨fun _ => nofun, hunflagged⟩, ?_, .cons ⟨rfl, hv⟩ hpairs⟩
    · rw [Value.entriesCharsAfter]
      exact reads_comma hentry
    · intro ts' vs' k' e' hk' he'
      have hkey : ExprRule.or.Derives [.string key] (.str key) :=
        .of_postfixed (.ofAtom (.literal .string))
      exact .morePairs hk' he' (hderives _ ts _ e hkey hw.derives)

/-- Tokens between braces are read as a dict of what the text between them is read as. -/
theorem writes_dict {cs : List Char} {ts : List Token} {pairs : List (Expr × Expr)}
    (hreads : Lexeme.Reads cs ts) (hderives : ExprRule.pairs.Derives ts pairs)
    (hflags : Flag.Unflagged false ts) :
    Writes ('\x7b' :: cs ++ ['\x7d']) (.dict pairs)
      (.symbol .openBrace :: ts ++ [.symbol .closeBrace]) := by
  refine ⟨?_, .of_postfixed (.ofAtom (.dict hderives)), nofun, hflags.append nofun trivial⟩
  have hclose : Lexeme.Reads ['\x7d'] [.symbol .closeBrace] := .token rfl .nil
  have hboth := hreads.append hclose (Lexeme.delimited_cons rfl [])
  exact .sign rfl rfl (fun _ _ => rfl) hboth

/-- A dict with distinct keys reads as itself if its values do. -/
theorem written_dict {entries : Entries Value} (hkeys : entries.keys.Nodup)
    (h : ∀ entry ∈ entries, entry.2.Written) :
    (Value.dict entries).Written := by
  unfold Value.Written
  rw [Value.shownChars_dict]
  cases entries with
  | nil => exact ⟨_, ⟨_, writes_dict .nil .noPairs trivial⟩, Expr.denotes_dict .nil hkeys⟩
  | cons entry entries =>
    obtain ⟨key, v⟩ := entry
    obtain ⟨⟨e, ⟨ts, hw⟩, hv⟩, hentries⟩ := List.forall_mem_cons.mp h
    obtain ⟨us, pairs, hreads, hflags, hderives, hpairs⟩ := exists_entries hentries
    obtain ⟨hentry, hunflagged⟩ :=
      reads_entry key hw hreads (delimited_entriesCharsAfter entries) hflags
    have hkey : ExprRule.or.Derives [.string key] (.str key) :=
      .of_postfixed (.ofAtom (.literal .string))
    rw [Value.entriesChars]
    have hdenotes : Expr.DenotesEntry (.str key, e) (key, v) := ⟨rfl, hv⟩
    exact ⟨_, ⟨_, writes_dict hentry (hderives _ ts _ e hkey hw.derives) hunflagged⟩,
      Expr.denotes_dict (.cons hdenotes hpairs) hkeys⟩

/-- Every value of data is written for an expression that denotes it. -/
theorem Value.IsData.written {v : Value} (h : v.IsData) : v.Written := by
  induction h with
  | none => exact written_none
  | bool b => exact written_bool b
  | int least => exact written_int least
  | str s => exact written_str s
  | list _ ih => exact written_list ih
  | dict keys _ ih => exact written_dict keys ih

/-! ### Reading back -/

/-- Tokens of which none stands for line structure are one line. -/
theorem oneLine_of_content {depth : Nat} {ts : List Token} (h : ∀ t ∈ ts, t.isLayout = false) :
    OneLine depth ts := by
  induction ts generalizing depth with
  | nil => trivial
  | cons t ts ih =>
    obtain ⟨ht, hts⟩ := List.forall_mem_cons.mp h
    refine ⟨fun hlayout => ?_, ih hts⟩
    rw [ht] at hlayout
    cases hlayout

/-- A text that is written for an expression is read as that expression. -/
theorem Writes.parseExpression_eq {cs : List Char} {e : Expr} {ts : List Token}
    (h : Writes cs e ts) : parseExpression (String.ofList cs) = .ok e := by
  obtain ⟨t, us, rfl, -⟩ := h.derives.startsExpr
  have hlayout : ∀ u ∈ t :: us, u.isLayout = false :=
    fun u hu => Token.isLayout_of_standsInExpr (h.derives.standsInExpr u hu)
  obtain ⟨ht, hus⟩ := List.forall_mem_cons.mp hlayout
  have hlexed : Lexeme.lexed (String.ofList cs).toList =
      some (List.replicate 0 .newline ++ t :: us) := by
    rw [String.toList_ofList]
    exact h.reads.lexed
  refine parseExpression_of_oneLine hlexed ht (oneLine_of_content hus) h.unflagged.2 ?_
  rw [Token.content_eq_self hus]
  exact h.derives

/-- The text of a value of data runs to that value in every state, and changes nothing. -/
theorem runNative_shown {v : Value} (h : v.IsData) :
    ∃ enough, ∀ fuel, enough ≤ fuel → ∀ s, runNative fuel v.shown s = some (.value v, s) := by
  obtain ⟨e, ⟨ts, hwrites⟩, enough, heval⟩ := h.written
  refine ⟨enough, fun fuel hfuel s => ?_⟩
  have hparse : parseExpression v.shown = .ok e := hwrites.parseExpression_eq
  rw [runNative, hparse]
  dsimp only
  rw [heval fuel hfuel s]
  rfl

/-- A dict with a list in it and with both quotes in a key is read back. -/
theorem runNative_shown_quotes :
    (Value.dict [("it's \"so\"", .list [.int (-1), .none])]).IsData ∧
      ∃ enough, ∀ fuel, enough ≤ fuel → ∀ s,
        runNative fuel (Value.dict [("it's \"so\"", .list [.int (-1), .none])]).shown s =
          some (.value (.dict [("it's \"so\"", .list [.int (-1), .none])]), s) := by
  have hdata : (Value.dict [("it's \"so\"", .list [.int (-1), .none])]).IsData := by
    refine .dict (by decide) fun entry hentry => ?_
    rw [List.mem_singleton.mp hentry]
    refine .list fun v hv => ?_
    rcases List.mem_cons.mp hv with rfl | hv
    · exact .int (by decide)
    · rw [List.mem_singleton.mp hv]
      exact .none
  exact ⟨hdata, runNative_shown hdata⟩

end ScriptShell
