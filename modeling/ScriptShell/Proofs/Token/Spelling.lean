import Mathlib.Data.List.Forall2
import ScriptShell.Proofs.Token.Cutting

/-!
# What the text of a token denotes

A keyword and a symbol are spelled in one way, a number by its digits, a string by a literal whose
inside it is after unescaping, and an identifier by itself. A flag is denoted by its own text, which
is a minus sign and then minus signs, words and integers without gaps. Whatever is cut off a source
as a token is spelled like this.
-/

namespace ScriptShell

/-- One or more decimal digits. -/
structure IsDigits (cs : List Char) : Prop where
  ne_nil : cs ≠ []
  isDigit : ∀ c ∈ cs, c.isDigit = true

/-- The inside of a string literal: the quote stands in it behind a backslash only, a line feed not
at all, and behind a backslash stands another character. -/
inductive IsLiteralBody (quote : Char) : List Char → Prop
  | nil : IsLiteralBody quote []
  | plain {c : Char} {cs : List Char} : c ≠ quote → c ≠ '\\' → c ≠ '\n' →
      IsLiteralBody quote cs → IsLiteralBody quote (c :: cs)
  | escape {c : Char} {cs : List Char} : c ≠ '\n' → IsLiteralBody quote cs →
      IsLiteralBody quote ('\\' :: c :: cs)

namespace Token

/-- A text spells a token that is no flag and opens or closes no block. -/
inductive SpelledBy : Token → List Char → Prop
  | keyword (word : Keyword) : SpelledBy (.keyword word) word.text.toList
  | symbol (sign : Symbol) : SpelledBy (.symbol sign) sign.text.toList
  | float {x : Float} {whole fraction : List Char} : IsDigits whole → IsDigits fraction →
      FloatText.parse? (whole ++ '.' :: fraction) = some x →
      SpelledBy (.float x) (whole ++ '.' :: fraction)
  | integer {n : Int64} {digits : List Char} : IsDigits digits → Integer.parse? digits = some n →
      SpelledBy (.integer n) digits
  | string {quote : Char} {body : List Char} : quote = '"' ∨ quote = '\'' →
      IsLiteralBody quote body →
      SpelledBy (.string (String.ofList (Text.unescape body))) (quote :: (body ++ [quote]))
  | identifier {c : Char} {cs : List Char} : Lexeme.startsName c = true →
      (∀ d ∈ cs, Lexeme.continuesName d = true) →
      Keyword.ofText? (String.ofList (c :: cs)) = none →
      SpelledBy (.identifier (String.ofList (c :: cs))) (c :: cs)
  | newline : SpelledBy .newline ['\n']

/-- A text denotes a token: it spells it, or it is a flag, which is put together from a minus sign
and one or more other minus signs, words and integers. -/
inductive DenotedBy : Token → List Char → Prop
  | spelled {t : Token} {text : List Char} : SpelledBy t text → DenotedBy t text
  | flag {pieces : List Token} {texts : List (List Char)} : pieces ≠ [] →
      (∀ t ∈ pieces, Flag.joins t = true) → List.Forall₂ SpelledBy pieces texts →
      DenotedBy (.flag (String.ofList ('-' :: texts.flatten))) ('-' :: texts.flatten)

variable {t : Token} {text : List Char}

/-- No token is spelled by nothing. -/
theorem SpelledBy.ne_nil (h : t.SpelledBy text) : text ≠ [] := by
  cases h with
  | keyword word => cases word <;> decide
  | symbol sign => cases sign <;> decide
  | integer hdigits => exact hdigits.ne_nil
  | _ => simp

/-- A symbol is spelled in one way. -/
theorem SpelledBy.eq_text {sign : Symbol} (h : (Token.symbol sign).SpelledBy text) :
    text = sign.text.toList := by
  cases h
  rfl

/-- A string is spelled between quotes, which are of one byte. -/
theorem SpelledBy.quotes {value : String} (h : (Token.string value).SpelledBy text) :
    ∃ quote body, text = quote :: (body ++ [quote]) ∧ quote.utf8Size = 1 ∧
      value = String.ofList (Text.unescape body) := by
  cases h with
  | @string quote body hquote =>
    refine ⟨quote, body, rfl, ?_, rfl⟩
    rcases hquote with rfl | rfl <;> rfl

theorem DenotedBy.ne_nil (h : t.DenotedBy text) : text ≠ [] := by
  cases h with
  | spelled h => exact h.ne_nil
  | flag => exact List.cons_ne_nil _ _

/-- No text denotes the start or the end of a block. -/
theorem DenotedBy.eq_newline_of_isLayout (h : t.DenotedBy text) (ht : t.isLayout = true) :
    t = .newline := by
  cases h with
  | spelled h => cases h with
    | newline => rfl
    | _ => cases ht
  | flag => cases ht

/-- A newline is a line feed. -/
theorem DenotedBy.eq_feed (h : Token.newline.DenotedBy text) : text = ['\n'] := by
  cases h with
  | spelled h =>
    cases h
    rfl

end Token

/-! ### Digits around a point -/

namespace IsDigits

variable {cs rest : List Char}

theorem head_ne {c d : Char} (h : IsDigits (c :: cs)) (hd : d.isDigit = false) : c ≠ d := by
  rintro rfl
  have hc := h.isDigit c (List.mem_cons_self ..)
  rw [hd] at hc
  cases hc

theorem takeWhile {c : Char} (hc : c.isDigit = true) (cs : List Char) :
    IsDigits ((c :: cs).takeWhile Char.isDigit) where
  ne_nil := by
    rw [List.takeWhile_cons_of_pos hc]
    exact List.cons_ne_nil _ _
  isDigit _ hd := List.all_eq_true.mp List.all_takeWhile _ hd

/-- Digits are read up to the first character that is none. -/
theorem takeWhile_append (h : IsDigits cs) (hrest : ∀ c, rest.head? = some c → c.isDigit = false) :
    (cs ++ rest).takeWhile Char.isDigit = cs ∧ (cs ++ rest).dropWhile Char.isDigit = rest := by
  rw [List.takeWhile_append_of_pos h.isDigit, List.dropWhile_append_of_pos h.isDigit]
  cases rest with
  | nil => simp
  | cons c rest => simp [hrest c rfl]

end IsDigits

/-- A digit has no other case. -/
theorem toLower_of_isDigit {c : Char} (h : c.isDigit = true) : c.toLower = c := by
  unfold Char.isDigit at h
  unfold Char.toLower
  rw [Bool.and_eq_true, decide_eq_true_eq, decide_eq_true_eq] at h
  refine dif_neg fun hupper => ?_
  have hhigh := UInt32.le_iff_toNat_le.mp h.2
  have hlow := UInt32.le_iff_toNat_le.mp hupper.1
  simp at hhigh hlow
  omega

namespace FloatText

variable {whole fraction : List Char}

theorem exists_unsignedDecimal? (hwhole : IsDigits whole) (hfraction : IsDigits fraction) :
    ∃ x, unsignedDecimal? false (whole ++ '.' :: fraction) = some x := by
  have hpoint : ∀ c, ('.' :: fraction).head? = some c → c.isDigit = false := by
    rintro _ ⟨⟩
    rfl
  obtain ⟨htake, hdrop⟩ := hwhole.takeWhile_append hpoint
  have hend : ∀ c, ([] : List Char).head? = some c → c.isDigit = false := nofun
  obtain ⟨htake', hdrop'⟩ := hfraction.takeWhile_append hend
  rw [List.append_nil] at htake' hdrop'
  have hnatural : Integer.naturalOfDigits? (whole ++ fraction) =
      some (Digits.number 10 ((whole ++ fraction).map Integer.digitValue)) := by
    refine if_neg ?_
    simpa [hwhole.ne_nil] using ⟨hwhole.isDigit, hfraction.isDigit⟩
  unfold unsignedDecimal?
  dsimp only
  rw [htake, hdrop]
  simp only [htake', hdrop', hnatural]
  exact ⟨_, rfl⟩

/-- Digits around a point are the text of a number. -/
theorem exists_parse? (hwhole : IsDigits whole) (hfraction : IsDigits fraction) :
    ∃ x, parse? (whole ++ '.' :: fraction) = some x := by
  obtain ⟨c, ds, rfl⟩ := List.exists_cons_of_ne_nil hwhole.ne_nil
  have hname {name : String} (h : ∃ d cs, name = String.ofList (d :: cs) ∧ d.isDigit = false) :
      String.ofList ((c :: ds ++ '.' :: fraction).map Char.toLower) ≠ name := by
    obtain ⟨d, cs, rfl, hd⟩ := h
    intro heq
    rw [List.cons_append, List.map_cons,
      toLower_of_isDigit (hwhole.isDigit c (List.mem_cons_self ..))] at heq
    exact hwhole.head_ne hd (List.cons.inj (String.ofList_injective heq)).1
  have hsign : parse? (c :: ds ++ '.' :: fraction) =
      unsigned? false (c :: ds ++ '.' :: fraction) := by
    unfold parse?
    split
    · next heq => exact absurd (List.cons.inj heq).1 (hwhole.head_ne rfl)
    · next heq => exact absurd (List.cons.inj heq).1 (hwhole.head_ne rfl)
    · rfl
  rw [hsign, unsigned?, if_neg (not_or.mpr ⟨hname ⟨'i', _, rfl, rfl⟩, hname ⟨'i', _, rfl, rfl⟩⟩),
    if_neg (hname ⟨'n', _, rfl, rfl⟩)]
  exact exists_unsignedDecimal? hwhole hfraction

end FloatText

/-! ### What is cut off -/

/-- The symbol that two characters spell is spelled by them. -/
theorem Symbol.text_of_ofPair? {c d : Char} {sign : Symbol} (h : ofPair? c d = some sign) :
    sign.text.toList = [c, d] := by
  unfold ofPair? at h
  split at h <;> cases h <;> rfl

/-- The symbol that one character spells is spelled by it. -/
theorem Symbol.text_of_ofChar? {c : Char} {sign : Symbol} (h : ofChar? c = some sign) :
    sign.text.toList = [c] := by
  unfold ofChar? at h
  split at h <;> cases h <;> rfl

namespace Lexeme

variable {c : Char} {cs : List Char} {t : Token}

/-- A closed literal is its inside and a quote. -/
theorem isLiteralBody_of_stringBody {quote : Char} {taken rest : List Char}
    (h : stringBody quote cs = (taken, some rest)) :
    ∃ body, taken = body ++ [quote] ∧ IsLiteralBody quote body := by
  fun_induction stringBody quote cs generalizing taken with
  | case1 => cases h
  | case2 => cases h
  | case3 => cases h
  | case4 c cs hc taken' rest' heq ih =>
    cases h
    obtain ⟨body, rfl, hbody⟩ := ih heq
    exact ⟨'\\' :: c :: body, rfl, .escape (fun hfeed => hc hfeed) hbody⟩
  | case5 => cases h
  | case6 =>
    cases h
    exact ⟨[], rfl, .nil⟩
  | case7 c cs hc hfeed hquote taken' rest' heq ih =>
    cases h
    obtain ⟨body, rfl, hbody⟩ := ih heq
    exact ⟨c :: body, rfl, .plain hquote (fun h => hc h) hfeed hbody⟩

theorem spelledBy_of_cutString {quote : Char} (hquote : quote = '"' ∨ quote = '\'')
    (h : (cutString quote cs).reading = .token t) : t.SpelledBy (cutString quote cs).taken := by
  unfold cutString at h ⊢
  split at h
  · next taken rest htaken =>
    obtain ⟨body, rfl, hbody⟩ := isLiteralBody_of_stringBody htaken
    cases h
    rw [List.dropLast_concat]
    exact .string hquote hbody
  · cases h

theorem spelledBy_of_cutNumber (hc : c.isDigit = true)
    (h : (cutNumber (c :: cs)).reading = .token t) : t.SpelledBy (cutNumber (c :: cs)).taken := by
  have hinteger {left : List Char} (h : (cutNumber.cutInteger ((c :: cs).takeWhile Char.isDigit)
      left).reading = .token t) : t.SpelledBy (cutNumber.cutInteger
        ((c :: cs).takeWhile Char.isDigit) left).taken := by
    unfold cutNumber.cutInteger at h ⊢
    split at h
    · next n hn =>
      cases h
      exact .integer (.takeWhile hc cs) hn
    · cases h
  unfold cutNumber at h ⊢
  dsimp only at h ⊢
  split at h
  · next d ds hrest =>
    split at h
    · next hd =>
      obtain ⟨x, hx⟩ := FloatText.exists_parse? (.takeWhile hc cs) (.takeWhile hd ds)
      cases h
      rw [hx, Option.getD_some, if_pos hd]
      exact .float (.takeWhile hc cs) (.takeWhile hd ds) hx
    · next hd =>
      rw [if_neg hd]
      exact hinteger h
  · exact hinteger h

theorem spelledBy_of_word (hc : startsName c = true) :
    (wordToken (String.ofList (c :: cs.takeWhile continuesName))).SpelledBy
      (c :: cs.takeWhile continuesName) := by
  unfold wordToken
  split
  · next word hword =>
    have htext := congrArg String.toList (Keyword.text_of_ofText? hword)
    rw [String.toList_ofList] at htext
    rw [← htext]
    exact .keyword word
  · next hword =>
    exact .identifier hc (fun _ hd => List.all_eq_true.mp List.all_takeWhile _ hd) hword

theorem spelledBy_of_cutSymbol (h : (cutSymbol c cs).reading = .token t) :
    t.SpelledBy (cutSymbol c cs).taken := by
  unfold cutSymbol at h ⊢
  split at h
  · next sign hpair =>
    obtain ⟨d, hd, hsign⟩ := Option.bind_eq_some_iff.mp hpair
    obtain ⟨cs, rfl⟩ := List.head?_eq_some_iff.mp hd
    cases h
    exact Symbol.text_of_ofPair? hsign ▸ .symbol sign
  · split at h
    · next sign hsign =>
      cases h
      exact Symbol.text_of_ofChar? hsign ▸ .symbol sign
    · cases h

/-- What is cut off as a token spells it. -/
theorem spelledBy_of_cut (h : (cut c cs).reading = .token t) : t.SpelledBy (cut c cs).taken := by
  revert h
  unfold cut
  split
  · exact nofun
  split
  · next hfeed =>
    rintro ⟨⟩
    rw [hfeed]
    exact .newline
  split
  · exact nofun
  split
  · next hquote => exact spelledBy_of_cutString hquote
  split
  · next hdigit => exact spelledBy_of_cutNumber hdigit
  split
  · next hname =>
    rintro ⟨⟩
    exact spelledBy_of_word hname
  · exact spelledBy_of_cutSymbol

end Lexeme

end ScriptShell
