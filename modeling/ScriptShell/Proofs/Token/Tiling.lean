import ScriptShell.Proofs.Token.Content
import ScriptShell.Proofs.Token.Spelling

/-!
# How lexemes lie in a text

The texts of the lexemes of a source stand in it one after another, each at its place, and nothing
is between them but blanks and comments. Making flags whole keeps this: a flag is the text from its
minus sign on to the end of the last lexeme that joins it.
-/

namespace ScriptShell

/-- A text stands in a source from byte `start` to before byte `stop`. -/
def IsSlice (source : List Char) (start stop : Nat) (text : List Char) : Prop :=
  ∃ before after, source = before ++ text ++ after ∧ Text.utf8Length before = start ∧
    start + Text.utf8Length text = stop

/-- Byte `b` of a text that starts at byte `start` is a blank, or in a comment: from its number sign
on, no token stands on the rest of the line. -/
inductive IsSkipped (start : Nat) (cs : List Char) (ts : List PlacedToken) (b : Nat) : Prop
  | blank (before : List Char) {after : List Char} {c : Char} : cs = before ++ c :: after →
      start + Text.utf8Length before = b → Lexeme.isGap c = true → IsSkipped start cs ts b
  | comment (before : List Char) {comment after : List Char} :
      cs = before ++ '#' :: comment ++ after → '\n' ∉ comment →
      (∀ c, after.head? = some c → c = '\n') →
      start + Text.utf8Length before ≤ b →
      b < start + Text.utf8Length (before ++ '#' :: comment) →
      (∀ t ∈ ts, t.stop ≤ start + Text.utf8Length before ∨
        start + Text.utf8Length (before ++ '#' :: comment) ≤ t.start) → IsSkipped start cs ts b

theorem Text.utf8Length_pos {cs : List Char} (h : cs ≠ []) : 0 < utf8Length cs := by
  obtain ⟨c, cs, rfl⟩ := List.exists_cons_of_ne_nil h
  have := c.utf8Size_pos
  rw [utf8Length_cons]
  omega

/-- A member of two lists in a row is a member of the first, or of the second behind all of the
first. -/
theorem exists_of_append_eq_append {α : Type} {xs ys before after : List α} {c : α}
    (h : xs ++ ys = before ++ c :: after) :
    (∃ mid, xs = before ++ c :: mid ∧ after = mid ++ ys) ∨
      ∃ mid, before = xs ++ mid ∧ ys = mid ++ c :: after := by
  rcases List.append_eq_append_iff.mp h with hbehind | ⟨mid, rfl, hys⟩
  · exact .inr hbehind
  · cases mid with
    | nil => exact .inr ⟨[], by simp, hys.symm⟩
    | cons d mid =>
      cases hys
      exact .inl ⟨mid, rfl, rfl⟩

/-- What is skipped is skipped in a longer text. -/
theorem IsSkipped.prepend {start b : Nat} (front : List Char) {cs : List Char}
    {ts : List PlacedToken} (h : IsSkipped (start + Text.utf8Length front) cs ts b) :
    IsSkipped start (front ++ cs) ts b := by
  have hplace (before : List Char) : start + Text.utf8Length (front ++ before) =
      start + Text.utf8Length front + Text.utf8Length before := by
    rw [Text.utf8Length_append, Nat.add_assoc]
  cases h with
  | @blank before after c hcs hb hc =>
    refine .blank (front ++ before) (by rw [hcs, List.append_assoc]) ?_ hc
    rw [hplace, hb]
  | @comment before comment after hcs hfeed hafter hstart hstop hts =>
    refine .comment (front ++ before) (by simp [hcs]) hfeed hafter ?_ ?_ ?_
    · rwa [hplace]
    · rwa [List.append_assoc, hplace]
    · rw [List.append_assoc, hplace, hplace]
      exact hts

/-- Behind a minus sign that starts a flag a lexeme joins it. -/
theorem Flag.joins_of_startsWith {l next : Lexeme} (h : startsWith l next = true) :
    (next.start == l.stop && joins next.token) = true := by
  unfold startsWith at h
  split at h
  · obtain ⟨hplace, hnext⟩ := Bool.and_eq_true_iff.mp h
    rw [(Bool.and_eq_true_iff.mp hplace).2, Bool.true_and]
    rcases Bool.or_eq_true_iff.mp hnext with hword | hminus
    · unfold joins
      split
      · rfl
      · rfl
      · exact hword
    · split at hminus
      · next htoken =>
        rw [htoken]
        rfl
      · cases hminus
  · cases h

namespace Lexeme

/-- The token of a lexeme at its place. -/
def placed (l : Lexeme) : PlacedToken := ⟨l.token, l.start, l.stop⟩

/-- A text that stands before `after` is made of blanks, and of a comment up to the end of the line
if there is one. -/
inductive IsBetween (after : List Char) : List Char → Prop
  | nil : IsBetween after []
  | blank {c : Char} {cs : List Char} : isGap c = true → IsBetween after cs →
      IsBetween after (c :: cs)
  | comment {cs : List Char} : '\n' ∉ cs → (∀ c, after.head? = some c → c = '\n') →
      IsBetween after ('#' :: cs)

namespace IsBetween

variable {after gap : List Char}

/-- No line feed is between lexemes. -/
theorem feed_not_mem (h : IsBetween after gap) : '\n' ∉ gap := by
  induction h with
  | nil => exact List.not_mem_nil
  | @blank c cs hc _ ih =>
    rintro (_ | ⟨_, hmem⟩)
    · cases hc
    · exact ih hmem
  | comment hfeed => simpa using hfeed

/-- What stands before a line feed or at the end of a text ends where more is cut off behind it. -/
theorem of_append {more : List Char} (h : IsBetween (after ++ more) gap) : IsBetween after gap := by
  induction h with
  | nil => exact .nil
  | blank hc _ ih => exact .blank hc ih
  | comment hfeed hafter =>
    refine .comment hfeed fun c hc => hafter c ?_
    rw [List.head?_append, hc, Option.some_or]

/-- A comment can stand before what has nothing before it on a line. -/
theorem comment_append {comment : List Char} (h : IsBetween after gap) (hcomment : '\n' ∉ comment)
    (hhead : ∀ c, (gap ++ after).head? = some c → c = '\n') :
    gap = [] ∧ IsBetween after ('#' :: comment) := by
  cases h with
  | nil => exact ⟨rfl, .comment hcomment hhead⟩
  | blank hc =>
    rw [hhead _ rfl] at hc
    cases hc
  | comment =>
    have hsharp := hhead '#' rfl
    cases hsharp

/-- A character between lexemes that is neither a blank nor a number sign is in a comment, behind its
number sign. -/
theorem exists_comment {before behind : List Char} {c : Char}
    (h : IsBetween after (before ++ c :: behind)) (hgap : isGap c = false) (hsharp : c ≠ '#') :
    (∃ front comment, before = front ++ '#' :: comment) ∧
      ∀ d, after.head? = some d → d = '\n' := by
  generalize hwhole : before ++ c :: behind = gap at h
  induction h generalizing before with
  | nil => simp at hwhole
  | blank hblank _ ih =>
    cases before with
    | nil =>
      cases hwhole
      rw [hgap] at hblank
      cases hblank
    | cons d before =>
      obtain ⟨rfl, hrest⟩ := List.cons.inj hwhole
      obtain ⟨⟨front, comment, rfl⟩, hafter⟩ := ih hrest
      exact ⟨⟨d :: front, comment, rfl⟩, hafter⟩
  | comment _ hafter =>
    refine ⟨?_, hafter⟩
    cases before with
    | nil =>
      cases hwhole
      exact absurd rfl hsharp
    | cons d before =>
      cases hwhole
      exact ⟨[], before, rfl⟩

/-- Every byte between lexemes is skipped. -/
theorem isSkipped {start b : Nat} {ts : List PlacedToken} (h : IsBetween after gap)
    (hstart : start ≤ b) (hstop : b < start + Text.utf8Length gap)
    (hts : ∀ t ∈ ts, t.stop ≤ start ∨ start + Text.utf8Length gap ≤ t.start) :
    IsSkipped start (gap ++ after) ts b := by
  induction h generalizing start with
  | nil => exact absurd hstop (Nat.not_lt.mpr hstart)
  | @blank c cs hc _ ih =>
    by_cases hb : b = start
    · exact .blank [] rfl hb.symm hc
    · have hsize : c.utf8Size = 1 := by
        simp only [isGap, Bool.or_eq_true, beq_iff_eq] at hc
        rcases hc with ((rfl | rfl) | rfl) | rfl <;> rfl
      rw [Text.utf8Length_cons, hsize] at hstop hts
      have hnext : start + Text.utf8Length [c] = start + 1 := by simp [hsize]
      refine IsSkipped.prepend [c] ?_
      rw [hnext]
      refine ih (by omega) (by omega) fun t ht => ?_
      have := hts t ht
      omega
  | @comment cs hfeed hafter => exact .comment [] rfl hfeed hafter hstart hstop hts

end IsBetween

/-- A text that starts at byte `start` is made of the texts of lexemes, each at its place, with
blanks and comments between them. -/
inductive Tiles (P : Token → List Char → Prop) : Nat → List Char → List Lexeme → Prop
  | nil {start : Nat} {cs : List Char} : IsBetween [] cs → Tiles P start cs []
  | cons (gap : List Char) {start : Nat} {rest : List Char} {l : Lexeme} {ls : List Lexeme} :
      IsBetween (l.text ++ rest) gap → l.start = start + Text.utf8Length gap → P l.token l.text →
      Tiles P l.stop rest ls → Tiles P start (gap ++ (l.text ++ rest)) (l :: ls)

namespace Tiles

variable {P Q : Token → List Char → Prop} {start : Nat} {cs : List Char} {ls us vs : List Lexeme}

theorem mono (h : Tiles P start cs ls) (hPQ : ∀ t text, P t text → Q t text) :
    Tiles Q start cs ls := by
  induction h with
  | nil hgap => exact .nil hgap
  | cons gap hgap hstart hl _ ih => exact .cons _ hgap hstart (hPQ _ _ hl) ih

/-- A blank before a text is between lexemes. -/
theorem blank {c : Char} (hc : isGap c = true) (h : Tiles P (start + Text.utf8Length [c]) cs ls) :
    Tiles P start (c :: cs) ls := by
  cases h with
  | nil hgap => exact .nil (.blank hc hgap)
  | cons gap hgap hstart hl hrest =>
    refine .cons (c :: _) (.blank hc hgap) ?_ hl hrest
    rw [hstart, Nat.add_assoc, ← Text.utf8Length_append]
    rfl

/-- A comment before the end of a line is between lexemes. -/
theorem comment {comment : List Char} (hcomment : '\n' ∉ comment)
    (hhead : ∀ c, cs.head? = some c → c = '\n')
    (h : Tiles P (start + Text.utf8Length ('#' :: comment)) cs ls) :
    Tiles P start ('#' :: comment ++ cs) ls := by
  cases h with
  | nil hgap =>
    obtain ⟨rfl, hcomment⟩ := hgap.comment_append hcomment (by simpa using hhead)
    rw [List.append_nil]
    exact .nil hcomment
  | cons gap hgap hstart hl hrest =>
    obtain ⟨rfl, hcomment⟩ := hgap.comment_append hcomment hhead
    exact .cons _ hcomment hstart hl hrest

/-- The lexemes of a text tile it. -/
theorem of_scanFrom {previous : Option Char} (h : scanFrom previous start cs = .ok ls) :
    Tiles Token.SpelledBy start cs ls := by
  revert ls
  fun_induction scanFrom previous start cs with
  | case1 =>
    rintro _ ⟨⟩
    exact .nil .nil
  | case2 => exact nofun
  | @case3 previous start c cs next stop hread ih =>
    intro ls h
    have hnext := ih h
    rcases rest_of_skipped hread with ⟨hc, -⟩ | ⟨rfl, -⟩
    · rw [show stop = start + Text.utf8Length (cut c cs).taken from rfl,
        show next = cut c cs from rfl, cut_gap hc] at hnext
      exact .blank hc hnext
    · -- a comment takes the rest of its line, so what follows is empty or starts with a line feed
      rw [← List.takeWhile_append_dropWhile (p := (· != '\n')) (l := cs), ← List.cons_append]
      refine .comment (feed_not_mem_takeWhile rfl cs) (fun c hc => ?_) hnext
      have hnot := List.head?_dropWhile_not (· != '\n') cs
      rw [hc] at hnot
      simpa using hnot
  | @case4 previous start c cs next stop token hread ih =>
    intro ls h
    obtain ⟨ls', hls, heq⟩ := exists_of_bind_eq_ok h
    cases heq
    rw [← taken_append_rest (c := c) (by rw [hread]; exact nofun)]
    exact .cons (l := ⟨token, next.taken, start, _⟩) [] .nil rfl (spelledBy_of_cut hread) (ih hls)

/-! ### Places -/

theorem start_le (h : Tiles P start cs ls) : ∀ l ∈ ls, start ≤ l.start := by
  induction h with
  | nil => exact nofun
  | @cons gap start rest l ls _ hstart _ _ ih =>
    rintro m (_ | ⟨_, hm⟩)
    · omega
    · have hle := ih m hm
      rw [Lexeme.stop] at hle
      omega

theorem stop_le (h : Tiles P start cs ls) : ∀ l ∈ ls, l.stop ≤ start + Text.utf8Length cs := by
  induction h with
  | nil => exact nofun
  | @cons gap start rest l ls _ hstart _ _ ih =>
    have hstop : l.stop + Text.utf8Length rest =
        start + Text.utf8Length (gap ++ (l.text ++ rest)) := by
      rw [Lexeme.stop, hstart, Text.utf8Length_append, Text.utf8Length_append]
      omega
    rw [← hstop]
    rintro m (_ | ⟨_, hm⟩)
    · exact Nat.le_add_right ..
    · exact ih m hm

/-- Lexemes stand one behind another. -/
theorem pairwise (h : Tiles P start cs ls) : ls.Pairwise fun l m => l.stop ≤ m.start := by
  induction h with
  | nil => exact .nil
  | cons _ _ _ _ hrest ih => exact .cons hrest.start_le ih

/-- A text with lexemes is tiled by the first of them up to where these end, and by the others from
there on. -/
theorem split (h : Tiles P start cs (us ++ vs)) :
    ∃ front back, cs = front ++ back ∧ Tiles P start front us ∧
      Tiles P (start + Text.utf8Length front) back vs ∧ (us = [] → front = []) ∧
      ∀ l, us.getLast? = some l → ∃ before, front = before ++ l.text := by
  induction us generalizing start cs with
  | nil => exact ⟨[], cs, rfl, .nil .nil, h, fun _ => rfl, nofun⟩
  | cons u us ih =>
    cases h with
    | @cons gap _ rest _ _ hgap hstart hu hrest =>
      obtain ⟨front, back, rfl, hfront, hback, hnil, hlast⟩ := ih hrest
      refine ⟨gap ++ (u.text ++ front), back, by simp, ?_, ?_, nofun, fun l hl => ?_⟩
      · rw [← List.append_assoc] at hgap
        exact .cons gap hgap.of_append hstart hu hfront
      · rw [Lexeme.stop, hstart] at hback
        simpa [Nat.add_assoc] using hback
      · cases us with
        | nil =>
          cases hl
          rw [hnil rfl, List.append_nil]
          exact ⟨gap, rfl⟩
        | cons v us =>
          rw [List.getLast?_cons_cons] at hl
          obtain ⟨before, rfl⟩ := hlast l hl
          exact ⟨gap ++ (u.text ++ before), by simp⟩

/-- The text of a lexeme stands in the source at its place. -/
theorem isSlice (h : Tiles P 0 cs ls) {l : Lexeme} (hl : l ∈ ls) :
    IsSlice cs l.start l.stop l.text ∧ P l.token l.text := by
  obtain ⟨us, vs, rfl⟩ := List.append_of_mem hl
  obtain ⟨front, back, rfl, -, hback, -, -⟩ := h.split
  cases hback with
  | @cons gap _ rest _ _ _ hstart hl =>
    refine ⟨⟨front ++ gap, rest, by simp, ?_, rfl⟩, hl⟩
    rw [hstart, Text.utf8Length_append, Nat.zero_add]

/-- Every byte of a text is in the text of a lexeme or skipped. -/
theorem mem_or_isSkipped (h : Tiles P start cs ls) {ts : List PlacedToken}
    (hts : ∀ t ∈ ts, t.stop ≤ start ∨ ∃ l ∈ ls, t = l.placed) {b : Nat} (hstart : start ≤ b)
    (hstop : b < start + Text.utf8Length cs) :
    (∃ l ∈ ls, l.start ≤ b ∧ b < l.stop) ∨ IsSkipped start cs ts b := by
  induction h with
  | @nil start cs hgap =>
    have hskipped := hgap.isSkipped hstart hstop fun t ht => .inl ((hts t ht).resolve_right nofun)
    rw [List.append_nil] at hskipped
    exact .inr hskipped
  | @cons gap start rest l ls hgap hplace _ hrest ih =>
    have hend : l.stop = start + Text.utf8Length (gap ++ l.text) := by
      rw [Lexeme.stop, hplace, Text.utf8Length_append, Nat.add_assoc]
    -- the byte is in the gap before the first lexeme, in its text, or behind it
    by_cases hbefore : b < l.start
    · refine .inr (hgap.isSkipped hstart (hplace ▸ hbefore) fun t ht => ?_)
      rw [← hplace]
      rcases hts t ht with hle | ⟨m, hm, rfl⟩
      · exact .inl hle
      · refine .inr ?_
        rcases List.mem_cons.mp hm with rfl | hm
        · exact Nat.le_refl _
        · exact Nat.le_trans (Nat.le_add_right ..) (hrest.start_le m hm)
    · by_cases hin : b < l.stop
      · exact .inl ⟨l, List.mem_cons_self .., Nat.not_lt.mp hbefore, hin⟩
      · have hts' : ∀ t ∈ ts, t.stop ≤ l.stop ∨ ∃ m ∈ ls, t = m.placed := by
          intro t ht
          rcases hts t ht with hle | ⟨m, hm, rfl⟩
          · exact .inl (by omega)
          · rcases List.mem_cons.mp hm with rfl | hm
            · exact .inl (Nat.le_refl _)
            · exact .inr ⟨m, hm, rfl⟩
        rw [← List.append_assoc, Text.utf8Length_append, ← Nat.add_assoc, ← hend] at hstop
        rcases ih hts' (Nat.not_lt.mp hin) hstop with ⟨m, hm, hb⟩ | hskipped
        · exact .inl ⟨m, List.mem_cons_of_mem _ hm, hb⟩
        · rw [hend] at hskipped
          rw [← List.append_assoc]
          exact .inr (hskipped.prepend _)

/-! ### Characters -/

/-- All of the text of a lexeme is in the text that it is a lexeme of. -/
theorem text_subset (h : Tiles P start cs ls) : ∀ l ∈ ls, l.text ⊆ cs := by
  induction h with
  | nil => exact nofun
  | @cons gap start rest l ls _ _ _ _ ih =>
    refine List.forall_mem_cons.mpr ⟨fun c hc => by simp [hc], fun m hm c hc => ?_⟩
    simp [ih m hm hc]

/-- A character of a text on one line that is neither a blank nor a number sign stands in the text of
a lexeme, behind those of others and before those of the rest, or in a comment behind all
lexemes. -/
theorem exists_place (h : Tiles Token.SpelledBy start cs ls) (hline : '\n' ∉ cs)
    {before after : List Char} {c : Char} (hcs : cs = before ++ c :: after)
    (hgap : isGap c = false) (hsharp : c ≠ '#') :
    (∃ us l vs x y back, ls = us ++ l :: vs ∧ l.text = x ++ c :: y ∧ after = y ++ back ∧
        l.token.SpelledBy l.text ∧ start + Text.utf8Length before = l.start + Text.utf8Length x ∧
          Tiles Token.SpelledBy l.stop back vs) ∨
      ∃ front comment, before = front ++ '#' :: comment ∧
        ∀ l ∈ ls, l.stop ≤ start + Text.utf8Length front := by
  induction h generalizing before with
  | nil hbetween =>
    obtain ⟨⟨front, comment, rfl⟩, _⟩ := (hcs ▸ hbetween).exists_comment hgap hsharp
    exact .inr ⟨front, comment, rfl, nofun⟩
  | @cons gap start rest l ls hbetween hstart hl hrest ih =>
    simp only [List.mem_append, not_or] at hline
    have hplace (further : List Char) : l.stop + Text.utf8Length further =
        start + Text.utf8Length (gap ++ (l.text ++ further)) := by
      rw [Lexeme.stop, hstart]
      simp [Nat.add_assoc]
    -- the character stands in the gap before the first lexeme, in its text, or behind it
    rcases exists_of_append_eq_append hcs with ⟨behind, rfl, -⟩ | ⟨inside, rfl, hinside⟩
    · obtain ⟨d, text, htext⟩ := List.exists_cons_of_ne_nil hl.ne_nil
      have hfeed := (hbetween.exists_comment hgap hsharp).2 d (by simp [htext])
      exact absurd (by simp [htext, hfeed]) hline.2.1
    · rcases exists_of_append_eq_append hinside with ⟨y, htext, rfl⟩ | ⟨further, rfl, hfurther⟩
      · refine .inl ⟨[], l, ls, inside, y, rest, rfl, htext, rfl, hl, ?_, hrest⟩
        rw [hstart, Text.utf8Length_append, Nat.add_assoc]
      · rcases ih hline.2.2 hfurther with ⟨us, m, vs, x, y, back, rfl, hm⟩ | ⟨front, comment, rfl, hls⟩
        · rw [hplace] at hm
          exact .inl ⟨l :: us, m, vs, x, y, back, rfl, hm⟩
        · rw [hplace] at hls
          refine .inr ⟨gap ++ (l.text ++ front), comment, by simp, ?_⟩
          exact List.forall_mem_cons.mpr ⟨hplace front ▸ Nat.le_add_right .., hls⟩

/-! ### Flags -/

theorem of_mem (h : Tiles P start cs ls) : ∀ l ∈ ls, P l.token l.text := by
  induction h with
  | nil => exact nofun
  | cons _ _ _ hl _ ih => exact List.forall_mem_cons.mpr ⟨hl, ih⟩

/-- The lexemes that join a flag have its text but for the minus sign, and the others tile what
follows that. -/
theorem afterTail (h : Tiles Token.SpelledBy start cs ls) :
    ∃ pieces texts rest, (∀ t ∈ pieces, Flag.joins t = true) ∧
      List.Forall₂ Token.SpelledBy pieces texts ∧ Flag.tail start ls = texts.flatten ∧
      cs = texts.flatten ++ rest ∧
      Tiles Token.SpelledBy (start + Text.utf8Length texts.flatten) rest
        (Flag.afterTail start ls) := by
  induction h with
  | @nil start cs hgap => exact ⟨[], [], cs, nofun, .nil, rfl, rfl, .nil hgap⟩
  | @cons gap start rest l ls hgap hstart hl hrest ih =>
    rw [Flag.tail, Flag.afterTail]
    split
    · next hjoins =>
      obtain ⟨hplace, hjoins⟩ := Bool.and_eq_true_iff.mp hjoins
      obtain rfl : gap = [] := by
        have hzero : ¬0 < Text.utf8Length gap := by
          rw [beq_iff_eq] at hplace
          omega
        exact Decidable.not_not.mp fun hne => hzero (Text.utf8Length_pos hne)
      obtain ⟨pieces, texts, rest', hpieces, htexts, htail, rfl, hrest'⟩ := ih
      refine ⟨l.token :: pieces, l.text :: texts, rest', ?_, .cons hl htexts, ?_, ?_, ?_⟩
      · exact List.forall_mem_cons.mpr ⟨hjoins, hpieces⟩
      · rw [htail, List.flatten_cons]
      · rw [List.nil_append, List.flatten_cons, List.append_assoc]
      · have hstop : l.stop = start + Text.utf8Length l.text := by
          rw [Lexeme.stop, beq_iff_eq.mp hplace]
        rw [List.flatten_cons, Text.utf8Length_append, ← Nat.add_assoc, ← hstop]
        exact hrest'
    · exact ⟨[], [], _, nofun, .nil, rfl, rfl, .cons gap hgap hstart hl hrest⟩

/-- A flag is denoted by the text from its minus sign on, and lexemes tile what follows. -/
theorem ofMinus {l next : Lexeme} {rest : List Char}
    (h : Tiles Token.SpelledBy l.stop rest (next :: ls))
    (hl : l.token.SpelledBy l.text) (hstarts : Flag.startsWith l next = true) :
    ∃ rest', l.text ++ rest = (Flag.ofMinus l (next :: ls)).text ++ rest' ∧
      (Flag.ofMinus l (next :: ls)).token.DenotedBy (Flag.ofMinus l (next :: ls)).text ∧
      Tiles Token.SpelledBy (Flag.ofMinus l (next :: ls)).stop rest'
        (Flag.afterTail l.stop (next :: ls)) := by
  obtain ⟨pieces, texts, rest', hpieces, htexts, htail, rfl, hrest⟩ := h.afterTail
  have hminus : l.text = ['-'] := by
    rw [Flag.minus_of_startsWith hstarts] at hl
    exact hl.eq_text
  -- the lexeme behind the minus sign joins the flag, so there is more than the sign
  have hne : pieces ≠ [] := by
    rintro rfl
    cases htexts
    rw [Flag.tail, if_pos (Flag.joins_of_startsWith hstarts)] at htail
    have hnext := h.of_mem next (List.mem_cons_self ..)
    exact hnext.ne_nil (List.append_eq_nil_iff.mp htail).1
  have hstop : (Flag.ofMinus l (next :: ls)).stop = l.stop + Text.utf8Length texts.flatten := by
    rw [Lexeme.stop, Flag.ofMinus, htail, Text.utf8Length_append, ← Nat.add_assoc]
    rfl
  refine ⟨rest', ?_, ?_, hstop ▸ hrest⟩
  · rw [Flag.ofMinus, htail, List.append_assoc]
  · rw [Flag.ofMinus, htail, hminus]
    exact .flag hne hpieces htexts

/-- The lexemes of a source tile it when flags are made whole. -/
theorem foldFrom {afterOperand : Bool} (h : Tiles Token.SpelledBy start cs ls) :
    Tiles Token.DenotedBy start cs (Flag.foldFrom afterOperand ls) := by
  fun_induction Flag.foldFrom afterOperand ls generalizing start cs with
  | case1 afterOperand l next ls hstarts ih =>
    cases h with
    | cons gap hgap hstart hl hrest =>
      obtain ⟨rest', htext, hflag, hrest'⟩ :=
        hrest.ofMinus hl (Bool.and_eq_true_iff.mp hstarts).2
      rw [htext] at hgap ⊢
      exact .cons gap hgap hstart hflag (ih hrest')
  | case2 afterOperand l next ls _ ih =>
    cases h with
    | cons gap hgap hstart hl hrest => exact .cons gap hgap hstart (.spelled hl) (ih hrest)
  | case3 => exact h.mono fun _ _ => .spelled

end Tiles

end Lexeme

end ScriptShell
