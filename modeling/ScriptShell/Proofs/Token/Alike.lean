import ScriptShell.Proofs.Script.Brackets
import ScriptShell.Proofs.Script.Exchange
import ScriptShell.Proofs.Token.Spacing

/-!
# Texts that are cut alike

Two texts are alike if they are cut into the same lexemes but for names and strings in each other's
place. They are laid out in the same way, so one of them is a script if the other is, as long as no
flag is made and no name is bound.
-/

namespace ScriptShell

/-! ### Tokens -/

namespace Token

/-- Like tokens end operands alike. -/
theorem Alike.endsOperand {t u : Token} (h : Alike t u) : u.endsOperand = t.endsOperand := by
  cases h <;> rfl

/-- Like tokens ask for a name alike. -/
theorem Alike.asksForName {t u : Token} (h : Alike t u) : u.asksForName = t.asksForName := by
  cases h <;> rfl

/-- Like tokens open and close brackets alike. -/
theorem Alike.depthAfter {t u : Token} (h : Alike t u) (depth : Nat) :
    Layout.depthAfter depth u = Layout.depthAfter depth t := by
  cases h <;> rfl

/-- Only a newline is like one. -/
theorem Alike.newline_iff {t u : Token} (h : Alike t u) : u = .newline ↔ t = .newline := by
  cases h <;> simp

/-- No token of an expression asks for a name. -/
theorem asksForName_of_standsInExpr {t : Token} (h : t.standsInExpr = true) :
    t.asksForName = false := by
  unfold asksForName
  split
  · split
    all_goals first
      | rfl
      | cases h
  · cases h
  · cases h
  · rfl

/-- No layout token asks for a name. -/
theorem asksForName_of_isLayout {t : Token} (h : t.isLayout = true) : t.asksForName = false := by
  cases t with
  | newline | indent | dedent => rfl
  | _ => cases h

/-- Whether tokens ask for a name does not depend on the layout. -/
theorem nameless_of_content {ts : List Token} (h : ∀ t ∈ content ts, t.asksForName = false) :
    ∀ t ∈ ts, t.asksForName = false := by
  intro t ht
  cases hlayout : t.isLayout with
  | true => exact asksForName_of_isLayout hlayout
  | false => exact h t (List.mem_filter.mpr ⟨ht, by simp [hlayout]⟩)

/-- Among the tokens no flag can start, and no rule that one of them stands in asks for a name;
`afterOperand` says whether an operand ends right before them. -/
structure Harmless (afterOperand : Bool) (ts : List Token) : Prop where
  unflagged : Flag.Unflagged afterOperand ts
  nameless : ∀ t ∈ ts, t.asksForName = false

namespace Harmless

variable {afterOperand : Bool} {t : Token} {ts us : List Token}

theorem nil : Harmless afterOperand [] := ⟨trivial, nofun⟩

theorem cons (hminus : afterOperand = true → t ≠ .symbol .minus) (hname : t.asksForName = false)
    (h : Harmless t.endsOperand ts) : Harmless afterOperand (t :: ts) :=
  ⟨⟨hminus, h.unflagged⟩, List.forall_mem_cons.mpr ⟨hname, h.nameless⟩⟩

theorem tail (h : Harmless afterOperand (t :: ts)) : Harmless t.endsOperand ts :=
  ⟨h.unflagged.2, (List.forall_mem_cons.mp h.nameless).2⟩

/-- Behind a line feed. -/
theorem behind_feed (h : Harmless afterOperand (us ++ .newline :: ts)) : Harmless false ts := by
  induction us generalizing afterOperand with
  | nil => exact h.tail
  | cons u us ih => exact ih h.tail

/-- What is harmless behind an operand is harmless anywhere. -/
theorem of_behindOperand (h : Harmless true ts) : Harmless afterOperand ts :=
  ⟨h.unflagged.of_behindOperand, h.nameless⟩

/-- Tokens that stand in the place of harmless ones are harmless. -/
theorem of_alike (h : Harmless afterOperand ts) (halike : List.Forall₂ Alike ts us) :
    Harmless afterOperand us := by
  induction halike generalizing afterOperand with
  | nil => exact .nil
  | @cons t u ts us htu _ ih =>
    have hrest := ih h.tail
    refine ⟨⟨fun hoperand => ?_, htu.endsOperand ▸ hrest.unflagged⟩, ?_⟩
    · rintro rfl
      cases htu
      exact h.unflagged.1 hoperand rfl
    · refine List.forall_mem_cons.mpr ⟨?_, hrest.nameless⟩
      rw [htu.asksForName]
      exact h.nameless t (List.mem_cons_self ..)

/-- A name or a literal is harmless. -/
theorem of_isArgument {e : Expr} (hd : ExprRule.or.Derives (content ts) e)
    (he : e.isArgument = true) : Harmless false ts := by
  refine ⟨(hd.of_isArgument he).2.of_content, nameless_of_content fun t ht => ?_⟩
  exact asksForName_of_standsInExpr (hd.standsInExpr t ht)

end Harmless

end Token

/-! ### Lexemes -/

namespace Spaced

/-- Lexemes that can stand in each other's place: the tokens can, and they are equally far from the
lexemes before them, unless they are line feeds. -/
structure Alike (l m : Spaced) : Prop where
  token : l.token.Alike m.token
  gap : l.token ≠ .newline → m.gap = l.gap

theorem Alike.refl (l : Spaced) : Alike l l := ⟨.refl l.token, fun _ => rfl⟩

theorem Alike.symm {l m : Spaced} (h : Alike l m) : Alike m l := by
  refine ⟨h.token.symm, fun hm => (h.gap fun hl => hm ?_).symm⟩
  exact h.token.newline_iff.mpr hl

theorem alike_symm {ls ms : List Spaced} (h : List.Forall₂ Alike ls ms) :
    List.Forall₂ Alike ms ls :=
  List.Forall₂.flip (h.imp fun _ _ => Alike.symm)

/-- Lexemes that are alike have like tokens. -/
theorem map_token_alike {ls ms : List Spaced} (h : List.Forall₂ Alike ls ms) :
    List.Forall₂ Token.Alike (ls.map token) (ms.map token) := by
  rw [List.forall₂_map_left_iff, List.forall₂_map_right_iff]
  exact h.imp fun _ _ hlm => hlm.token

/-- Where no flag can start none is made. -/
theorem fold_of_unflagged {afterOperand : Bool} {ls : List Spaced}
    (h : Flag.Unflagged afterOperand (ls.map token)) : fold afterOperand ls = ls := by
  fun_induction fold afterOperand ls with
  | case1 afterOperand l next ls hstarts ih =>
    obtain ⟨hoperand, hnext⟩ := Bool.and_eq_true_iff.mp hstarts
    unfold startsFlag at hnext
    split at hnext
    · next hminus => exact absurd hminus (h.1 hoperand)
    · cases hnext
  | case2 afterOperand l next ls _ ih => rw [ih h.2]
  | case3 => rfl

/-- Lexemes that are alike are laid out alike. -/
theorem laid_alike {ls ms : List Spaced} (h : List.Forall₂ Alike ls ms) {columns : List Nat}
    {depth : Nat} {lineIsEmpty : Bool} {ts : List Token}
    (hlaid : laid columns depth lineIsEmpty ls = some ts) :
    ∃ us, laid columns depth lineIsEmpty ms = some us ∧ List.Forall₂ Token.Alike ts us := by
  induction h generalizing columns depth lineIsEmpty ts with
  | nil => exact ⟨ts, hlaid, List.forall₂_same.mpr fun t _ => .refl t⟩
  | @cons l m ls ms hlm _ ih =>
    by_cases hfeed : l.token = .newline
    · have hfeed' := hlm.token.newline_iff.mpr hfeed
      rw [laid_feed hfeed] at hlaid
      rw [laid_feed hfeed']
      split at hlaid
      · next hdepth =>
        obtain ⟨ts', hts', rfl⟩ := Option.map_eq_some_iff.mp hlaid
        obtain ⟨us, hus, halike⟩ := ih hts'
        refine ⟨lineEnd lineIsEmpty ++ us, by rw [if_pos hdepth, hus, Option.map_some], ?_⟩
        exact List.rel_append (List.forall₂_same.mpr fun t _ => .refl t) halike
      · next hdepth =>
        obtain ⟨us, hus, halike⟩ := ih hlaid
        exact ⟨us, by rw [if_neg hdepth, hus], halike⟩
    · have hfeed' : m.token ≠ .newline := fun hm => hfeed (hlm.token.newline_iff.mp hm)
      rw [laid_token hfeed] at hlaid
      obtain ⟨⟨blocks, columns'⟩, henter, hlaid⟩ := Option.bind_eq_some_iff.mp hlaid
      obtain ⟨ts', hts', rfl⟩ := Option.map_eq_some_iff.mp hlaid
      obtain ⟨us, hus, halike⟩ := ih hts'
      refine ⟨blocks ++ m.token :: us, ?_, ?_⟩
      · rw [laid_token hfeed', hlm.gap hfeed, henter, hlm.token.depthAfter, Option.bind_some]
        dsimp only
        rw [hus, Option.map_some]
      · exact List.rel_append (List.forall₂_same.mpr fun t _ => .refl t) (.cons hlm.token halike)

end Spaced

/-! ### Texts -/

namespace Lexeme

/-- Two texts are cut into lexemes that are alike and harmless wherever they stand; `afterOperand`
says whether an operand ends right before them. -/
def Akin (afterOperand : Bool) (cs ds : List Char) : Prop :=
  ∀ previous previous' gap, ∃ ls ms, Spaced.scan previous gap cs = some ls ∧
    Spaced.scan previous' gap ds = some ms ∧ List.Forall₂ Spaced.Alike ls ms ∧
      Token.Harmless afterOperand (ls.map Spaced.token)

namespace Akin

variable {afterOperand : Bool} {c : Char} {cs ds rest rest' : List Char}

theorem symm (h : Akin afterOperand cs ds) : Akin afterOperand ds cs := by
  intro previous previous' gap
  obtain ⟨ls, ms, hls, hms, halike, hharmless⟩ := h previous' previous gap
  exact ⟨ms, ls, hms, hls, Spaced.alike_symm halike,
    hharmless.of_alike (Spaced.map_token_alike halike)⟩

/-- Characters that are akin behind an operand are akin anywhere. -/
theorem of_behindOperand (h : Akin true cs ds) : Akin afterOperand cs ds := by
  intro previous previous' gap
  obtain ⟨ls, ms, hls, hms, halike, hharmless⟩ := h previous previous' gap
  exact ⟨ls, ms, hls, hms, halike, hharmless.of_behindOperand⟩

theorem nil : Akin afterOperand [] [] := by
  intro previous previous' gap
  exact ⟨[], [], by rw [Spaced.scan], by rw [Spaced.scan], .nil, .nil⟩

/-- A blank stands before both texts. -/
theorem gap (hc : isGap c = true) (h : Akin afterOperand cs ds) :
    Akin afterOperand (c :: cs) (c :: ds) := by
  intro previous previous' gap
  rw [Spaced.scan_skipped (by rw [cut_gap hc]), Spaced.scan_skipped (by rw [cut_gap hc]),
    cut_gap hc, cut_gap hc]
  exact h _ _ _

/-- Lexemes that are alike stand before the texts. -/
theorem token {d : Char} {taken taken' : List Char} {t u : Token}
    (hc : cut c cs = ⟨.token t, taken, rest⟩) (hd : cut d ds = ⟨.token u, taken', rest'⟩)
    (htu : t.Alike u) (hminus : afterOperand = true → t ≠ .symbol .minus)
    (hname : t.asksForName = false) (h : Akin t.endsOperand rest rest') :
    Akin afterOperand (c :: cs) (d :: ds) := by
  intro previous previous' gap
  obtain ⟨ls, ms, hls, hms, halike, hharmless⟩ := h taken.getLast? taken'.getLast? 0
  rw [Spaced.scan_token (by rw [hc]), Spaced.scan_token (by rw [hd]), hc, hd]
  dsimp only
  rw [hls, hms]
  exact ⟨_, _, rfl, rfl, .cons ⟨htu, fun _ => rfl⟩ halike, hharmless.cons hminus hname⟩

end Akin

/-- Nothing is left of two texts behind their first line feeds, or what is left is akin. -/
def AkinBehindLine (cs ds : List Char) : Prop :=
  (cs.dropWhile (· != '\n') = [] ∧ ds.dropWhile (· != '\n') = []) ∨
    ∃ cs' ds', cs.dropWhile (· != '\n') = '\n' :: cs' ∧ ds.dropWhile (· != '\n') = '\n' :: ds' ∧
      Akin false cs' ds'

/-- From their first line feeds on the texts are cut alike, however far they are from what stands
before them. -/
theorem AkinBehindLine.exists_scan {cs ds : List Char} (h : AkinBehindLine cs ds)
    (previous previous' : Option Char) (gap gap' : Nat) :
    ∃ ls ms, Spaced.scan previous gap (cs.dropWhile (· != '\n')) = some ls ∧
      Spaced.scan previous' gap' (ds.dropWhile (· != '\n')) = some ms ∧
        List.Forall₂ Spaced.Alike ls ms ∧ Token.Harmless true (ls.map Spaced.token) := by
  rcases h with ⟨hcs, hds⟩ | ⟨cs', ds', hcs, hds, hakin⟩
  · rw [hcs, hds]
    exact ⟨[], [], by rw [Spaced.scan], by rw [Spaced.scan], .nil, .nil⟩
  · obtain ⟨ls, ms, hls, hms, halike, hharmless⟩ := hakin (some '\n') (some '\n') 0
    rw [hcs, hds, Spaced.scan_token (by rw [cut_feed]), Spaced.scan_token (by rw [cut_feed]),
      cut_feed, cut_feed, List.getLast?_singleton, hls, hms]
    exact ⟨_, _, rfl, rfl, .cons ⟨.refl _, fun hfeed => absurd rfl hfeed⟩ halike,
      hharmless.cons (fun _ => Token.noConfusion) rfl⟩

/-- A text that goes on in two ways is cut alike, if the ways are akin, and akin from their first
line feeds on in case the text leaves a comment open. -/
theorem Akin.behind {afterOperand : Bool} {cs rest rest' : List Char} {ts : List Token}
    (hlexed : lexed cs = some ts) (hts : Token.Harmless afterOperand ts) (hrest : Delimited rest)
    (hrest' : Delimited rest') (h : Akin true rest rest') (hlost : AkinBehindLine rest rest') :
    Akin afterOperand (cs ++ rest) (cs ++ rest') := by
  fun_induction lexed cs generalizing afterOperand ts with
  | case1 => exact h.of_behindOperand
  | case2 => cases hlexed
  | case3 c cs hread ih =>
    intro previous previous' gap
    by_cases hopen : c = '#' ∧ '\n' ∉ cs
    · obtain ⟨rfl, hfeed⟩ := hopen
      obtain ⟨ls, ms, hls, hms, halike, hharmless⟩ := hlost.exists_scan _ _ _ _
      refine ⟨ls, ms, ?_, ?_, halike, hharmless.of_behindOperand⟩
      · rw [List.cons_append, Spaced.scan_skipped (by rw [cut_openComment hfeed]),
          cut_openComment hfeed]
        exact hls
      · rw [List.cons_append, Spaced.scan_skipped (by rw [cut_openComment hfeed]),
          cut_openComment hfeed]
        exact hms
    · have hsharp : c = '#' → '\n' ∈ cs :=
        fun hc => Decidable.not_not.mp fun hfeed => hopen ⟨hc, hfeed⟩
      have hcut := cut_append hrest (by simp [hread]) hsharp
      have hcut' := cut_append hrest' (by simp [hread]) hsharp
      rw [List.cons_append, List.cons_append, Spaced.scan_skipped (by rw [hcut]; exact hread),
        Spaced.scan_skipped (by rw [hcut']; exact hread), hcut, hcut']
      exact ih hlexed hts _ _ _
  | case4 c cs t hread ih =>
    obtain ⟨ts', hts', rfl⟩ := Option.map_eq_some_iff.mp hlexed
    have hsharp : c = '#' → '\n' ∈ cs := by
      rintro rfl
      cases hread
    have hcut := cut_append hrest (by simp [hread]) hsharp
    have hcut' := cut_append hrest' (by simp [hread]) hsharp
    exact .token (by rw [List.append_eq, hcut, Cut.before, hread])
      (by rw [List.append_eq, hcut', Cut.before, hread]) (.refl t) hts.unflagged.1
      (hts.nameless t (List.mem_cons_self ..)) (ih hts' hts.tail)

end Lexeme

/-! ### Sources -/

/-- A source is a script if it is cut like one. -/
theorem compiles_of_alike {a b : String} {ls ms : List Spaced}
    (ha : Spaced.scan none 0 a.toList = some ls) (hb : Spaced.scan none 0 b.toList = some ms)
    (halike : List.Forall₂ Spaced.Alike ls ms)
    (hharmless : Token.Harmless false (ls.map Spaced.token)) (h : compiles a = true) :
    compiles b = true := by
  unfold compiles at h ⊢
  cases hparse : parse a with
  | error e =>
    rw [hparse] at h
    cases h
  | ok p =>
    obtain ⟨ts, hts, hd⟩ := (parse_iff_derives a p).mp hparse
    have hharmless' := hharmless.of_alike (Spaced.map_token_alike halike)
    rw [tokens?, ha, Option.bind_some, Spaced.fold_of_unflagged hharmless.unflagged] at hts
    obtain ⟨us, hus, hboth⟩ := Spaced.laid_alike halike hts
    have hnameless : ∀ t ∈ ts, t.asksForName = false := by
      refine Token.nameless_of_content fun t ht => ?_
      rw [Spaced.content_laid hts] at ht
      exact hharmless.nameless t (List.mem_filter.mp ht).1
    obtain ⟨q, hq⟩ := hd.exchange hnameless hboth
    have hread : parse b = .ok q := by
      refine (parse_iff_derives b q).mpr ⟨us, ?_, hq⟩
      rw [tokens?, hb, Option.bind_some, Spaced.fold_of_unflagged hharmless'.unflagged, hus]
    rw [hread]
    rfl

end ScriptShell
