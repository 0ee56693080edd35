import Mathlib.Data.List.TakeWhile
import ScriptShell.Proofs.Script.Completeness
import ScriptShell.Proofs.Token.LineEnds

/-!
# Acceptance

The readers accept exactly the grammar. What is read is derived, what is derived is read, and
since a reader gives one answer the tree of a token list is the only one: how tight each operator
binds, to which side it groups and which block a line belongs to are what the rules say.
-/

namespace ScriptShell

/-- An expression with nothing but newlines after it. -/
def DerivesExprLine (ts : List Token) (e : Expr) : Prop :=
  ∃ us n, ts = us ++ List.replicate n .newline ∧ ExprRule.or.Derives us e

/-- Only newlines are left out before the end. -/
theorem eq_replicate_of_dropWhile_isNewline {ts : List Token}
    (h : ts.dropWhile Reader.isNewline = []) : ts = List.replicate ts.length .newline := by
  refine List.eq_replicate_of_mem fun t ht => ?_
  have ht := List.dropWhile_eq_nil_iff.mp h t ht
  unfold Reader.isNewline at ht
  split at ht
  · rfl
  · cases ht

/-- The reader of one expression accepts exactly the expressions with newlines after them. -/
theorem onlyExpr_iff_derives (ts : List Token) (e : Expr) :
    Reader.onlyExpr ts = .ok e ↔ DerivesExprLine ts e := by
  rw [Reader.onlyExpr_eq]
  constructor
  · intro h
    obtain ⟨value, rest, hx, hend⟩ := Reader.exists_of_bind h
    dsimp only at hend
    split at hend
    · next hnil =>
      cases hend
      obtain ⟨us, rfl, hd⟩ := Reader.takes_expr hx
      exact ⟨us, rest.length, by rw [← eq_replicate_of_dropWhile_isNewline hnil], hd⟩
    · cases hend
  · rintro ⟨us, n, rfl, hd⟩
    have hparted : Parted 7 (List.replicate n .newline) := by
      cases n with
      | zero => exact nofun
      | succ n => exact .cons (by decide) _
    have hdrop : (List.replicate n Token.newline).dropWhile Reader.isNewline = [] := by
      refine List.dropWhile_eq_nil_iff.mpr fun t ht => ?_
      rw [List.eq_of_mem_replicate ht, Reader.isNewline]
    rw [hd.plain_expr hparted, Reader.ok_bind]
    dsimp only
    rw [hdrop]

/-- The reader of scripts accepts exactly the programs. -/
theorem script_iff_derives (ts : List Token) (p : List Stmt) :
    Reader.script ts = .ok p ↔ ScriptRule.program.Derives ts p := by
  constructor
  · intro h
    cases ts with
    | nil =>
      rw [Reader.script] at h
      cases h
      exact .emptyProgram
    | cons t ts => exact .ofLines (Reader.derives_of_script h)
  · exact ScriptRule.Derives.isRead

/-- A flag stands in no expression and in no newline after one. -/
theorem DerivesExprLine.isNoFlag {ts : List Token} {e : Expr} (h : DerivesExprLine ts e) :
    ∀ t ∈ ts, t.isNoFlag = true := by
  obtain ⟨us, n, rfl, hd⟩ := h
  intro t ht
  rcases List.mem_append.mp ht with ht | ht
  · exact Token.isNoFlag_of_standsInExpr (hd.standsInExpr t ht)
  · rw [List.eq_of_mem_replicate ht]
    rfl

/-- On every token list the two readers accept exactly what the grammar derives, with the tree of
the derivation; a token list has at most one tree as an expression and at most one as a program;
and a token list with a flag in it is accepted by neither. -/
theorem readers_accept_grammar (ts : List Token) :
    (∀ e, Reader.onlyExpr ts = .ok e ↔ DerivesExprLine ts e) ∧
      (∀ p, Reader.script ts = .ok p ↔ ScriptRule.program.Derives ts p) ∧
      (∀ e e', DerivesExprLine ts e → DerivesExprLine ts e' → e = e') ∧
      (∀ p p', ScriptRule.program.Derives ts p → ScriptRule.program.Derives ts p' → p = p') ∧
      ∀ f, .flag f ∈ ts →
        (∀ e, Reader.onlyExpr ts ≠ .ok e) ∧ ∀ p, Reader.script ts ≠ .ok p := by
  refine ⟨onlyExpr_iff_derives ts, script_iff_derives ts, ?_, ?_, ?_⟩
  · intro e e' h h'
    have hread := (onlyExpr_iff_derives ts e).mpr h
    rw [(onlyExpr_iff_derives ts e').mpr h'] at hread
    exact (Except.ok.inj hread).symm
  · intro p p' h h'
    have hread := (script_iff_derives ts p).mpr h
    rw [(script_iff_derives ts p').mpr h'] at hread
    exact (Except.ok.inj hread).symm
  · intro f hf
    constructor
    · intro e h
      have hflag := ((onlyExpr_iff_derives ts e).mp h).isNoFlag _ hf
      cases hflag
    · intro p h
      have hflag := ((script_iff_derives ts p).mp h).isNoFlag _ hf
      cases hflag

/-- A reader reads a source when it reads its tokens. -/
theorem readSource_eq_ok_iff {α : Type} (read : List Token → Except (List Token) α)
    (source : String) (a : α) :
    Reader.readSource read source = .ok a ↔
      ∃ ts, tokenize source = .ok ts ∧ read (ts.map PlacedToken.token) = .ok a := by
  constructor
  · intro h
    obtain ⟨ts, hts, hread⟩ := exists_of_bind_eq_ok h
    refine ⟨ts, hts, ?_⟩
    split at hread
    · next heq =>
      cases hread
      exact heq
    · cases hread
  · rintro ⟨ts, hts, hread⟩
    unfold Reader.readSource
    rw [hts]
    simp only [bind, Except.bind, hread]
    rfl

end ScriptShell
