import ScriptShell.Proofs.Script.Lookahead
import ScriptShell.Proofs.Script.PegExpressions

/-!
# Simple statements as parsing expressions

The grammar with ordered alternatives reads the lines of simple statements that the readers read.
Where a statement starts with a name, three alternatives are tried on it. That the first two fail
does not show in the furthest failure, because an expression that starts with a name is tried at the
tokens behind it as well.
-/

namespace ScriptShell.Peg

open Reader (plain)

variable {α : Type} {ts rest : List Token}

/-! ### Simple statements -/

/-- Whether a simple statement ends before a token. -/
def endsStatement : Token → Bool
  | .newline | .symbol .semicolon => true
  | _ => false

/-- No statement ends here. -/
def Stray (ts : List Token) : Prop := ts.head?.any endsStatement = false

/-- A statement ends before two tokens only. -/
theorem Stray.of_head?_ne (hsemicolon : ts.head? ≠ some (.symbol .semicolon))
    (hnewline : ts.head? ≠ some .newline) : Stray ts := by
  rcases ts with _ | ⟨t, us⟩
  · rfl
  · cases t with
    | newline => exact absurd rfl hnewline
    | symbol sign =>
      cases sign with
      | semicolon => exact absurd rfl hsemicolon
      | _ => rfl
    | _ => rfl

theorem Stray.head?_ne (h : Stray ts) {t : Token} (ht : endsStatement t = true) :
    ts.head? ≠ some t :=
  head?_ne_of_any h ht

/-- A token that goes on after an expression ends no statement. -/
theorem stray_of_continues (h : Continues 7 ts) : Stray ts :=
  .of_head?_ne (h.head?_ne (by decide)) (h.head?_ne (by decide))

/-- An expression as a part of a statement. -/
theorem agrees_expr (ts : List Token) :
    Agrees Stray ts (expr ts) (plain (Reader.expr ts)) :=
  (readsExpr_expr ts).agrees.mono fun _ => stray_of_continues

/-- A word that leaves a function takes a value unless the statement ends behind it. -/
theorem agrees_giveBack (us : List Token) :
    Agrees Stray (.keyword .giveBack :: us) (giveBack (.keyword .giveBack :: us))
      (plain (Reader.giveBack us)) := by
  refine .take_bind rfl ?_
  by_cases h : Stray us
  · rw [Reader.plain_giveBack_value (h.head?_ne rfl) (h.head?_ne rfl)]
    exact (agrees_expr us).optional_map h Stmt.giveBack
  · have hends : us.head? = some (.symbol .semicolon) ∨ us.head? = some .newline := by
      by_contra hne
      rw [not_or] at hne
      exact h (.of_head?_ne hne.1 hne.2)
    have hstarts : us.head?.any Token.startsExpr = false := by
      rcases hends with hhead | hhead
      all_goals rw [hhead]; rfl
    rw [Reader.plain_giveBack_nothing hends]
    exact .optional_right ((readsExpr_expr us).refuses hstarts) (.done _ _)

/-! ### Statements that start with a name -/

/-- The failures of a comparison are failures of the negation that it might be. -/
theorem left_negation_le {sum : Peg Expr} (h : ts.head? ≠ some (.keyword .negation)) :
    (negation sum ts).left ≤ (sum ts).left := by
  rw [negation]
  obtain ⟨p, hbody, -⟩ := exists_recursive_eq _ ts
  rw [hbody]
  exact Nat.le_trans (left_orElse_le ((refuses_keyword h).bind _)) (left_bind_le _ _ _)

/-- The failures of an atom are failures of the operand that it starts. -/
theorem left_unary_le {e : Peg Expr} (h : ts.head? ≠ some (.symbol .minus)) :
    (unary e ts).left ≤ (postfixed e ts).left := by
  rw [unary]
  obtain ⟨p, hbody, -⟩ := exists_recursive_eq _ ts
  rw [hbody]
  exact Nat.le_trans (left_orElse_le ((refuses_symbol h).bind _)) (left_bind_le _ _ _)

/-- An expression that starts with a name is tried on what follows the name. -/
theorem exists_left_expr_le (name : String) (us : List Token) :
    ∃ p : Peg Expr, (∀ vs, vs.length < (Token.identifier name :: us).length → p vs = expr vs) ∧
      (expr (.identifier name :: us)).left ≤ (many (postfixOp p) us).left := by
  generalize hts : Token.identifier name :: us = ts
  have hhead : ts.head? = some (.identifier name) := by rw [← hts]; rfl
  rw [expr]
  obtain ⟨p, hbody, hp⟩ := exists_recursive_eq
    (fun e => chain .or (chain .and (negation (chain .sum (chain .term (unary e)))))) ts
  refine ⟨p, hp, ?_⟩
  have hatom : ∃ left, atom p ts = ⟨some (.name name, us), left⟩ := by
    subst hts
    exact ⟨_, rfl⟩
  obtain ⟨left, hatom⟩ := hatom
  rw [hbody]
  calc (chain .or (chain .and (negation (chain .sum (chain .term (unary p))))) ts).left
      ≤ (chain .and (negation (chain .sum (chain .term (unary p)))) ts).left := left_bind_le _ _ _
    _ ≤ (negation (chain .sum (chain .term (unary p))) ts).left := left_bind_le _ _ _
    _ ≤ (chain .sum (chain .term (unary p)) ts).left := left_negation_le (by simp [hhead])
    _ ≤ (chain .term (unary p) ts).left := left_bind_le _ _ _
    _ ≤ (unary p ts).left := left_bind_le _ _ _
    _ ≤ (postfixed p ts).left := left_unary_le (by simp [hhead])
    _ ≤ (grown (postfixOp p) (.name name) us).left := left_bind_le_of_some hatom _
    _ ≤ (many (postfixOp p) us).left := left_bind_le _ _ _

/-- What stands between brackets is tried on fewer tokens. -/
theorem between_congr {p q : Peg α} (h : ∀ us, us.length < ts.length → p us = q us)
    (opening closing : Symbol) : between opening closing p ts = between opening closing q ts := by
  by_cases hts : ts.head? = some (.symbol opening)
  · obtain ⟨us, rfl⟩ := List.head?_eq_some_iff.mp hts
    have htake : symbol opening (.symbol opening :: us) = ⟨some ((), us), us.length + 1⟩ :=
      one_of_true (beq_self_eq_true opening) us
    rw [between, between, bind_of_some htake, bind_of_some htake, upTo, upTo,
      bind_congr (h us (Nat.lt_succ_self _))]
  · rw [refuses_between hts, refuses_between hts]

/-- Brackets fail no earlier than where they were tried. -/
theorem left_between_le (opening closing : Symbol) (p : Peg α) (ts : List Token) :
    (between opening closing p ts).left ≤ ts.length :=
  Nat.le_trans (left_bind_le _ _ _) (Nat.le_of_eq (left_take _ _))

/-- A call or an index fails no earlier than where it was tried. -/
theorem left_postfixOp_le (e : Peg Expr) (ts : List Token) :
    (postfixOp e ts).left ≤ ts.length :=
  Nat.le_trans (left_orElse_le_left _ _ _)
    (Nat.le_trans (left_bind_le _ _ _) (left_between_le _ _ _ _))

/-- A step of a postfix expression fails no earlier than an index. -/
theorem left_postfixOp_le_index (e : Peg Expr) (ts : List Token) :
    (postfixOp e ts).left ≤ (between .openBracket .closeBracket e ts).left := by
  by_cases hparen : ts.head? = some (.symbol .openParen)
  · have hbracket : Refuses (between .openBracket .closeBracket e) ts :=
      refuses_between (by simp [hparen]) _ _
    rw [hbracket]
    exact left_postfixOp_le e ts
  · exact Nat.le_trans (left_orElse_le ((refuses_between hparen _ _).map _)) (left_bind_le _ _ _)

/-- What is read between brackets is the index that the readers read. -/
theorem exists_of_between {us ws : List Token} {index : Expr} {left : Nat}
    (h : between .openBracket .closeBracket expr us = ⟨some (index, ws), left⟩) :
    ∃ vs, us = .symbol .openBracket :: vs ∧ indexReading vs = .ok (index, ws) := by
  by_cases hus : us.head? = some (.symbol .openBracket)
  · obtain ⟨vs, rfl⟩ := List.head?_eq_some_iff.mp hus
    refine ⟨vs, rfl, ?_⟩
    have hagrees : Agrees never _ (between .openBracket .closeBracket expr _) (indexReading vs) :=
      agrees_between (agrees_upTo (readsExpr_expr vs).agrees fun ws hws => hws.head?_ne (by decide))
    rw [h] at hagrees
    generalize indexReading vs = r at hagrees
    cases hagrees with
    | read => rfl
    | cut hdead => exact hdead.elim
  · rw [refuses_between hus] at h
    cases h

/-- Behind the expression of an index stands the closing bracket. -/
theorem expr_of_indexReading {us ws : List Token} {index : Expr}
    (h : indexReading us = .ok (index, ws)) :
    plain (Reader.expr us) = .ok (index, .symbol .closeBracket :: ws) := by
  obtain ⟨index', rest, hexpr, h⟩ := Reader.exists_of_bind h
  obtain ⟨_, rest', hclose, h⟩ := Reader.exists_of_bind h
  cases h
  rw [hexpr, Reader.eq_of_plain_symbol hclose]

/-- No equals sign stands behind an index that is not assigned to. -/
theorem head?_ne_assign_of_indexReading {vs ws : List Token} {index : Expr}
    (h : Reader.itemTarget? (.symbol .openBracket :: vs) = none)
    (hindex : indexReading vs = .ok (index, ws)) : ws.head? ≠ some (.symbol .assign) := by
  intro hws
  obtain ⟨xs, rfl⟩ := List.head?_eq_some_iff.mp hws
  obtain ⟨_, htarget⟩ := Reader.itemTarget?_bracket vs (expr_of_indexReading hindex)
  rw [htarget] at h
  cases h

/-- An index is a step of a postfix expression. -/
theorem exists_postfixOp_index {e : Peg Expr} {us ws : List Token} {index : Expr} {left : Nat}
    (h : between .openBracket .closeBracket e us = ⟨some (index, ws), left⟩) :
    ∃ left', postfixOp e us = ⟨some (fun target => .index target index, ws), left'⟩ := by
  have hparen : us.head? ≠ some (.symbol .openParen) := by
    intro hus
    rw [refuses_between (by simp [hus])] at h
    cases h
  rw [postfixOp, orElse_of_none ((refuses_between hparen _ _).map _), map_of_some h]
  exact ⟨_, rfl⟩

/-- An expression that starts with a name and is no assignment to an item fails no earlier than
one. -/
theorem exists_setItem_eq_none (name : String) {us : List Token}
    (h : Reader.itemTarget? us = none) :
    ∃ left, setItem (.identifier name :: us) = ⟨none, left⟩ ∧
      (expr (.identifier name :: us)).left ≤ left := by
  obtain ⟨p, hp, hle⟩ := exists_left_expr_le name us
  have hstep : (many (postfixOp p) us).left ≤
      (between .openBracket .closeBracket expr us).left := by
    rw [← between_congr fun vs hvs => hp vs (Nat.lt_succ_of_lt hvs)]
    exact Nat.le_trans (left_many_le _ _) (left_postfixOp_le_index p us)
  have hfront := left_between_le .openBracket .closeBracket expr us
  have hname : identifier (.identifier name :: us) = ⟨some (name, us), us.length + 1⟩ := rfl
  rw [setItem, bind_of_some hname]
  rcases hat : between .openBracket .closeBracket expr us with ⟨_ | ⟨index, ws⟩, left⟩
  · rw [hat] at hstep hfront
    rw [bind_of_none hat]
    exact ⟨min (us.length + 1) left, rfl, Nat.le_min.mpr (by dsimp only at *; omega)⟩
  · obtain ⟨vs, rfl, hindex⟩ := exists_of_between hat
    have hassign := head?_ne_assign_of_indexReading h hindex
    have hinner : between .openBracket .closeBracket p (.symbol .openBracket :: vs) =
        ⟨some (index, ws), left⟩ := by
      rw [between_congr fun us hus => hp us (Nat.lt_succ_of_lt hus), hat]
    obtain ⟨_, hop⟩ := exists_postfixOp_index hinner
    have hlt : ws.length < (Token.symbol .openBracket :: vs).length :=
      Nat.lt_succ_of_lt (length_lt_of_indexReading hindex)
    have hrest : (many (postfixOp p) (.symbol .openBracket :: vs)).left ≤ ws.length :=
      Nat.le_trans (left_many_le_of_some hop hlt)
        (Nat.le_trans (left_many_le _ _) (left_postfixOp_le p ws))
    rw [hat] at hstep hfront
    have hvalue : Refuses (symbol .assign >>= fun _ => expr >>= fun value =>
        (pure (.setItem name index value) : Peg Stmt)) ws := (refuses_symbol hassign).bind _
    rw [bind_of_some hat, hvalue]
    refine ⟨min (vs.length + 2) (min left ws.length), rfl, ?_⟩
    simp only [List.length_cons] at hstep hfront
    omega

/-- An expression that starts with a name fails behind the name, at the earliest. -/
theorem left_namedExpr_le (name : String) (us : List Token) :
    (expr (.identifier name :: us)).left ≤ us.length := by
  obtain ⟨p, -, hle⟩ := exists_left_expr_le name us
  exact Nat.le_trans hle (Nat.le_trans (left_many_le _ _) (left_postfixOp_le p us))

/-- An assignment to an item fails behind its name, at the earliest. -/
theorem left_setItem_le (name : String) (us : List Token) :
    (setItem (.identifier name :: us)).left ≤ us.length := by
  have hname : identifier (.identifier name :: us) = ⟨some (name, us), us.length + 1⟩ := rfl
  exact Nat.le_trans (left_bind_le_of_some hname _)
    (Nat.le_trans (left_bind_le _ _ _) (left_between_le _ _ _ _))

/-- Behind a name without a sign of assignment, an assignment is given up at once. -/
theorem assignment_eq_none (name : String) {us : List Token}
    (h : us.head?.bind Reader.assignment? = none) :
    assignment (.identifier name :: us) = ⟨none, us.length⟩ := by
  have hname : identifier (.identifier name :: us) = ⟨some (name, us), us.length + 1⟩ := rfl
  have hsign : Refuses (take Reader.assignment? >>= fun op => expr >>= fun value =>
      (pure (.assign name op value) : Peg Stmt)) us := (refuses_take h).bind _
  rw [assignment, bind_of_some hname, hsign]
  exact congrArg _ (Nat.min_eq_right (Nat.le_succ _))

/-- Behind a name with a sign of assignment stands no index. -/
theorem itemTarget?_eq_none_of_assignment? {t : Token} {op : Option Operator}
    (h : Reader.assignment? t = some op) (us : List Token) :
    Reader.itemTarget? (t :: us) = none := by
  unfold Reader.assignment? at h
  split at h
  all_goals first
    | rfl
    | cases h

/-- A name is an expression that ends before a sign of assignment. -/
theorem plain_expr_assigned (name : String) {t : Token} {op : Option Operator}
    (h : Reader.assignment? t = some op) (us : List Token) :
    plain (Reader.expr (.identifier name :: t :: us)) = .ok (.name name, t :: us) := by
  have hparted : Parted 7 (t :: us) := by
    apply Parted.cons
    unfold Reader.assignment? at h
    split at h
    all_goals first
      | decide
      | cases h
  exact (ExprRule.Derives.of_postfixed (.ofAtom .name)).plain_expr hparted

/-- No statement ends before a sign of assignment. -/
theorem stray_of_assignment? {t : Token} {op : Option Operator}
    (h : Reader.assignment? t = some op) (us : List Token) : Stray (t :: us) := by
  unfold Reader.assignment? at h
  split at h
  all_goals first
    | rfl
    | cases h

/-- An expression as a statement. -/
theorem agrees_bareExpr (ts : List Token) :
    Agrees Stray ts ((Stmt.expr <$> expr) ts) (plain (Reader.bareExpr ts)) := by
  rw [Reader.plain_bareExpr]
  exact (agrees_expr ts).map Stmt.expr

/-- A name and a sign of assignment are tried as an assignment, and are an expression otherwise. -/
theorem agrees_assigned (name : String) {t : Token} {op : Option Operator}
    (h : Reader.assignment? t = some op) (us : List Token) :
    Agrees Stray (.identifier name :: t :: us)
      ((assignment <|> setItem <|> Stmt.expr <$> expr) (.identifier name :: t :: us))
      (plain (Reader.namedStatement name (t :: us))) := by
  obtain ⟨left, hset, hle⟩ := exists_setItem_eq_none name (itemTarget?_eq_none_of_assignment? h us)
  have hexpr := orElse_eq_of_left_le hset (Nat.le_trans (left_map_le _ Stmt.expr _) hle)
  have hname : Agrees never (.identifier name :: t :: us)
      ((Stmt.expr <$> expr) (.identifier name :: t :: us))
      (.ok (.expr (.name name), t :: us)) := by
    have hread := (readsExpr_expr (.identifier name :: t :: us)).agrees
    rw [plain_expr_assigned name h] at hread
    exact hread.never_of_ok.map Stmt.expr
  have hvalue := (agrees_expr us).map (Stmt.assign name op)
  rw [← Reader.plain_namedStatement_assign h] at hvalue
  have hassign : Agrees Stray (.identifier name :: t :: us)
      (assignment (.identifier name :: t :: us)) (plain (Reader.namedStatement name (t :: us))) :=
    .bind_of_ok (agrees_name name _) (.take_bind h hvalue)
  apply hassign.orElse_cut (hexpr ▸ hname) (stray_of_assignment? h us) (Nat.le_succ _)
  intro stuck hstuck
  exact Nat.le_succ_of_le (Agrees.length_le (hstuck ▸ hvalue))

/-- A name with an index and an equals sign behind it are tried as an assignment to an item, and are
an expression otherwise. -/
theorem agrees_setItem (name : String) {us : List Token} {index : Expr}
    (h : ExprRule.or.Derives us index) (rest : List Token) :
    Agrees Stray (.identifier name :: Reader.assignedItem us rest)
      ((setItem <|> Stmt.expr <$> expr) (.identifier name :: Reader.assignedItem us rest))
      (plain (Reader.expr rest) >>= fun (value, rest) =>
        .ok (.setItem name index value, rest)) := by
  have hread := h.plain_expr (Reader.parted_close (.inr rfl) (.symbol .assign :: rest))
  have hindex : Agrees never (Reader.assignedItem us rest)
      (between .openBracket .closeBracket expr (Reader.assignedItem us rest))
      (.ok (index, .symbol .assign :: rest)) :=
    agrees_between (.bind_of_ok (hread ▸ (readsExpr_expr _).agrees)
      (.bind_of_ok (agrees_sign .closeBracket _) (.done _ _)))
  have hvalue := (agrees_expr rest).map (Stmt.setItem name index)
  have hset : Agrees Stray (.identifier name :: Reader.assignedItem us rest)
      (setItem (.identifier name :: Reader.assignedItem us rest))
      (plain (Reader.expr rest) >>= fun (value, rest) =>
        .ok (.setItem name index value, rest)) :=
    .bind_of_ok (agrees_name name _)
      (hindex.bind_of_ok (.bind_of_ok (agrees_sign .assign _) hvalue))
  have hname : Agrees never (.identifier name :: Reader.assignedItem us rest)
      ((Stmt.expr <$> expr) (.identifier name :: Reader.assignedItem us rest))
      (.ok (.expr (.index (.name name) index), .symbol .assign :: rest)) := by
    have hexpr := (readsExpr_expr (.identifier name :: Reader.assignedItem us rest)).agrees
    rw [Reader.plain_expr_assignedItem name h] at hexpr
    exact hexpr.never_of_ok.map Stmt.expr
  apply hset.orElse_cut hname rfl
  · simp [Reader.assignedItem]
    omega
  · intro stuck hstuck
    exact Nat.le_succ_of_le (Agrees.length_le (hstuck ▸ hvalue))

/-- The alternatives for a statement that starts with a name. -/
theorem agrees_named (name : String) (us : List Token) :
    Agrees Stray (.identifier name :: us)
      ((assignment <|> setItem <|> Stmt.expr <$> expr) (.identifier name :: us))
      (plain (Reader.namedStatement name us)) := by
  rcases hsign : us.head?.bind Reader.assignment? with _ | op
  · have hassign := assignment_eq_none name hsign
    rcases htarget : Reader.itemTarget? us with _ | ⟨index, rest, hlt⟩
    · obtain ⟨left, hset, hle⟩ := exists_setItem_eq_none name htarget
      have hbare := left_map_le expr Stmt.expr (.identifier name :: us)
      have hexpr := orElse_eq_of_left_le hset (Nat.le_trans hbare hle)
      have hfront :
          ((setItem <|> Stmt.expr <$> expr) (.identifier name :: us)).left ≤ us.length := by
        rw [hexpr]
        exact Nat.le_trans hbare (left_namedExpr_le name us)
      rw [orElse_eq_of_left_le hassign hfront, hexpr,
        Reader.plain_namedStatement_expr hsign htarget]
      exact agrees_bareExpr _
    · have hfront := Nat.le_trans (left_orElse_le_left setItem (Stmt.expr <$> expr) _)
        (left_setItem_le name us)
      rw [orElse_eq_of_left_le hassign hfront,
        Reader.plain_namedStatement_setItem hsign htarget]
      obtain ⟨vs, hvs, hd⟩ := Reader.exists_assignedItem htarget
      dsimp only at hvs ⊢
      rw [hvs]
      exact agrees_setItem name hd rest
  · cases us with
    | nil => cases hsign
    | cons t vs => exact agrees_assigned name hsign vs

/-! ### Alternatives of a statement -/

/-- An identifier is refused where none is next. -/
theorem refuses_identifier (h : ∀ name, ts.head? ≠ some (.identifier name)) :
    Refuses identifier ts := by
  apply refuses_take
  rcases ts with _ | ⟨t, us⟩
  · rfl
  · cases t with
    | identifier name => exact absurd rfl (h name)
    | _ => rfl

/-- An expression is refused where none starts. -/
theorem refuses_expr (h : ts.head?.any Token.startsExpr = false) : Refuses expr ts :=
  (readsExpr_expr ts).refuses h

/-- A statement with a variable or an expression is refused where no expression starts. -/
theorem refuses_named (h : ts.head?.any Token.startsExpr = false) :
    Refuses (assignment <|> setItem <|> Stmt.expr <$> expr) ts := by
  have hname : Refuses identifier ts := refuses_identifier fun _ => head?_ne_of_any h rfl
  exact (hname.bind _).orElse ((hname.bind _).orElse ((refuses_expr h).map _))

/-- A keyword by itself is a statement. -/
theorem agrees_keyword (word : Keyword) (statement : Stmt) (us : List Token) :
    Agrees Stray (.keyword word :: us)
      (((fun _ => statement) <$> keyword word) (.keyword word :: us)) (.ok (statement, us)) :=
  .take_bind (if_pos (beq_self_eq_true word)) (.done _ _)

/-- Simple statements are read as the readers read them. -/
theorem agrees_simpleStatement (ts : List Token) :
    Agrees Stray ts (simpleStatement ts) (plain (Reader.simpleStatement ts)) := by
  by_cases hpass : ts.head? = some (.keyword .pass)
  · obtain ⟨us, rfl⟩ := List.head?_eq_some_iff.mp hpass
    rw [Reader.plain_simpleStatement_pass]
    exact (agrees_keyword .pass .pass us).orElse_read
  apply Agrees.orElse_right ((refuses_keyword hpass).map _)
  by_cases hleave : ts.head? = some (.keyword .leave)
  · obtain ⟨us, rfl⟩ := List.head?_eq_some_iff.mp hleave
    rw [Reader.plain_simpleStatement_leave]
    exact (agrees_keyword .leave .leave us).orElse_read
  apply Agrees.orElse_right ((refuses_keyword hleave).map _)
  by_cases hnext : ts.head? = some (.keyword .next)
  · obtain ⟨us, rfl⟩ := List.head?_eq_some_iff.mp hnext
    rw [Reader.plain_simpleStatement_next]
    exact (agrees_keyword .next .next us).orElse_read
  apply Agrees.orElse_right ((refuses_keyword hnext).map _)
  by_cases hback : ts.head? = some (.keyword .giveBack)
  · obtain ⟨us, rfl⟩ := List.head?_eq_some_iff.mp hback
    rw [Reader.plain_simpleStatement_giveBack]
    exact (agrees_giveBack us).orElse_left (refuses_named rfl)
  apply Agrees.orElse_right ((refuses_keyword hback).bind _)
  by_cases hname : ∃ name, ts.head? = some (.identifier name)
  · obtain ⟨name, hname⟩ := hname
    obtain ⟨us, rfl⟩ := List.head?_eq_some_iff.mp hname
    rw [Reader.plain_simpleStatement_name]
    exact agrees_named name us
  · have hidentifier : Refuses identifier ts := refuses_identifier (not_exists.mp hname)
    have hleads : ts.head?.any Reader.leadsStatement = false := by
      unfold Reader.leadsStatement
      rcases ts with _ | ⟨t, us⟩
      · rfl
      · dsimp only [List.head?_cons, Option.any_some]
        split
        · exact absurd rfl hpass
        · exact absurd rfl hleave
        · exact absurd rfl hnext
        · exact absurd rfl hback
        · exact absurd ⟨_, rfl⟩ hname
        · rfl
    rw [Reader.plain_simpleStatement_expr hleads]
    apply Agrees.orElse_right (hidentifier.bind _)
    exact Agrees.orElse_right (hidentifier.bind _) (agrees_bareExpr ts)

/-- A simple statement is refused where none starts. -/
theorem refuses_simpleStatement (h : ts.head?.any Token.startsSimple = false) :
    Refuses simpleStatement ts :=
  ((refuses_keyword (head?_ne_of_any h rfl)).map _).orElse <|
    ((refuses_keyword (head?_ne_of_any h rfl)).map _).orElse <|
      ((refuses_keyword (head?_ne_of_any h rfl)).map _).orElse <|
        ((refuses_keyword (head?_ne_of_any h rfl)).bind _).orElse <|
          refuses_named (any_eq_false_of_imp Token.startsSimple_of_startsExpr h)

/-! ### Lines of simple statements -/

/-- What the readers take for simple statements up to a newline, if there are any. -/
def statementsReading : List Token → Except (List Token) (List Stmt × List Token)
  | .newline :: us => .ok ([], us)
  | us => plain (Reader.simpleLine us)

/-- What the readers do behind a simple statement. -/
def nextStatements (first : Stmt) : List Token → Except (List Token) (List Stmt × List Token)
  | .newline :: us => .ok ([first], us)
  | .symbol .semicolon :: us =>
    statementsReading us >>= fun (others, rest) => .ok (first :: others, rest)
  | us => .error us

/-- The reader of a line reads a simple statement, and goes on behind it. -/
theorem plain_simpleLine_eq (ts : List Token) :
    plain (Reader.simpleLine ts) =
      plain (Reader.simpleStatement ts) >>= fun (first, rest) => nextStatements first rest := by
  rw [Reader.plain_simpleLine]
  congr 1
  funext ⟨first, rest⟩
  dsimp only
  split
  · rfl
  · rfl
  · next us hus =>
    rw [nextStatements, statementsReading]
    exact fun vs hvs => hus vs hvs
  · next hnewline _ hsemicolon =>
    rw [nextStatements]
    · exact hnewline
    · exact hsemicolon

/-- The reader of a line reads simple statements with semicolons between them. -/
theorem readsSeparated_simpleLine :
    ReadsSeparated (isSymbol .semicolon) Reader.isNewline
      (fun us => plain (Reader.simpleStatement us)) nextStatements statementsReading where
  all_close := by
    intro t us ht
    cases t with
    | newline => rfl
    | _ => cases ht
  all_item := by
    intro us hus
    rw [statementsReading, plain_simpleLine_eq]
    rintro vs rfl
    cases hus
  next_close := by
    intro first t us ht
    cases t with
    | newline => rfl
    | _ => cases ht
  next_separator := by
    intro first s us hs
    rw [isSymbol_eq_true_iff] at hs
    subst hs
    rfl
  next_other := by
    intro first us hs hc
    rw [any_isSymbol_eq_false_iff] at hs
    rw [nextStatements]
    · rintro vs rfl
      cases hc
    · rintro vs rfl
      exact hs rfl

/-- A line of simple statements is read as the readers read it. -/
theorem agrees_simpleLine (ts : List Token) :
    Agrees never ts (simpleLine ts) (plain (Reader.simpleLine ts)) := by
  rw [plain_simpleLine_eq]
  apply agrees_separated1 readsSeparated_simpleLine (fun us _ => agrees_simpleStatement us)
    Reader.bound_of_plain _ _ (Nat.le_refl _)
  · intro us _ hus
    apply refuses_simpleStatement
    obtain ⟨t, vs, rfl, ht⟩ := exists_cons_of_any hus
    cases t with
    | newline => rfl
    | _ => cases ht
  · intro us hus
    refine ⟨any_isSymbol_eq_false_iff.mpr (hus.head?_ne rfl), ?_⟩
    have hnewline : us.head? ≠ some .newline := hus.head?_ne rfl
    rcases us with _ | ⟨t, vs⟩
    · rfl
    · cases t with
      | newline => exact absurd rfl hnewline
      | _ => rfl

/-- A line of simple statements is refused where none starts. -/
theorem refuses_simpleLine (h : ts.head?.any Token.startsSimple = false) :
    Refuses simpleLine ts :=
  Refuses.bind (Refuses.bind (refuses_simpleStatement h) _) _

end ScriptShell.Peg
