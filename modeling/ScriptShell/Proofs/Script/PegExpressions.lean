import ScriptShell.Proofs.Script.Completeness
import ScriptShell.Proofs.Script.PegReading

/-!
# Expressions as parsing expressions

The expressions that the grammar with ordered alternatives reads are those of the readers, and where
a reader is stuck, the grammar failed furthest at the same tokens. An expression that is cut short
is followed by a token that goes on after an expression, and by none that joins looser than the
rule at hand: so no rule around it takes that token either.
-/

namespace ScriptShell.Peg

open Reader (plain plain_expr Level)

variable {α : Type} {ts rest : List Token}

/-! ### Tokens -/

theorem isSymbol_eq_true_iff {sign : Symbol} {t : Token} :
    isSymbol sign t = true ↔ t = .symbol sign := by
  cases t <;> simp [isSymbol]

theorem isKeyword_eq_true_iff {word : Keyword} {t : Token} :
    isKeyword word t = true ↔ t = .keyword word := by
  cases t <;> simp [isKeyword]

theorem any_isSymbol_eq_true_iff {sign : Symbol} :
    ts.head?.any (isSymbol sign) = true ↔ ts.head? = some (.symbol sign) := by
  cases ts <;> simp [isSymbol_eq_true_iff]

/-- Two ways to say that a symbol is not next. -/
theorem any_isSymbol_eq_false_iff {sign : Symbol} :
    ts.head?.any (isSymbol sign) = false ↔ ts.head? ≠ some (.symbol sign) := by
  rw [← Bool.not_eq_true, any_isSymbol_eq_true_iff]

/-- A symbol is refused where it is not next. -/
theorem refuses_symbol {sign : Symbol} (h : ts.head? ≠ some (.symbol sign)) :
    Refuses (symbol sign) ts :=
  refuses_one (any_isSymbol_eq_false_iff.mpr h)

/-- A keyword is refused where it is not next. -/
theorem refuses_keyword {word : Keyword} (h : ts.head? ≠ some (.keyword word)) :
    Refuses (keyword word) ts := by
  apply refuses_one
  cases ts with
  | nil => rfl
  | cons t ts => simpa [← Bool.not_eq_true, isKeyword_eq_true_iff] using h

theorem refuses_newline (h : ts.head? ≠ some .newline) : Refuses newline ts :=
  refuses_one_of_head?_ne (fun u hu => by cases u <;> first | rfl | cases hu) h

theorem refuses_indent (h : ts.head? ≠ some .indent) : Refuses indent ts :=
  refuses_one_of_head?_ne (fun u hu => by cases u <;> first | rfl | cases hu) h

theorem refuses_dedent (h : ts.head? ≠ some .dedent) : Refuses dedent ts :=
  refuses_one_of_head?_ne (fun u hu => by cases u <;> first | rfl | cases hu) h

/-- One token of a kind is read as the readers read it. -/
theorem agrees_one (kind : Token → Bool) (ts : List Token) :
    Agrees never ts (one kind ts) (plain (Reader.exactly kind ts)) := by
  cases ts with
  | nil => exact .stuck (Nat.le_refl _)
  | cons t ts =>
    by_cases h : kind t = true
    · rw [one_of_true h, Reader.plain_exactly h]
      exact .read (Nat.le_succ _) (Nat.le_refl _)
    · have hread : Reader.exactly kind (t :: ts) = .error (t :: ts) := by
        rw [Reader.exactly, if_neg h]
      have hrefuses : Refuses (one kind) (t :: ts) := refuses_one (by simpa using h)
      rw [hread]
      exact hrefuses.agrees

/-- The same with the kind spelt as the reader spells it. -/
theorem agrees_one_of_eq {kind kind' : Token → Bool} (h : ∀ t, kind t = kind' t) (ts : List Token) :
    Agrees never ts (one kind ts) (plain (Reader.exactly kind' ts)) := by
  rw [← funext h]
  exact agrees_one kind ts

/-- A symbol is read as the readers read it. -/
theorem agrees_symbol (sign : Symbol) (ts : List Token) :
    Agrees never ts (symbol sign ts) (plain (Reader.symbol sign ts)) := by
  have heq : Reader.symbol sign ts = Reader.exactly (isSymbol sign) ts := by
    unfold Reader.symbol
    congr
  rw [heq]
  exact agrees_one _ ts

/-- A symbol that is next is read. -/
theorem agrees_sign (sign : Symbol) (us : List Token) :
    Agrees never (.symbol sign :: us) (symbol sign (.symbol sign :: us)) (.ok ((), us)) := by
  rw [← Reader.plain_symbol_self]
  exact agrees_symbol sign _

/-- An identifier is read as the readers read it. -/
theorem agrees_identifier (ts : List Token) :
    Agrees never ts (identifier ts) (plain (Reader.identifier ts)) := by
  unfold Reader.identifier
  split
  · exact .read (Nat.le_succ _) (Nat.le_refl _)
  · next h =>
    have hrefuses : Refuses identifier ts := by
      apply refuses_take
      cases ts with
      | nil => rfl
      | cons t ts =>
        cases t
        all_goals first
          | rfl
          | exact (h _ _ rfl).elim
    exact hrefuses.agrees

/-- An identifier that is next is read. -/
theorem agrees_name (name : String) (us : List Token) :
    Agrees never (.identifier name :: us) (identifier (.identifier name :: us)) (.ok (name, us)) :=
  agrees_identifier _

/-! ### Tokens that go on -/

/-- The next token goes on after what was read, and joins it no looser than `n`. -/
def Continues (n : Nat) (ts : List Token) : Prop := ¬Parted n ts

theorem Continues.cons {n : Nat} {t : Token} (h : t.looseness ≤ n) (us : List Token) :
    Continues n (t :: us) := fun hparted => Nat.not_lt.mpr h (hparted t rfl)

/-- What goes on after a tight part goes on after a loose one. -/
theorem Continues.mono {m n : Nat} (h : Continues m ts) (hmn : m ≤ n) : Continues n ts :=
  fun hparted => h (hparted.mono hmn)

/-- What may be cut short of a tight part may be cut short of a loose one. -/
theorem Agrees.looser {m n : Nat} {attempt : Attempt α}
    {r : Except (List Token) (α × List Token)} (h : Agrees (Continues m) ts attempt r)
    (hmn : m ≤ n) : Agrees (Continues n) ts attempt r :=
  h.mono fun _ hus => hus.mono hmn

/-- A token that goes on after a part is none that joins looser. -/
theorem Continues.head?_ne {n : Nat} (h : Continues n ts) {t : Token} (ht : n < t.looseness) :
    ts.head? ≠ some t := by
  intro hts
  obtain ⟨us, rfl⟩ := List.head?_eq_some_iff.mp hts
  exact h (.cons ht us)

/-- Something goes on only where a token is left. -/
theorem Continues.ne_nil {n : Nat} (h : Continues n ts) : ts ≠ [] := by
  rintro rfl
  apply h
  rintro t ⟨⟩

/-- Such a token is not a symbol that joins looser. -/
theorem Continues.any_isSymbol {n : Nat} (h : Continues n ts) {sign : Symbol}
    (ht : n < (Token.symbol sign).looseness) : ts.head?.any (isSymbol sign) = false :=
  any_isSymbol_eq_false_iff.mpr (h.head?_ne ht)

/-- A token that goes on after an operand is no looser operator. -/
theorem Continues.operator?_eq_none {n : Nat} {level : Level} (h : Continues n ts)
    (hn : n < level.looseness) : ts.head?.bind level.operator? = none := by
  rcases ts with _ | ⟨t, us⟩
  · rfl
  rcases hop : level.operator? t with _ | build
  · exact hop
  · rw [← Level.looseness_of_operator? hop] at hn
    exact absurd (.cons hn us) h

/-- A token that goes on after a sum is no comparison. -/
theorem Continues.comparison?_eq_none {n : Nat} (h : Continues n ts) (hn : n < 5) :
    ts.head?.bind Reader.comparison? = none := by
  rcases ts with _ | ⟨t, us⟩
  · rfl
  rcases hop : Reader.comparison? t with _ | op
  · exact hop
  · rw [← Reader.looseness_of_comparison? hop] at hn
    exact absurd (.cons hn us) h

/-! ### Chains -/

section Chain

variable (level : Level) {operand : Peg Expr} {n k : Nat}
  (hoperand : ∀ us, us.length ≤ n →
    Agrees (Continues k) us (operand us) (plain (Reader.operand level us)))
  (hk : k < level.looseness)

include hoperand in
/-- An operator of a level and its operand make one step of a chain. -/
theorem stepsLike_chainTail (ts : List Token) (hts : ts.length ≤ n) :
    StepsLike (Continues k) (Continues level.looseness) (further level operand)
      (fun left us => plain (Reader.chainTail level left us)) ts := by
  rcases ts with _ | ⟨t, us⟩
  · exact .stops ((refuses_take rfl).bind _) fun left => Reader.plain_chainTail_nil level left
  rcases hop : level.operator? t with _ | build
  · have hnone : (t :: us).head?.bind level.operator? = none := hop
    exact .stops ((refuses_take hnone).bind _) fun left =>
      Reader.plain_chainTail_of_none hop left us
  · have hle : us.length ≤ n := Nat.le_of_succ_le hts
    refine .goesOn (.cons (Nat.le_of_eq (Level.looseness_of_operator? hop)) us)
      (plain (Reader.operand level us) >>= fun right =>
        .ok (fun left => build left right.1, right.2))
      (.take_bind hop ((hoperand us hle).map _)) ?_ ?_
    · intro more rest hmore
      obtain ⟨right, rest', hright, hmore⟩ := Reader.exists_of_bind hmore
      cases hmore
      exact Nat.lt_succ_of_lt (Reader.bound_of_plain hright)
    · intro left
      rw [Reader.plain_chainTail_of_some hop, bind_assoc]
      rfl

include hoperand hk in
/-- Operands with the operators of a level between them. -/
theorem agrees_chain (hts : ts.length ≤ n) :
    Agrees (Continues level.looseness) ts (chain level operand ts)
      (plain (Reader.chain level ts)) := by
  have hrefuses : ∀ us, Continues k us →
      Refuses (further level operand) us ∧ Continues level.looseness us := fun us hus =>
    ⟨(refuses_take (hus.operator?_eq_none hk)).bind _, hus.mono (Nat.le_of_lt hk)⟩
  rw [Reader.plain_chain]
  apply (hoperand ts hts).bind
  · intro left rest _ hrest
    exact agrees_grown (stepsLike_chainTail level hoperand) hrefuses left (Nat.le_trans hrest hts)
  · intro left us hus
    obtain ⟨hnone, hus'⟩ := hrefuses us hus
    exact idles_grown hnone hus' left

end Chain

/-! ### Comparisons and powers -/

section Comparison

variable {sum : Peg Expr} {n : Nat}
  (hsum : ∀ us, us.length ≤ n →
    Agrees (Continues 4) us (sum us) (plain (Reader.chain .sum us)))

include hsum in
/-- A comparison is read as the readers read it, and may be cut short before its sign. -/
theorem agrees_comparison (hts : ts.length ≤ n) :
    Agrees (Continues 5) ts (comparison sum ts) (plain (Reader.comparison ts)) := by
  rw [Reader.plain_comparison]
  apply (hsum ts hts).bind
  · intro left rest _ hrest
    dsimp only
    rcases rest with _ | ⟨t, us⟩
    · exact Agrees.optional_right ((refuses_take rfl).bind _) (.done _ _)
    dsimp only
    rcases hop : Reader.comparison? t with _ | op
    · have hnone : (t :: us).head?.bind Reader.comparison? = none := hop
      exact Agrees.optional_right ((refuses_take hnone).bind _) (.done _ _)
    · have hus : us.length ≤ n := Nat.le_trans (Nat.le_of_succ_le hrest) hts
      have hcontinues : Continues 5 (t :: us) :=
        .cons (Nat.le_of_eq (Reader.looseness_of_comparison? hop)) us
      have hother : Agrees (Continues 5) (t :: us) ((do
          let op ← take Reader.comparison?
          let right ← sum
          return (op, right)) (t :: us)) (plain (Reader.chain .sum us) >>= fun right =>
            .ok ((op, right.1), right.2)) :=
        .take_bind hop (((hsum us hus).looser (by omega)).map _)
      have hwhole := hother.optional_map hcontinues (compared left)
      rw [bind_assoc] at hwhole
      exact hwhole
  · intro left us hus
    exact idles_optional ((refuses_take (hus.comparison?_eq_none (by omega))).bind _)
      (hus.mono (by omega)) _

end Comparison

section Power

variable {e unary : Peg Expr} {n : Nat}
  (hpostfixed : ∀ us, us.length ≤ n →
    Agrees (Continues 1) us (postfixed e us) (plain (Reader.postfixed us)))
  (hunary : ∀ us, us.length < n → Agrees (Continues 2) us (unary us) (plain (Reader.unary us)))

include hpostfixed hunary in
/-- A power is read as the readers read it, and may be cut short before its sign. -/
theorem agrees_power (hts : ts.length ≤ n) :
    Agrees (Continues 2) ts (power e unary ts) (plain (Reader.power ts)) := by
  rw [Reader.plain_power]
  apply (hpostfixed ts hts).bind
  · intro base rest _ hrest
    by_cases hpower : rest.head? = some (.symbol .power)
    · obtain ⟨us, rfl⟩ := List.head?_eq_some_iff.mp hpower
      have hus : us.length < n := Nat.le_trans hrest hts
      have hexponent : Agrees (Continues 2) (.symbol .power :: us)
          ((symbol .power >>= fun _ => unary) (.symbol .power :: us)) (plain (Reader.unary us)) :=
        .take_bind rfl (hunary us hus)
      exact hexponent.optional_map (.cons (by decide) us) _
    · apply Agrees.optional_right ((refuses_symbol hpower).bind _)
      dsimp only
      split
      · exact absurd rfl hpower
      · exact .done _ _
  · intro base us hus
    have hpower : us.head? ≠ some (.symbol .power) := hus.head?_ne (by decide)
    exact idles_optional ((refuses_symbol hpower).bind _) (hus.mono (by omega)) _

end Power

/-! ### Brackets -/

/-- Something with a bracket behind it. -/
theorem agrees_upTo {dead : List Token → Prop} {p : Peg α} {closing : Symbol}
    {r : Except (List Token) (α × List Token)} (hp : Agrees dead ts (p ts) r)
    (hdead : ∀ us, dead us → us.head? ≠ some (.symbol closing)) :
    Agrees never ts (upTo closing p ts)
      (r >>= fun (a, rest) => plain (Reader.symbol closing rest) >>= fun (_, rest) =>
        .ok (a, rest)) :=
  hp.bind (fun _ rest _ _ => (agrees_symbol closing rest).bind_whole fun _ _ _ => .done _ _)
    fun _ us hus => .inl ((refuses_symbol (hdead us hus)).bind _)

/-- Something between two brackets. -/
theorem agrees_between {dead : List Token → Prop} {p : Peg α} {opening closing : Symbol}
    {us : List Token} {r : Except (List Token) (α × List Token)}
    (h : Agrees never us (upTo closing p us) r) :
    Agrees dead (.symbol opening :: us) (between opening closing p (.symbol opening :: us)) r :=
  .take_bind (if_pos (beq_self_eq_true opening)) h.of_never

/-- Something in brackets is refused where the first bracket is not next. -/
theorem refuses_between {opening : Symbol} (h : ts.head? ≠ some (.symbol opening))
    (closing : Symbol) (p : Peg α) : Refuses (between opening closing p) ts :=
  (refuses_symbol h).bind _

/-- How an attempt compares to reading an expression. -/
structure ReadsExpr (ts : List Token) (attempt : Attempt Expr) : Prop where
  agrees : Agrees (Continues 7) ts attempt (plain (Reader.expr ts))
  refuses : ts.head?.any Token.startsExpr = false → attempt = ⟨none, ts.length⟩

section Brackets

variable {e : Peg Expr} {n : Nat} (he : ∀ us, us.length < n → ReadsExpr us (e us))

/-- No expression starts with a bracket that closes. -/
theorem ReadsExpr.refuses_close {attempt : Attempt Expr} {close : Symbol}
    (h : ReadsExpr ts attempt) (hclose : (Token.symbol close).startsExpr = false)
    (hts : ts.head?.any (isSymbol close) = true) : attempt = ⟨none, ts.length⟩ := by
  apply h.refuses
  rw [any_isSymbol_eq_true_iff] at hts
  rw [hts]
  exact hclose

/-- What the readers do behind an item. -/
def nextItems (close : Symbol) (first : Expr) :
    List Token → Except (List Token) (List Expr × List Token)
  | .symbol sign :: rest =>
    if sign = close then .ok ([first], rest)
    else if sign = .comma then
      plain (Reader.items close rest) >>= fun (others, rest) => .ok (first :: others, rest)
    else .error (.symbol sign :: rest)
  | rest => .error rest

/-- The reader of items reads expressions with commas between them. -/
theorem readsSeparated_items {close : Symbol} (hcomma : close ≠ .comma) :
    ReadsSeparated (isSymbol .comma) (isSymbol close) (fun us => plain (Reader.expr us))
      (nextItems close) (fun us => plain (Reader.items close us)) where
  all_close := by
    intro t us ht
    rw [isSymbol_eq_true_iff] at ht
    rw [ht, Reader.plain_items_close]
  all_item := by
    intro us hc
    rw [any_isSymbol_eq_false_iff] at hc
    rw [Reader.plain_items_of_head?_ne hc, Reader.plain_itemsFrom]
    rfl
  next_close := by
    intro first t us ht
    rw [isSymbol_eq_true_iff] at ht
    subst ht
    exact if_pos rfl
  next_separator := by
    intro first s us hs
    rw [isSymbol_eq_true_iff] at hs
    subst hs
    rw [nextItems, if_neg hcomma.symm, if_pos rfl]
  next_other := by
    intro first us hs hc
    rw [any_isSymbol_eq_false_iff] at hs hc
    unfold nextItems
    split
    · next sign us =>
      have hsign : sign ≠ close := fun heq => hc (congrArg (some ∘ Token.symbol) heq)
      have hcomma : sign ≠ .comma := fun heq => hs (congrArg (some ∘ Token.symbol) heq)
      rw [if_neg hsign, if_neg hcomma]
    · rfl

include he in
/-- Expressions with commas between them, up to a closing bracket. -/
theorem agrees_items {close : Symbol} (hclose : (Token.symbol close).startsExpr = false)
    (hcomma : close ≠ .comma) (hlooseness : 7 < (Token.symbol close).looseness)
    (hts : ts.length < n) :
    Agrees never ts (upTo close (items e) ts) (plain (Reader.items close ts)) :=
  agrees_separated (readsSeparated_items hcomma) (fun us hus => (he us (by omega)).agrees)
    Reader.bound_of_plain (fun us hus hc => (he us (by omega)).refuses_close hclose hc)
    (fun _ hus => ⟨hus.any_isSymbol (by decide), hus.any_isSymbol hlooseness⟩) (Nat.le_refl _)

/-- What is read of a key and its value. -/
def pairReading (ts : List Token) : Except (List Token) ((Expr × Expr) × List Token) :=
  plain (Reader.expr ts) >>= fun (key, rest) =>
    plain (Reader.symbol .colon rest) >>= fun (_, rest) =>
      plain (Reader.expr rest) >>= fun (value, rest) => .ok ((key, value), rest)

/-- What the readers do behind a pair. -/
def nextPairs (first : Expr × Expr) :
    List Token → Except (List Token) (List (Expr × Expr) × List Token)
  | .symbol .closeBrace :: rest => .ok ([first], rest)
  | .symbol .comma :: rest =>
    plain (Reader.pairs rest) >>= fun (others, rest) => .ok (first :: others, rest)
  | rest => .error rest

/-- The reader of pairs reads a pair, and goes on behind it. -/
theorem plain_pairsFrom_eq (ts : List Token) :
    plain (Reader.pairsFrom ts) = pairReading ts >>= fun (first, rest) => nextPairs first rest := by
  rw [Reader.plain_pairsFrom, pairReading, bind_assoc]
  congr 1
  funext ⟨key, rest⟩
  dsimp only
  by_cases hcolon : rest.head? = some (.symbol .colon)
  · obtain ⟨us, rfl⟩ := List.head?_eq_some_iff.mp hcolon
    rw [Reader.plain_symbol_self, Reader.ok_bind, bind_assoc]
    rfl
  · rw [Reader.plain_symbol_of_ne hcolon]
    split
    · exact absurd rfl hcolon
    · rfl

/-- The reader of pairs reads pairs with commas between them. -/
theorem readsSeparated_pairs :
    ReadsSeparated (isSymbol .comma) (isSymbol .closeBrace) pairReading nextPairs
      (fun us => plain (Reader.pairs us)) where
  all_close := by
    intro t us ht
    rw [isSymbol_eq_true_iff] at ht
    rw [ht, Reader.plain_pairs_close]
  all_item := by
    intro us hc
    rw [any_isSymbol_eq_false_iff] at hc
    rw [Reader.plain_pairs_of_ne hc, plain_pairsFrom_eq]
  next_close := by
    intro first t us ht
    rw [isSymbol_eq_true_iff] at ht
    subst ht
    rfl
  next_separator := by
    intro first s us hs
    rw [isSymbol_eq_true_iff] at hs
    subst hs
    rfl
  next_other := by
    intro first us hs hc
    rw [any_isSymbol_eq_false_iff] at hs hc
    unfold nextPairs
    split
    · exact absurd rfl hc
    · exact absurd rfl hs
    · rfl

/-- A pair takes tokens. -/
theorem length_lt_of_pairReading {us : List Token} {a : Expr × Expr}
    (h : pairReading us = .ok (a, rest)) : rest.length < us.length := by
  obtain ⟨key, us₁, hkey, h⟩ := Reader.exists_of_bind h
  obtain ⟨_, us₂, hcolon, h⟩ := Reader.exists_of_bind h
  obtain ⟨value, us₃, hvalue, h⟩ := Reader.exists_of_bind h
  cases h
  have h₁ := Reader.bound_of_plain hkey
  have h₂ := Reader.bound_of_plain hcolon
  have h₃ := Reader.bound_of_plain hvalue
  omega

include he in
/-- A key and its value are read as the readers read them. -/
theorem agrees_pair (hts : ts.length < n) :
    Agrees (Continues 7) ts (pair e ts) (pairReading ts) := by
  apply (he ts hts).agrees.bind
  · intro key us _ hus
    refine (agrees_symbol .colon us).bind_whole fun _ vs hvs => ?_
    exact (he vs (by omega)).agrees.map _
  · intro key us hus
    exact .inl ((refuses_symbol (hus.head?_ne (by decide))).bind _)

include he in
/-- Pairs with commas between them, up to the closing brace. -/
theorem agrees_pairs (hts : ts.length < n) :
    Agrees never ts (upTo .closeBrace (separated (symbol .comma) (pair e)) ts)
      (plain (Reader.pairs ts)) :=
  agrees_separated readsSeparated_pairs (fun _ hus => agrees_pair he (by omega))
    length_lt_of_pairReading
    (fun us hus hc => Refuses.bind ((he us (by omega)).refuses_close rfl hc) _)
    (fun _ hus => ⟨hus.any_isSymbol (by decide), hus.any_isSymbol (by decide)⟩) (Nat.le_refl _)

/-! ### Atoms and what follows them -/

/-- A literal is refused where no atom starts. -/
theorem refuses_literal (h : ts.head?.any Token.startsAtom = false) : Refuses literal ts := by
  apply refuses_take
  rcases ts with _ | ⟨t, us⟩
  · rfl
  · cases t with
    | keyword word => cases word <;> first | rfl | cases h
    | integer | float | string => cases h
    | _ => rfl

/-- A token of a kind is not next where no token of the kind is. -/
theorem head?_ne_of_any {kind : Token → Bool} (h : ts.head?.any kind = false) {t : Token}
    (ht : kind t = true) : ts.head? ≠ some t := by
  intro hts
  rw [hts, Option.any_some, ht] at h
  cases h

/-- An atom is refused where none can start. -/
theorem refuses_atom (h : ts.head?.any Token.startsAtom = false) : Refuses (atom e) ts := by
  have hidentifier : Refuses identifier ts := by
    apply refuses_take
    rcases ts with _ | ⟨t, us⟩
    · rfl
    · cases t with
      | identifier => cases h
      | _ => rfl
  exact (refuses_literal h).orElse <| (hidentifier.map _).orElse <|
    (refuses_between (head?_ne_of_any h rfl) _ _).orElse <|
      ((refuses_between (head?_ne_of_any h rfl) _ _).map _).orElse <|
        (refuses_between (head?_ne_of_any h rfl) _ _).map _

/-- A token that is an expression by itself is an atom of both. -/
theorem agrees_atom_leaf {t : Token} {leaf : Expr} (h : Reader.leaf? t = some leaf)
    (us : List Token) : Agrees never (t :: us) (atom e (t :: us)) (.ok (leaf, us)) := by
  unfold Reader.leaf? at h
  split at h
  case h_7 name =>
    cases h
    have hname : Agrees never (.identifier name :: us)
        ((Expr.name <$> identifier) (.identifier name :: us)) (.ok (.name name, us)) :=
      .take_bind rfl (.done _ _)
    exact .orElse_right (refuses_take rfl) hname.orElse_read
  all_goals cases h
  all_goals exact .orElse_read (.read (Nat.le_succ _) (Nat.le_refl _))

/-- The reader of an atom in parentheses reads an expression and the closing one. -/
theorem plain_atom_paren_eq (us : List Token) :
    plain (Reader.atom (.symbol .openParen :: us)) = plain (Reader.expr us) >>= fun (inner, rest) =>
      plain (Reader.symbol .closeParen rest) >>= fun (_, rest) => .ok (inner, rest) := by
  rw [Reader.plain_atom_paren]
  congr 1
  funext ⟨inner, rest⟩
  dsimp only
  by_cases hclose : rest.head? = some (.symbol .closeParen)
  · obtain ⟨vs, rfl⟩ := List.head?_eq_some_iff.mp hclose
    rw [Reader.plain_symbol_self]
    rfl
  · rw [Reader.plain_symbol_of_ne hclose]
    split
    · exact absurd rfl hclose
    · rfl

include he in
/-- What starts with a bracket, or with nothing that is an atom. -/
theorem agrees_atom_bracket {t : Token} {us : List Token} (hleaf : Reader.leaf? t = none)
    (hus : us.length < n) :
    Agrees never (t :: us) (atom e (t :: us)) (plain (Reader.atom (t :: us))) := by
  have hliteral : Refuses literal (t :: us) := by
    apply refuses_take
    cases t with
    | keyword word => cases word <;> first | rfl | cases hleaf
    | integer | float | string | identifier => cases hleaf
    | _ => rfl
  have hname : Refuses (Expr.name <$> identifier) (t :: us) := by
    apply Refuses.map (refuses_take _)
    cases t with
    | identifier => cases hleaf
    | _ => rfl
  apply Agrees.orElse_right hliteral
  apply Agrees.orElse_right hname
  by_cases hparen : t = .symbol .openParen
  · subst hparen
    refine Agrees.orElse_left ?_ ((refuses_between (by simp) _ _).map _ |>.orElse
      ((refuses_between (by simp) _ _).map _))
    have hinner : Agrees never us (upTo .closeParen e us)
        (plain (Reader.atom (.symbol .openParen :: us))) := by
      rw [plain_atom_paren_eq]
      exact agrees_upTo (he us hus).agrees fun vs hvs => hvs.head?_ne (by decide)
    exact agrees_between hinner
  apply Agrees.orElse_right (refuses_between (by simpa using hparen) _ _)
  by_cases hbracket : t = .symbol .openBracket
  · subst hbracket
    rw [Reader.plain_atom_list]
    apply Agrees.orElse_left _ ((refuses_between (by simp) _ _).map _)
    exact (agrees_between (agrees_items he rfl (by decide) (by decide) hus)).map _
  apply Agrees.orElse_right ((refuses_between (by simpa using hbracket) _ _).map _)
  by_cases hbrace : t = .symbol .openBrace
  · subst hbrace
    rw [Reader.plain_atom_dict]
    exact (agrees_between (agrees_pairs he hus)).map _
  · rw [Reader.plain_atom_of_none hleaf hparen hbracket hbrace]
    exact ((refuses_between (by simpa using hbrace) _ _).map _).agrees

include he in
/-- Atoms are read as the readers read them, whole or not at all. -/
theorem agrees_atom (hts : ts.length ≤ n) :
    Agrees never ts (atom e ts) (plain (Reader.atom ts)) := by
  rcases ts with _ | ⟨t, us⟩
  · rw [Reader.plain_atom_nil]
    exact (refuses_atom rfl).agrees
  have hus : us.length < n := hts
  rcases hleaf : Reader.leaf? t with _ | leaf
  · exact agrees_atom_bracket he hleaf hus
  · rw [Reader.plain_atom_leaf hleaf]
    exact agrees_atom_leaf hleaf us

/-- A call or an index is refused where no bracket opens. -/
theorem refuses_postfixOp (hparen : ts.head? ≠ some (.symbol .openParen))
    (hbracket : ts.head? ≠ some (.symbol .openBracket)) : Refuses (postfixOp e) ts :=
  ((refuses_between hparen _ _).map _).orElse ((refuses_between hbracket _ _).map _)

/-- What the readers make of an index behind the opening bracket. -/
def indexReading (us : List Token) : Except (List Token) (Expr × List Token) :=
  plain (Reader.expr us) >>= fun (index, rest) =>
    plain (Reader.symbol .closeBracket rest) >>= fun (_, rest) => .ok (index, rest)

/-- The reader of an index goes on with the index made of it. -/
theorem plain_postfixTail_index_eq (target : Expr) (us : List Token) :
    plain (Reader.postfixTail target (.symbol .openBracket :: us)) =
      indexReading us >>= fun (index, rest) =>
        plain (Reader.postfixTail (.index target index) rest) := by
  rw [Reader.plain_postfixTail_index, indexReading, bind_assoc]
  congr 1
  funext ⟨index, rest⟩
  dsimp only
  by_cases hclose : rest.head? = some (.symbol .closeBracket)
  · obtain ⟨vs, rfl⟩ := List.head?_eq_some_iff.mp hclose
    rw [Reader.plain_symbol_self]
    rfl
  · rw [Reader.plain_symbol_of_ne hclose]
    split
    · exact absurd rfl hclose
    · rfl

/-- An index takes tokens. -/
theorem length_lt_of_indexReading {us : List Token} {index : Expr}
    (h : indexReading us = .ok (index, rest)) : rest.length < us.length := by
  obtain ⟨index', vs, hindex, h⟩ := Reader.exists_of_bind h
  obtain ⟨_, vs', hclose, h⟩ := Reader.exists_of_bind h
  cases h
  have h₁ := Reader.bound_of_plain hindex
  have h₂ := Reader.bound_of_plain hclose
  omega

include he in
/-- A call or an index makes one step of a postfix expression. -/
theorem stepsLike_postfixTail (ts : List Token) (hts : ts.length ≤ n) :
    StepsLike never (Continues 1) (postfixOp e)
      (fun target us => plain (Reader.postfixTail target us)) ts := by
  by_cases hparen : ts.head? = some (.symbol .openParen)
  · obtain ⟨us, rfl⟩ := List.head?_eq_some_iff.mp hparen
    have hus : us.length < n := hts
    refine .goesOn (.cons (by decide) us) (plain (Reader.items .closeParen us) >>=
      fun (args, rest) => .ok (fun target => .call target args, rest)) ?_ ?_ ?_
    · have hargs : Agrees never us (upTo .closeParen (items e) us)
          (plain (Reader.items .closeParen us)) :=
        agrees_items he rfl (by decide) (by decide) hus
      exact .orElse_left ((agrees_between hargs).map _) ((refuses_between (by simp) _ _).map _)
    · intro f rest hf
      obtain ⟨args, rest', hargs, hf⟩ := Reader.exists_of_bind hf
      cases hf
      exact Nat.lt_succ_of_lt (Reader.bound_of_plain hargs)
    · intro target
      rw [Reader.plain_postfixTail_call, bind_assoc]
      rfl
  by_cases hbracket : ts.head? = some (.symbol .openBracket)
  · obtain ⟨us, rfl⟩ := List.head?_eq_some_iff.mp hbracket
    have hus : us.length < n := hts
    refine .goesOn (.cons (by decide) us) (indexReading us >>=
      fun (index, rest) => .ok (fun target => .index target index, rest)) ?_ ?_ ?_
    · have hindex : Agrees never us (upTo .closeBracket e us) (indexReading us) :=
        agrees_upTo (he us hus).agrees fun vs hvs => hvs.head?_ne (by decide)
      exact .orElse_right ((refuses_between hparen _ _).map _) ((agrees_between hindex).map _)
    · intro f rest hf
      obtain ⟨index, rest', hindex, hf⟩ := Reader.exists_of_bind hf
      cases hf
      exact Nat.lt_succ_of_lt (length_lt_of_indexReading hindex)
    · intro target
      rw [plain_postfixTail_index_eq, bind_assoc]
      rfl
  · exact .stops (refuses_postfixOp hparen hbracket) fun target =>
      Reader.plain_postfixTail_of_ne target hparen hbracket

include he in
/-- An atom with calls and indexes is read as the readers read it, and may be cut short before a
bracket. -/
theorem agrees_postfixed (hts : ts.length ≤ n) :
    Agrees (Continues 1) ts (postfixed e ts) (plain (Reader.postfixed ts)) := by
  rw [Reader.plain_postfixed]
  refine (agrees_atom he hts).bind_whole fun target rest hrest => ?_
  exact agrees_grown (stepsLike_postfixTail he) (fun _ h => h.elim) target
    (Nat.le_trans hrest hts)

include he in
/-- A sign before an operand, or a power. -/
theorem agrees_unary (hts : ts.length ≤ n) :
    Agrees (Continues 2) ts (unary e ts) (plain (Reader.unary ts)) := by
  refine recursive_induction (motive := fun ts attempt =>
    Agrees (Continues 2) ts attempt (plain (Reader.unary ts)))
    (fun unary ts hts hunary => ?_) ts hts
  by_cases hminus : ts.head? = some (.symbol .minus)
  · obtain ⟨us, rfl⟩ := List.head?_eq_some_iff.mp hminus
    rw [Reader.plain_unary_minus]
    have hpower : Refuses (power e unary) (.symbol .minus :: us) :=
      Refuses.bind (Refuses.bind (refuses_atom rfl) _) _
    exact .orElse_left (.take_bind rfl ((hunary us (Nat.lt_succ_self _)).map _)) hpower
  · rw [Reader.plain_unary_of_ne hminus]
    apply Agrees.orElse_right ((refuses_symbol hminus).bind _)
    exact agrees_power (fun us hus => agrees_postfixed he (by omega)) hunary (Nat.le_refl _)

end Brackets

/-! ### Expressions -/

/-- A smaller class of first tokens is ruled out with a larger one. -/
theorem any_eq_false_of_imp {kind kind' : Token → Bool}
    (h : ∀ {t}, kind t = true → kind' t = true) (hts : ts.head?.any kind' = false) :
    ts.head?.any kind = false := by
  cases ts with
  | nil => rfl
  | cons t us =>
    have ht : kind' t = false := hts
    cases hk : kind t with
    | false => exact hk
    | true => rw [h hk] at ht; cases ht

/-- An operand is refused where no sum starts. -/
theorem refuses_unary {e : Peg Expr} (h : ts.head?.any Token.startsSum = false) :
    Refuses (unary e) ts := by
  have hatom := any_eq_false_of_imp Token.startsSum_of_startsAtom h
  exact refuses_recursive fun p =>
    ((refuses_symbol (head?_ne_of_any h rfl)).bind _).orElse
      (Refuses.bind (Refuses.bind (refuses_atom hatom) _) _)

section Negation

variable {sum : Peg Expr} {n : Nat}
  (hsum : ∀ us, us.length ≤ n →
    Agrees (Continues 4) us (sum us) (plain (Reader.chain .sum us)))
  (hrefuses : ∀ us, us.head?.any Token.startsSum = false → Refuses sum us)

include hrefuses in
/-- A negation or comparison is refused where no expression starts. -/
theorem refuses_negation (h : ts.head?.any Token.startsExpr = false) :
    Refuses (negation sum) ts := by
  have hts := any_eq_false_of_imp Token.startsExpr_of_startsSum h
  have hword : ts.head? ≠ some (.keyword .negation) := head?_ne_of_any h rfl
  exact refuses_recursive fun p =>
    ((refuses_keyword hword).bind _).orElse (Refuses.bind (hrefuses ts hts) _)

include hsum hrefuses in
/-- A negation, or a comparison. -/
theorem agrees_negation (hts : ts.length ≤ n) :
    Agrees (Continues 5) ts (negation sum ts) (plain (Reader.negation ts)) := by
  refine recursive_induction (motive := fun ts attempt =>
    Agrees (Continues 5) ts attempt (plain (Reader.negation ts)))
    (fun negation ts hts hnegation => ?_) ts hts
  by_cases hword : ts.head? = some (.keyword .negation)
  · obtain ⟨us, rfl⟩ := List.head?_eq_some_iff.mp hword
    rw [Reader.plain_negation_not]
    have hcomparison : Refuses (comparison sum) (.keyword .negation :: us) :=
      Refuses.bind (hrefuses _ rfl) _
    exact .orElse_left (.take_bind rfl ((hnegation us (Nat.lt_succ_self _)).map _)) hcomparison
  · rw [Reader.plain_negation_of_ne hword]
    exact .orElse_right ((refuses_keyword hword).bind _) (agrees_comparison hsum hts)

end Negation

section Levels

variable {e : Peg Expr} {n : Nat} (he : ∀ us, us.length < n → ReadsExpr us (e us))

include he in
/-- A chain of terms. -/
theorem agrees_sum (hts : ts.length ≤ n) :
    Agrees (Continues 4) ts (chain .sum (chain .term (unary e)) ts)
      (plain (Reader.chain .sum ts)) := by
  refine agrees_chain .sum (n := n) (k := 3) (fun us hus => ?_) (by decide) hts
  rw [Reader.plain_operand_sum]
  refine agrees_chain .term (n := n) (k := 2) (fun vs hvs => ?_) (by decide) hus
  rw [Reader.plain_operand_term]
  exact agrees_unary he hvs

/-- A sum is refused where none starts. -/
theorem refuses_sum (h : ts.head?.any Token.startsSum = false) :
    Refuses (chain .sum (chain .term (unary e))) ts :=
  Refuses.bind (Refuses.bind (refuses_unary h) _) _

include he in
/-- The rules of expressions, over what is read as an expression within one. -/
theorem readsExpr_chain (hts : ts.length ≤ n) :
    ReadsExpr ts (chain .or (chain .and (negation (chain .sum (chain .term (unary e))))) ts) where
  agrees := by
    rw [Reader.plain_expr]
    refine agrees_chain .or (n := n) (k := 6) (fun us hus => ?_) (by decide) hts
    rw [Reader.plain_operand_or]
    refine agrees_chain .and (n := n) (k := 5) (fun vs hvs => ?_) (by decide) hus
    rw [Reader.plain_operand_and]
    exact agrees_negation (fun ws hws => agrees_sum he hws) (fun _ hws => refuses_sum hws) hvs
  refuses := fun h =>
    Refuses.bind (Refuses.bind (refuses_negation (fun _ hus => refuses_sum hus) h) _) _

end Levels

/-- Expressions are read as the readers read them. -/
theorem readsExpr_expr (ts : List Token) : ReadsExpr ts (expr ts) := by
  refine recursive_induction (motive := ReadsExpr) (fun e ts _ he => ?_) ts (Nat.le_refl _)
  exact readsExpr_chain he (Nat.le_refl _)

end ScriptShell.Peg
