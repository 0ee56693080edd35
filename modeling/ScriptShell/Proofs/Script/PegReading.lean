import ScriptShell.Proofs.Script.PlainReading
import ScriptShell.Script.PegGrammar

/-!
# Parsing expressions against readers

A reader looks at one token and goes on; a parsing expression tries its alternatives in turn and
gives up quietly what does not go on. Both come to the same where they read the same, or where the
furthest failure of the parsing expression is at the tokens that stopped the reader. In the second
case the parsing expression may still have read something: an operator without an operand is left,
and what stands before it is taken. But then the tokens that it left do not go on, in the rules
around it, to anything.
-/

namespace ScriptShell.Peg

variable {α β γ : Type} {p q : Peg α} {ts rest : List Token}

/-! ### Trying -/

/-- What follows is not tried where the first thing fails. -/
theorem bind_of_none {left : Nat} (h : p ts = ⟨none, left⟩) (next : α → Peg β) :
    (p >>= next) ts = ⟨none, left⟩ := by
  change Peg.bind p next ts = _
  rw [Peg.bind, h]

/-- What follows is tried on the tokens that the first thing left, and the first thing's failures
stay known. -/
theorem bind_of_some {a : α} {left : Nat} (h : p ts = ⟨some (a, rest), left⟩)
    (next : α → Peg β) : (p >>= next) ts = (next a rest).within left := by
  change Peg.bind p next ts = _
  rw [Peg.bind, h]

/-- What is made of something read leaves the same tokens. -/
theorem map_of_some {a : α} {left : Nat} (h : p ts = ⟨some (a, rest), left⟩) (f : α → β) :
    (f <$> p) ts = ⟨some (f a, rest), min left rest.length⟩ :=
  bind_of_some h fun a => pure (f a)

theorem bind_congr (h : p ts = q ts) (next : α → Peg β) : (p >>= next) ts = (q >>= next) ts := by
  change Peg.bind p next ts = Peg.bind q next ts
  rw [Peg.bind, Peg.bind, h]

/-- The second alternative is tried at the same tokens, behind the failure of the first. -/
theorem orElse_of_none {left : Nat} (h : p ts = ⟨none, left⟩) :
    (p <|> q) ts = (q ts).within left := by
  change Peg.orElse p (fun _ => q) ts = _
  rw [Peg.orElse, h]

/-- A first alternative that reads something is the choice. -/
theorem orElse_of_some {a : α} {left : Nat} (h : p ts = ⟨some (a, rest), left⟩) :
    (p <|> q) ts = ⟨some (a, rest), left⟩ := by
  change Peg.orElse p (fun _ => q) ts = _
  rw [Peg.orElse, h]

/-- Nothing is read where what might stand there fails. -/
theorem orElse_pure_of_none {left : Nat} (h : p ts = ⟨none, left⟩) (a : α) :
    (p <|> pure a) ts = ⟨some (a, ts), min left ts.length⟩ :=
  orElse_of_none h

/-- A first alternative that fails leaves no trace where the second comes at least as far. -/
theorem orElse_eq_of_left_le {left : Nat} (h : p ts = ⟨none, left⟩) (hle : (q ts).left ≤ left) :
    (p <|> q) ts = q ts := by
  rw [orElse_of_none h]
  rcases hq : q ts with ⟨result, left'⟩
  rw [hq] at hle
  exact congrArg (Attempt.mk result) (Nat.min_eq_right hle)

theorem take_of_some {f : Token → Option α} {t : Token} {a : α} (h : f t = some a)
    (ts : List Token) : take f (t :: ts) = ⟨some (a, ts), (t :: ts).length⟩ := by
  rw [take, h]
  rfl

/-! ### Refusing -/

/-- A parsing expression fails at the very front. -/
def Refuses (p : Peg α) (ts : List Token) : Prop := p ts = ⟨none, ts.length⟩

/-- A token that stands for nothing is refused, and so is the end. -/
theorem refuses_take {f : Token → Option α} (h : ts.head?.bind f = none) :
    Refuses (take f) ts := by
  cases ts with
  | nil => rfl
  | cons t ts =>
    have ht : f t = none := h
    rw [Refuses, take, ht]
    rfl

theorem refuses_one {kind : Token → Bool} (h : ts.head?.any kind = false) :
    Refuses (one kind) ts := by
  apply refuses_take
  cases ts with
  | nil => rfl
  | cons t ts =>
    have ht : kind t = false := h
    simp [ht]

/-- A kind that holds one token only is refused where that token is not next. -/
theorem refuses_one_of_head?_ne {kind : Token → Bool} {t : Token}
    (hkind : ∀ u, kind u = true → u = t) (h : ts.head? ≠ some t) : Refuses (one kind) ts := by
  apply refuses_one
  rcases ts with _ | ⟨u, us⟩
  · rfl
  · rw [List.head?_cons, Option.any_some, ← Bool.not_eq_true]
    exact fun hu => h (congrArg some (hkind u hu))

/-- What starts with something refused is refused. -/
theorem Refuses.bind (h : Refuses p ts) (next : α → Peg β) : Refuses (p >>= next) ts :=
  bind_of_none h next

theorem Refuses.map (h : Refuses p ts) (f : α → β) : Refuses (f <$> p) ts :=
  h.bind fun a => pure (f a)

/-- A choice is refused where both alternatives are. -/
theorem Refuses.orElse (hp : Refuses p ts) (hq : Refuses q ts) : Refuses (p <|> q) ts := by
  rw [Refuses, orElse_of_none hp, hq]
  simp [Attempt.within]

/-! ### Agreement -/

/-- How trying a parsing expression on tokens compares to reading them. Where the reader is stuck
and the parsing expression has read something, what it left is `dead`. -/
inductive Agrees (dead : List Token → Prop) (ts : List Token) :
    Attempt α → Except (List Token) (α × List Token) → Prop where
  | read {a : α} {rest : List Token} {left : Nat} (hrest : rest.length ≤ left)
    (hleft : left ≤ ts.length) : Agrees dead ts ⟨some (a, rest), left⟩ (.ok (a, rest))
  | stuck {stuck : List Token} (hstuck : stuck.length ≤ ts.length) :
    Agrees dead ts ⟨none, stuck.length⟩ (.error stuck)
  | cut {a : α} {rest stuck : List Token} (hdead : dead rest)
    (hstuck : stuck.length ≤ rest.length) (hrest : rest.length ≤ ts.length) :
    Agrees dead ts ⟨some (a, rest), stuck.length⟩ (.error stuck)

/-- Nothing is dead: what gets stuck fails. -/
def never (_ : List Token) : Prop := False

variable {dead dead' : List Token → Prop} {attempt : Attempt α}
  {r : Except (List Token) (α × List Token)}

/-- What is dead for one rule may be dead for a rule around it. -/
theorem Agrees.mono (h : Agrees dead ts attempt r) (hd : ∀ us, dead us → dead' us) :
    Agrees dead' ts attempt r := by
  cases h with
  | read hrest hleft => exact .read hrest hleft
  | stuck hstuck => exact .stuck hstuck
  | cut hdead hstuck hrest => exact .cut (hd _ hdead) hstuck hrest

/-- What is read whole or not at all agrees for any rule around it. -/
theorem Agrees.of_never (h : Agrees never ts attempt r) : Agrees dead ts attempt r :=
  h.mono fun _ => False.elim

/-- Nothing is cut short where the reader succeeds. -/
theorem Agrees.never_of_ok {x : α × List Token}
    (h : Agrees dead ts attempt (.ok x)) : Agrees never ts attempt (.ok x) := by
  cases h with
  | read hrest hleft => exact .read hrest hleft

/-- What is left is no longer than what was there. -/
theorem Agrees.bounded (h : Agrees dead ts attempt r) :
    Agrees (fun us => dead us ∧ us.length ≤ ts.length) ts attempt r := by
  cases h with
  | read hrest hleft => exact .read hrest hleft
  | stuck hstuck => exact .stuck hstuck
  | cut hdead hstuck hrest => exact .cut ⟨hdead, hrest⟩ hstuck hrest

/-- A refusal is a reader that is stuck at once. -/
theorem Refuses.agrees (h : Refuses p ts) : Agrees dead ts (p ts) (.error ts) := by
  rw [h]
  exact .stuck (Nat.le_refl _)

/-- Failures at the front or before it do not count. -/
theorem Agrees.within {n : Nat} (h : Agrees dead rest attempt r) (hn : rest.length ≤ n)
    (hts : rest.length ≤ ts.length) : Agrees dead ts (attempt.within n) r := by
  cases h with
  | @read a rest left hrest hleft =>
    change Agrees dead ts ⟨some (a, rest), min n left⟩ _
    exact .read (by omega) (by omega)
  | @stuck stuck hstuck =>
    have hmin : min n stuck.length = stuck.length := by omega
    rw [Attempt.within, hmin]
    exact .stuck (by omega)
  | @cut a rest stuck hdead hstuck hrest =>
    have hmin : min n stuck.length = stuck.length := by omega
    rw [Attempt.within, hmin]
    exact .cut hdead hstuck (by omega)

/-- A reader is stuck no earlier than where it was tried. -/
theorem Agrees.length_le {stuck : List Token} (h : Agrees dead ts attempt (.error stuck)) :
    stuck.length ≤ ts.length := by
  cases h with
  | stuck hstuck => exact hstuck
  | cut _ hstuck hrest => exact Nat.le_trans hstuck hrest

/-- Reading nothing agrees with a reader that reads nothing. -/
theorem Agrees.done (a : α) (ts : List Token) :
    Agrees dead ts ((pure a : Peg α) ts) (.ok (a, ts)) :=
  .read (Nat.le_refl _) (Nat.le_refl _)

/-- A parsing expression gets nowhere at some tokens: it fails at the front, or it reads nothing
and leaves what is dead. -/
def Idles (dead : List Token → Prop) (p : Peg α) (ts : List Token) : Prop :=
  Refuses p ts ∨ dead ts ∧ ∃ a, p ts = ⟨some (a, ts), ts.length⟩

/-- Behind a failure that came further, a parsing expression that gets nowhere changes nothing. -/
theorem Idles.agrees (h : Idles dead p rest) {stuck : List Token}
    (hstuck : stuck.length ≤ rest.length) (hts : rest.length ≤ ts.length) :
    Agrees dead ts ((p rest).within stuck.length) (.error stuck) := by
  have hmin : min stuck.length rest.length = stuck.length := by omega
  rcases h with h | ⟨hdead, a, h⟩
  · rw [h, Attempt.within, hmin]
    exact .stuck (by omega)
  · rw [h, Attempt.within, hmin]
    exact .cut hdead hstuck hts

/-- One thing after another. What follows has to get nowhere at what is dead. -/
theorem Agrees.bind {next : α → Peg β}
    {go : α × List Token → Except (List Token) (β × List Token)}
    (hp : Agrees dead ts (p ts) r)
    (hnext : ∀ a rest, r = .ok (a, rest) → rest.length ≤ ts.length →
      Agrees dead' rest (next a rest) (go (a, rest)))
    (hdead : ∀ a rest, dead rest → Idles dead' (next a) rest) :
    Agrees dead' ts ((p >>= next) ts) (r >>= go) := by
  generalize hat : p ts = attempt at hp
  cases hp with
  | read hrest hleft =>
    rw [bind_of_some hat]
    exact (hnext _ _ rfl (by omega)).within hrest (by omega)
  | stuck hstuck =>
    rw [bind_of_none hat]
    exact .stuck hstuck
  | cut hd hstuck hrest =>
    rw [bind_of_some hat]
    exact (hdead _ _ hd).agrees hstuck hrest

/-- Behind something that is read whole or not at all. -/
theorem Agrees.bind_whole {next : α → Peg β}
    {go : α × List Token → Except (List Token) (β × List Token)}
    (hp : Agrees never ts (p ts) r)
    (h : ∀ a rest, rest.length ≤ ts.length → Agrees dead rest (next a rest) (go (a, rest))) :
    Agrees dead ts ((p >>= next) ts) (r >>= go) :=
  hp.bind (fun a rest _ hrest => h a rest hrest) fun _ _ hnever => hnever.elim

/-- Behind something that is read. -/
theorem Agrees.bind_of_ok {a : α} {next : α → Peg β}
    {r : Except (List Token) (β × List Token)} (hp : Agrees dead ts (p ts) (.ok (a, rest)))
    (h : Agrees dead' rest (next a rest) r) : Agrees dead' ts ((p >>= next) ts) r := by
  generalize hat : p ts = attempt at hp
  cases hp with
  | read hrest hleft =>
    rw [bind_of_some hat]
    exact h.within hrest (Nat.le_trans hrest hleft)

/-- What is made of something read is made of what the reader reads. -/
theorem Agrees.map (h : Agrees dead ts (p ts) r) (f : α → β) :
    Agrees dead ts ((f <$> p) ts) (r >>= fun (a, rest) => .ok (f a, rest)) :=
  h.bind (fun _ _ _ _ => .done _ _) fun _ _ hd => .inr ⟨hd, _, rfl⟩

/-- The second alternative, where the first is refused. -/
theorem Agrees.orElse_right (hp : Refuses p ts) (hq : Agrees dead ts (q ts) r) :
    Agrees dead ts ((p <|> q) ts) r := by
  rw [orElse_of_none hp]
  exact hq.within (Nat.le_refl _) (Nat.le_refl _)

/-- A choice, where the second alternative does nothing else behind the failure of the first. -/
theorem Agrees.orElse (hp : Agrees dead ts (p ts) r)
    (hstop : ∀ stuck, r = .error stuck → stuck.length ≤ ts.length →
      Agrees dead ts ((q ts).within stuck.length) (.error stuck)) :
    Agrees dead ts ((p <|> q) ts) r := by
  generalize hat : p ts = attempt at hp
  cases hp with
  | read hrest hleft =>
    rw [orElse_of_some hat]
    exact .read hrest hleft
  | stuck hstuck =>
    rw [orElse_of_none hat]
    exact hstop _ rfl hstuck
  | cut hd hstuck hrest =>
    rw [orElse_of_some hat]
    exact .cut hd hstuck hrest

/-- The first alternative, where it reads something. -/
theorem Agrees.orElse_read {x : α × List Token} (hp : Agrees dead ts (p ts) (.ok x)) :
    Agrees dead ts ((p <|> q) ts) (.ok x) := by
  apply hp.orElse
  intro stuck h
  cases h

/-- The first alternative, where the second is refused. -/
theorem Agrees.orElse_left (hp : Agrees dead ts (p ts) r) (hq : Refuses q ts) :
    Agrees dead ts ((p <|> q) ts) r :=
  hp.orElse fun _ _ hstuck => Idles.agrees (.inl hq) hstuck (Nat.le_refl _)

/-- The first alternative, where the second reads what is dead and what the first came behind. -/
theorem Agrees.orElse_cut {a : α} (hp : Agrees dead ts (p ts) r)
    (hq : Agrees never ts (q ts) (.ok (a, rest)))
    (hdead : dead rest) (hts : rest.length ≤ ts.length)
    (hbehind : ∀ stuck, r = .error stuck → stuck.length ≤ rest.length) :
    Agrees dead ts ((p <|> q) ts) r := by
  apply hp.orElse
  intro stuck hstuck _
  generalize q ts = attempt at hq
  cases hq with
  | @read _ _ left hrest hleft =>
    have hle := hbehind stuck hstuck
    have hmin : min stuck.length left = stuck.length := by omega
    rw [Attempt.within, hmin]
    exact .cut hdead hle hts

/-- Behind a token that is taken. -/
theorem Agrees.take_bind {f : Token → Option α} {t : Token} {a : α} {next : α → Peg β}
    {r : Except (List Token) (β × List Token)} (h : f t = some a)
    (hnext : Agrees dead ts (next a ts) r) :
    Agrees dead (t :: ts) ((take f >>= next) (t :: ts)) r := by
  rw [bind_of_some (take_of_some h ts)]
  exact hnext.within (Nat.le_succ _) (Nat.le_succ _)

/-- Something optional that the reader takes for granted. -/
theorem Agrees.optional (hp : Agrees dead ts (p ts) r) (hts : dead ts) :
    Agrees dead ts (optional p ts) (r >>= fun (a, rest) => .ok (some a, rest)) := by
  rw [Peg.optional]
  apply (hp.map some).orElse
  intro stuck _ hstuck
  exact Idles.agrees (.inr ⟨hts, none, rfl⟩) hstuck (Nat.le_refl _)

/-- What is made of something optional that the reader takes for granted. -/
theorem Agrees.optional_map (hp : Agrees dead ts (p ts) r) (hts : dead ts) (f : Option α → β) :
    Agrees dead ts ((Peg.optional p >>= fun a => pure (f a)) ts)
      (r >>= fun (a, rest) => .ok (f (some a), rest)) := by
  have h := (hp.optional hts).map f
  rw [bind_assoc] at h
  exact h

/-- Something optional that is not there. -/
theorem optional_of_refuses (h : Refuses p ts) :
    optional p ts = ⟨some (none, ts), ts.length⟩ := by
  rw [Peg.optional, orElse_pure_of_none (h.map some), Nat.min_self]

/-- Behind something optional that is not there. -/
theorem Agrees.optional_right {next : Option α → Peg β}
    {r : Except (List Token) (β × List Token)} (hp : Refuses p ts)
    (h : Agrees dead ts (next none ts) r) :
    Agrees dead ts ((Peg.optional p >>= next) ts) r := by
  rw [bind_of_some (optional_of_refuses hp)]
  exact h.within (Nat.le_refl _) (Nat.le_refl _)

/-- What follows something optional is refused where neither can stand. -/
theorem Refuses.optional_bind {next : Option α → Peg β} (hp : Refuses p ts)
    (h : Refuses (next none) ts) : Refuses (optional p >>= next) ts := by
  rw [Refuses, bind_of_some (optional_of_refuses hp), h, Attempt.within, Nat.min_self]

/-- A rule that ends with something optional gets nowhere where that is refused. -/
theorem idles_optional (hp : Refuses p ts) (hts : dead ts) (f : Option α → β) :
    Idles dead (optional p >>= fun a => pure (f a)) ts := by
  refine .inr ⟨hts, f none, ?_⟩
  rw [bind_of_some (optional_of_refuses hp)]
  exact congrArg _ (Nat.min_self _)

/-- Something optional that is there. -/
theorem optional_of_some {a : α} {left : Nat} (h : p ts = ⟨some (a, rest), left⟩) :
    optional p ts = ⟨some (some a, rest), min left rest.length⟩ := by
  rw [Peg.optional, orElse_of_some (map_of_some h some)]

/-! ### Repeating -/

/-- A parsing expression that uses itself does what its rule does with the same parsing expression
on fewer tokens. -/
theorem exists_recursive_eq (body : Peg α → Peg α) (ts : List Token) :
    ∃ p : Peg α, recursive body ts = body p ts ∧
      ∀ us, us.length < ts.length → p us = recursive body us := by
  refine ⟨fun us => if us.length < ts.length then recursive body us else ⟨none, us.length⟩, ?_, ?_⟩
  · rw [recursive]
  · exact fun us hus => if_pos hus

/-- What holds of each attempt of a parsing expression that uses itself, if it does where it holds
of each attempt on fewer tokens. -/
theorem recursive_induction {body : Peg α → Peg α} {n : Nat}
    {motive : List Token → Attempt α → Prop}
    (h : ∀ p ts, ts.length ≤ n → (∀ us, us.length < ts.length → motive us (p us)) →
      motive ts (body p ts))
    (ts : List Token) (hts : ts.length ≤ n) : motive ts (recursive body ts) := by
  obtain ⟨p, hbody, hp⟩ := exists_recursive_eq body ts
  rw [hbody]
  apply h p ts hts
  intro us hus
  rw [hp us hus]
  exact recursive_induction h us (by omega)
termination_by ts.length

/-- A rule that uses itself is refused where it is whatever it uses. -/
theorem refuses_recursive {body : Peg α → Peg α} (h : ∀ p, Refuses (body p) ts) :
    Refuses (recursive body) ts := by
  rw [Refuses, recursive]
  exact h _

/-- A repetition ends with the failure of the next thing. -/
theorem many_of_none {left : Nat} (h : p ts = ⟨none, left⟩) :
    many p ts = ⟨some ([], ts), left⟩ := by
  rw [many, h]

/-- A repetition goes on behind a thing that took tokens. -/
theorem many_of_some {a : α} {left : Nat} (h : p ts = ⟨some (a, rest), left⟩)
    (hrest : rest.length < ts.length) :
    many p ts = ((many p rest).map (a :: ·)).within left := by
  rw [many, h]
  exact if_pos hrest

/-- A repetition ends before a thing that would take no token. -/
theorem many_of_idle {a : α} {left : Nat} (h : p ts = ⟨some (a, rest), left⟩)
    (hrest : ¬rest.length < ts.length) : many p ts = ⟨some ([], ts), left⟩ := by
  rw [many, h]
  exact if_neg hrest

/-- Of two earlier failures the one that came further counts. -/
theorem within_within (attempt : Attempt α) (m n : Nat) :
    (attempt.within m).within n = attempt.within (min n m) := by
  simp only [Attempt.within, Nat.min_assoc]

/-- Reading three things in a row does not depend on how they are grouped. -/
protected theorem bind_assoc (p : Peg α) (f : α → Peg β) (g : β → Peg γ) :
    p >>= f >>= g = p >>= fun a => f a >>= g := by
  funext ts
  rcases hp : p ts with ⟨_ | ⟨a, rest⟩, left⟩
  · rw [bind_of_none (bind_of_none hp f), bind_of_none hp]
  · rcases hf : f a rest with ⟨_ | ⟨b, rest'⟩, left'⟩
    · have hboth : (p >>= f) ts = ⟨none, min left left'⟩ := by rw [bind_of_some hp, hf]; rfl
      rw [bind_of_none hboth, bind_of_some hp, bind_of_none hf]
      rfl
    · have hboth : (p >>= f) ts = ⟨some (b, rest'), min left left'⟩ := by
        rw [bind_of_some hp, hf]
        rfl
      rw [bind_of_some hboth, bind_of_some hp, bind_of_some hf, within_within]

/-- A repetition succeeds. -/
theorem exists_many (p : Peg α) (ts : List Token) :
    ∃ as rest left, many p ts = ⟨some (as, rest), left⟩ := by
  rcases hat : p ts with ⟨_ | ⟨a, rest⟩, left⟩
  · exact ⟨_, _, _, many_of_none hat⟩
  · by_cases hrest : rest.length < ts.length
    · obtain ⟨as, rest', left', hmore⟩ := exists_many p rest
      rw [many_of_some hat hrest, hmore]
      exact ⟨_, _, _, rfl⟩
    · exact ⟨_, _, _, many_of_idle hat hrest⟩
termination_by ts.length

/-- What follows a repetition that took one step follows the rest of it. -/
theorem many_bind_of_some {a : α} {left : Nat} (h : p ts = ⟨some (a, rest), left⟩)
    (hrest : rest.length < ts.length) (next : List α → Peg β) :
    (many p >>= next) ts = ((many p >>= fun as => next (a :: as)) rest).within left := by
  obtain ⟨as, rest', left', hmore⟩ := exists_many p rest
  have hall : many p ts = ⟨some (a :: as, rest'), min left left'⟩ := by
    rw [many_of_some h hrest, hmore]
    rfl
  rw [bind_of_some hall, bind_of_some hmore]
  simp only [Attempt.within, Nat.min_assoc]

/-- A repetition of what is not there. -/
theorem Agrees.many_bind_right {next : List α → Peg β} {r : Except (List Token) (β × List Token)}
    (hp : Refuses p ts) (h : Agrees dead ts (next [] ts) r) :
    Agrees dead ts ((many p >>= next) ts) r := by
  rw [bind_of_some (many_of_none hp)]
  exact h.within (Nat.le_refl _) (Nat.le_refl _)

/-- What follows a repetition is refused where neither can stand. -/
theorem Refuses.many_bind {next : List α → Peg β} (hp : Refuses p ts) (h : Refuses (next []) ts) :
    Refuses (many p >>= next) ts := by
  rw [Refuses, bind_of_some (many_of_none hp), h, Attempt.within, Nat.min_self]

/-- A repetition of what the reader takes for granted once. What follows the repetition has to get
nowhere where it stops at what is dead, and must not hide the failure that it stops with at once. -/
theorem Agrees.many_bind {next : List α → Peg β}
    {go : α × List Token → Except (List Token) (β × List Token)} (hp : Agrees dead ts (p ts) r)
    (hshort : ∀ a rest, r = .ok (a, rest) → rest.length < ts.length)
    (hnext : ∀ a rest, r = .ok (a, rest) →
      Agrees dead' rest ((many p >>= fun as => next (a :: as)) rest) (go (a, rest)))
    (hstop : ∀ stuck, r = .error stuck →
      Agrees dead' ts ((next [] ts).within stuck.length) (.error stuck))
    (hdead : ∀ as us, dead us → Refuses p us ∧ Idles dead' (next as) us) :
    Agrees dead' ts ((many p >>= next) ts) (r >>= go) := by
  generalize hat : p ts = attempt at hp
  cases hp with
  | read hrest hleft =>
    have hlt := hshort _ _ rfl
    rw [many_bind_of_some hat hlt]
    exact (hnext _ _ rfl).within hrest (by omega)
  | stuck hstuck =>
    rw [bind_of_some (many_of_none hat)]
    exact hstop _ rfl
  | @cut a rest stuck hd hstuck hrest =>
    by_cases hlt : rest.length < ts.length
    · have hmore : many p rest = ⟨some ([], rest), rest.length⟩ :=
        many_of_none (hdead [] _ hd).1
      have hmin : min stuck.length rest.length = stuck.length := by omega
      rw [many_bind_of_some hat hlt, bind_of_some hmore]
      have hstop := (hdead [a] rest hd).2.agrees hstuck hrest
      change Agrees dead' ts _ (.error stuck)
      simpa only [Attempt.within, ← Nat.min_assoc, hmin] using hstop
    · rw [bind_of_some (many_of_idle hat hlt)]
      exact hstop _ rfl

/-! ### The furthest failure -/

/-- No failure of the first part is forgotten. -/
theorem left_bind_le (p : Peg α) (next : α → Peg β) (ts : List Token) :
    ((p >>= next) ts).left ≤ (p ts).left := by
  rcases hat : p ts with ⟨_ | ⟨a, rest⟩, left⟩
  · exact Nat.le_of_eq (congrArg Attempt.left (bind_of_none hat next))
  · rw [bind_of_some hat]
    exact Nat.min_le_left _ _

theorem left_map_le (p : Peg α) (f : α → β) (ts : List Token) :
    ((f <$> p) ts).left ≤ (p ts).left := left_bind_le p (fun a => pure (f a)) ts

/-- No failure of what follows is forgotten. -/
theorem left_bind_le_of_some {a : α} {left : Nat} (h : p ts = ⟨some (a, rest), left⟩)
    (next : α → Peg β) : ((p >>= next) ts).left ≤ (next a rest).left := by
  rw [bind_of_some h]
  exact Nat.min_le_right _ _

/-- No failure of the first alternative is forgotten. -/
theorem left_orElse_le_left (p q : Peg α) (ts : List Token) :
    ((p <|> q) ts).left ≤ (p ts).left := by
  rcases hat : p ts with ⟨_ | ⟨a, rest⟩, left⟩
  · rw [orElse_of_none hat]
    exact Nat.min_le_left _ _
  · exact Nat.le_of_eq (congrArg Attempt.left (orElse_of_some hat))

/-- No failure of the second alternative is forgotten, if it was tried. -/
theorem left_orElse_le {left : Nat} (h : p ts = ⟨none, left⟩) :
    ((p <|> q) ts).left ≤ (q ts).left := by
  rw [orElse_of_none h]
  exact Nat.min_le_right _ _

/-- No failure of the first thing of a repetition is forgotten. -/
theorem left_many_le (p : Peg α) (ts : List Token) : (many p ts).left ≤ (p ts).left := by
  rcases hat : p ts with ⟨_ | ⟨a, rest⟩, left⟩
  · exact Nat.le_of_eq (congrArg Attempt.left (many_of_none hat))
  · by_cases hrest : rest.length < ts.length
    · rw [many_of_some hat hrest]
      exact Nat.min_le_left _ _
    · exact Nat.le_of_eq (congrArg Attempt.left (many_of_idle hat hrest))

/-- No failure of the other things of a repetition is forgotten. -/
theorem left_many_le_of_some {a : α} {left : Nat} (h : p ts = ⟨some (a, rest), left⟩)
    (hrest : rest.length < ts.length) : (many p ts).left ≤ (many p rest).left := by
  rw [many_of_some h hrest]
  exact Nat.min_le_right _ _

theorem left_take (f : Token → Option α) (ts : List Token) : (take f ts).left = ts.length := by
  cases ts <;> rfl

/-! ### Growing -/

/-- At some tokens a parsing expression does one step of what a reader repeats: both stop there, or
both go on in the same way. -/
inductive StepsLike (dead dead' : List Token → Prop) (more : Peg (α → α))
    (tail : α → List Token → Except (List Token) (α × List Token)) (ts : List Token) : Prop where
  | stops (hmore : Refuses more ts) (htail : ∀ a, tail a ts = .ok (a, ts))
  | goesOn (hdead : dead' ts) (r : Except (List Token) ((α → α) × List Token))
    (hmore : Agrees dead ts (more ts) r)
    (hshort : ∀ f rest, r = .ok (f, rest) → rest.length < ts.length)
    (htail : ∀ a, tail a ts = r >>= fun (f, rest) => tail (f a) rest)

/-- What grows step by step is read as the reader does. -/
theorem agrees_grown {more : Peg (α → α)}
    {tail : α → List Token → Except (List Token) (α × List Token)} {n : Nat}
    (hsteps : ∀ us, us.length ≤ n → StepsLike dead dead' more tail us)
    (hdead : ∀ us, dead us → Refuses more us ∧ dead' us) (a : α) {ts : List Token}
    (hts : ts.length ≤ n) : Agrees dead' ts (grown more a ts) (tail a ts) := by
  rw [grown]
  cases hsteps ts hts with
  | stops hmore htail =>
    rw [htail]
    exact Agrees.many_bind_right hmore (.done _ _)
  | goesOn hts' r hmore hshort htail =>
    rw [htail]
    apply hmore.many_bind hshort
    · intro f rest hr
      have hlt := hshort f rest hr
      exact agrees_grown hsteps hdead (f a) (by omega)
    · intro stuck hstuck
      exact Idles.agrees (.inr ⟨hts', a, rfl⟩) (Agrees.length_le (hstuck ▸ hmore)) (Nat.le_refl _)
    · intro others us hus
      obtain ⟨hrefuses, hus'⟩ := hdead us hus
      exact ⟨hrefuses, .inr ⟨hus', _, rfl⟩⟩
termination_by ts.length

/-- Where nothing more can be read, what was there is left as it is. -/
theorem idles_grown {more : Peg (α → α)} (hmore : Refuses more ts) (hts : dead ts) (a : α) :
    Idles dead (grown more a) ts := by
  refine .inr ⟨hts, a, ?_⟩
  rw [grown, bind_of_some (many_of_none hmore)]
  exact congrArg _ (Nat.min_self _)

/-! ### Separated things -/

/-- What a reader of things up to a closing token does, in terms of how it reads one thing and how
it goes on behind it: separators stand between the things, and one may stand behind the last. -/
structure ReadsSeparated (separates closes : Token → Bool)
    (item : List Token → Except (List Token) (α × List Token))
    (next : α → List Token → Except (List Token) (List α × List Token))
    (all : List Token → Except (List Token) (List α × List Token)) : Prop where
  all_close : ∀ {t us}, closes t = true → all (t :: us) = .ok ([], us)
  all_item : ∀ {us}, us.head?.any closes = false →
    all us = item us >>= fun (a, rest) => next a rest
  next_close : ∀ {a t us}, closes t = true → next a (t :: us) = .ok ([a], us)
  next_separator : ∀ {a s us}, separates s = true →
    next a (s :: us) = all us >>= fun (others, rest) => .ok (a :: others, rest)
  next_other : ∀ {a us}, us.head?.any separates = false → us.head?.any closes = false →
    next a us = .error us

section Separated

variable {separates closes : Token → Bool}

/-- A token of the kind is taken. -/
theorem one_of_true {kind : Token → Bool} {t : Token} (h : kind t = true) (ts : List Token) :
    one kind (t :: ts) = ⟨some ((), ts), (t :: ts).length⟩ :=
  take_of_some (if_pos h) ts

/-- A next token of some kind is there. -/
theorem exists_cons_of_any {kind : Token → Bool} (h : ts.head?.any kind = true) :
    ∃ t us, ts = t :: us ∧ kind t = true := by
  cases ts with
  | nil => cases h
  | cons t us => exact ⟨t, us, rfl, h⟩

/-- Reads a closing token behind things. -/
def closing (closes : Token → Bool) (as : List α) : Peg (List α) := do
  let as ← pure as
  one closes
  return as

/-- What stands behind one thing of several. -/
def behind (separates closes : Token → Bool) (p : Peg α) (f : List α → List α) :
    Peg (List α) := do
  let others ← many <| do
    one separates
    p
  let _ ← optional (one separates)
  closing closes (f others)

/-- The closing token ends things. -/
theorem agrees_closing {t : Token} (h : closes t = true) (as : List α) (rest : List Token) :
    Agrees never (t :: rest) (closing closes as (t :: rest)) (.ok (as, rest)) := by
  have hone : Agrees never (t :: rest)
      ((one closes >>= fun _ => (pure as : Peg (List α))) (t :: rest)) (.ok (as, rest)) :=
    .take_bind (if_pos h) (.done _ _)
  exact hone.within (Nat.le_refl _) (Nat.le_refl _)

/-- Things do not end where no closing token stands. -/
theorem refuses_closing (h : rest.head?.any closes = false) (as : List α) :
    Refuses (closing closes as) rest := by
  have hone : Refuses (one closes >>= fun _ => (pure as : Peg (List α))) rest :=
    (refuses_one h).bind _
  rw [Refuses, closing, bind_of_some rfl, hone, Attempt.within, Nat.min_self]

theorem refuses_optional_closing (hs : rest.head?.any separates = false)
    (hc : rest.head?.any closes = false) (as : List α) :
    Refuses (optional (one separates) >>= fun _ => closing closes as) rest :=
  (refuses_one hs).optional_bind (refuses_closing hc as)

/-- Nothing stands behind a thing but a separator or the closing token. -/
theorem refuses_behind (hs : rest.head?.any separates = false)
    (hc : rest.head?.any closes = false) (f : List α → List α) :
    Refuses (behind separates closes p f) rest :=
  Refuses.many_bind ((refuses_one hs).bind _) (refuses_optional_closing hs hc _)

/-- Where no separator stands, nothing more is read before the closing token. -/
theorem Agrees.behind {f : List α → List α} {r : Except (List Token) (List α × List Token)}
    (h : rest.head?.any separates = false) (hr : Agrees never rest (closing closes (f []) rest) r) :
    Agrees never rest (behind separates closes p f rest) r := by
  rw [Peg.behind]
  have hone := refuses_one h
  apply Agrees.many_bind_right (hone.bind _)
  rw [bind_of_some (optional_of_refuses hone)]
  exact hr.within (Nat.le_refl _) (Nat.le_refl _)

variable {item : List Token → Except (List Token) (α × List Token)}
  {next : α → List Token → Except (List Token) (List α × List Token)}
  {all : List Token → Except (List Token) (List α × List Token)} {n : Nat}
  (hread : ReadsSeparated separates closes item next all)
  (hp : ∀ us, us.length ≤ n → Agrees dead us (p us) (item us))
  (hshort : ∀ {us a rest}, item us = .ok (a, rest) → rest.length < us.length)
  (hrefuses : ∀ us, us.length ≤ n → us.head?.any closes = true → Refuses p us)
  (hdead : ∀ us, dead us → us.head?.any separates = false ∧ us.head?.any closes = false)

include hread hp hshort hrefuses hdead in
/-- Behind one thing a parsing expression reads the others as the reader does. -/
theorem agrees_behind (a : α) (hrest : rest.length ≤ n) (f : List α → List α) :
    Agrees never rest (behind separates closes p (fun others => f (a :: others)) rest)
      (next a rest >>= fun (as, rest) => .ok (f as, rest)) := by
  induction hlen : rest.length using Nat.strongRecOn generalizing rest a f with | _ k ih
  subst hlen
  by_cases hs : rest.head?.any separates = true
  · obtain ⟨s, us, rfl, hs'⟩ := exists_cons_of_any hs
    have hus : us.length < (s :: us).length := Nat.lt_succ_self _
    have htake := one_of_true hs' us
    have hitem : (one separates >>= fun _ => p) (s :: us) = (p us).within (s :: us).length :=
      bind_of_some htake _
    have hoptional : optional (one separates) (s :: us) = ⟨some (some (), us), us.length⟩ := by
      rw [optional_of_some htake, Nat.min_eq_right (Nat.le_of_lt hus)]
    rw [behind, hread.next_separator hs']
    by_cases hc : us.head?.any closes = true
    -- The separator is the last one.
    · have hnone : (one separates >>= fun _ => p) (s :: us) = ⟨none, us.length⟩ := by
        rw [hitem, hrefuses _ (by omega) hc, Attempt.within, Nat.min_eq_right (Nat.le_of_lt hus)]
      obtain ⟨t, us, rfl, hc'⟩ := exists_cons_of_any hc
      rw [hread.all_close hc', bind_of_some (many_of_none hnone), bind_of_some hoptional,
        within_within, Nat.min_self]
      exact (agrees_closing hc' _ us).within (Nat.le_refl _) (Nat.le_succ _)
    · rw [Bool.not_eq_true] at hc
      have hone : Agrees dead (s :: us) ((one separates >>= fun _ => p) (s :: us)) (item us) :=
        .take_bind (if_pos hs') (hp us (by omega))
      rw [hread.all_item hc, bind_assoc, bind_assoc]
      apply hone.many_bind (fun b rest hb => Nat.lt_trans (hshort hb) hus)
      · intro b rest hb
        have hlt := hshort hb
        exact ih _ (by omega) b (by omega) (fun others => f (a :: others)) rfl
      · intro stuck hstuck
        have hle : stuck.length ≤ us.length :=
          Agrees.length_le (hstuck ▸ hp us (by omega))
        rw [bind_of_some hoptional, refuses_closing hc, Attempt.within, Attempt.within,
          Nat.min_self, Nat.min_eq_left hle]
        exact .stuck (by omega)
      · intro bs vs hvs
        obtain ⟨hs, hc⟩ := hdead vs hvs
        exact ⟨(refuses_one hs).bind _, .inl (refuses_optional_closing hs hc _)⟩
  · rw [Bool.not_eq_true] at hs
    apply Agrees.behind hs
    by_cases hc : rest.head?.any closes = true
    · obtain ⟨t, rest, rfl, hc⟩ := exists_cons_of_any hc
      rw [hread.next_close hc]
      exact agrees_closing hc _ _
    · rw [Bool.not_eq_true] at hc
      rw [hread.next_other hs hc]
      exact (refuses_closing hc _).agrees

include hread hp hshort hrefuses hdead in
/-- At least one thing and the closing token are read as the reader does. -/
theorem agrees_separated1 (hts : ts.length ≤ n) :
    Agrees never ts ((do
      let as ← separated1 (one separates) p
      one closes
      return as) ts) (item ts >>= fun (a, rest) => next a rest) := by
  have hassoc : (do
      let as ← separated1 (one separates) p
      one closes
      return as) = p >>= fun a => behind separates closes p (fun others => a :: others) := by
    rw [separated1]
    simp only [Peg.bind_assoc]
    rfl
  rw [hassoc]
  apply (hp ts hts).bind
  · intro a rest _ hrest
    have hid : (next a rest >>= fun (as, rest) => .ok (id as, rest)) = next a rest := by
      rcases next a rest with stuck | x <;> rfl
    have hbehind := agrees_behind hread hp hshort hrefuses hdead a (Nat.le_trans hrest hts) id
    rw [hid] at hbehind
    exact hbehind
  · intro a us hus
    obtain ⟨hs, hc⟩ := hdead us hus
    exact .inl (refuses_behind hs hc _)

include hread hp hshort hrefuses hdead in
/-- Any number of things and the closing token are read as the reader does. -/
theorem agrees_separated (hts : ts.length ≤ n) :
    Agrees never ts ((do
      let as ← separated (one separates) p
      one closes
      return as) ts) (all ts) := by
  by_cases hc : ts.head?.any closes = true
  · have hrefuses1 : Refuses (separated1 (one separates) p) ts := (hrefuses ts hts hc).bind _
    obtain ⟨t, us, rfl, hc'⟩ := exists_cons_of_any hc
    rw [hread.all_close hc', separated, bind_of_some (orElse_pure_of_none hrefuses1 _),
      Nat.min_self]
    exact Agrees.within (.take_bind (if_pos hc') (.done _ _)) (Nat.le_refl _) (Nat.le_refl _)
  · rw [Bool.not_eq_true] at hc
    have h1 := agrees_separated1 hread hp hshort hrefuses hdead hts
    rw [hread.all_item hc, separated]
    rcases hat : separated1 (one separates) p ts with ⟨_ | ⟨as, rest⟩, left⟩
    · have hclose : Refuses (one closes >>= fun _ => (pure [] : Peg (List α))) ts :=
        (refuses_one hc).bind _
      rw [bind_of_none hat] at h1
      rw [bind_of_some (orElse_pure_of_none hat _), hclose]
      generalize (item ts >>= fun (a, rest) => next a rest) = r at h1
      cases h1 with
      | @stuck stuck hstuck =>
        rw [Nat.min_eq_left hstuck, Attempt.within, Nat.min_eq_left hstuck]
        exact .stuck hstuck
    · rw [bind_of_some (orElse_of_some hat)]
      rw [bind_of_some hat] at h1
      exact h1

end Separated

end ScriptShell.Peg
