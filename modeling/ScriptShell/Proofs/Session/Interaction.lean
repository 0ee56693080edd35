import Mathlib
import ScriptShell.Program.Installed
import ScriptShell.Proofs.Command.RunnerCalls
import ScriptShell.Proofs.Evaluation.MoreFuel
import ScriptShell.Proofs.Session.CommandLines
import ScriptShell.Session.Startup

/-!
# Interactions

An interaction takes each line once, in order, as part of one command, and dispatches the commands
that are not blank one after the other. It stops behind the first command that asks for the end, and
otherwise when the lines run out; a command that is unfinished then is not dispatched. The commands
depend on the lines alone, so the proof follows them, and the fuel is chosen for all of them at the
end.
-/

namespace ScriptShell

/-! ### Dispatching with more fuel -/

theorem runNative_of_le {fuel more : Nat} (hle : fuel ≤ more) {text : String} {s s' : State}
    {outcome : Outcome} (h : runNative fuel text s = some (outcome, s')) :
    runNative more text s = some (outcome, s') := by
  unfold runNative at h ⊢
  split at h
  · next e _ =>
    cases hrun : eval fuel e s with
    | unfinished => rw [hrun] at h; cases h
    | done r left => rwa [eval_endsAs hle e s r left hrun, ← hrun]
  · split at h
    · next script _ =>
      cases hrun : runScript fuel script s with
      | unfinished => rw [hrun] at h; cases h
      | done r left => rwa [runScript_endsAs hle script s r left hrun, ← hrun]
    · exact h

theorem Route.attempt?_of_le {fuel more : Nat} (hle : fuel ≤ more) {route : Route}
    {command : String} {s s' : State} {outcome : Outcome}
    (h : route.attempt? fuel command s = some (some (outcome, s'))) :
    route.attempt? more command s = some (some (outcome, s')) := by
  cases route with
  | super =>
    have h := Option.some.inj h
    refine congrArg some ?_
    unfold runSuper at h ⊢
    dsimp only at h ⊢
    split
    · next hmany => rwa [if_pos hmany] at h
    · next hone =>
      rw [if_neg hone] at h
      exact runNative_of_le hle h
  | native => exact congrArg some (runNative_of_le hle (Option.some.inj h))
  | compiled =>
    have h := Option.some.inj h
    refine congrArg some ?_
    unfold runCompiled at h ⊢
    split at h
    · exact runNative_of_le hle h
    · exact h
  | shell => cases h

namespace Session

variable {σ : Type} {runner : Runner σ} {c : Config} {s s' : Session σ}

/-- With more fuel the same is reported of a command. -/
theorem dispatch_of_le {fuel more : Nat} (hle : fuel ≤ more) {command : String} {report : Report}
    (h : s.dispatch runner c fuel command = some (report, s')) :
    s.dispatch runner c more command = some (report, s') := by
  refine Dispatched.dispatch_eq ?_
  cases dispatched_of_dispatch h with
  | program isRoute answer => exact .program isRoute answer
  | script isRoute attempt resolved =>
    exact .script isRoute (Route.attempt?_of_le hle attempt) resolved
  | again isRoute tries attempt unresolved answer =>
    exact .again isRoute tries (Route.attempt?_of_le hle attempt) unresolved answer

/-- A dispatched command returns, whatever fuel that takes. -/
def Returns (runner : Runner σ) (c : Config) (command : String) (s : Session σ) (report : Report)
    (s' : Session σ) : Prop :=
  ∃ fuel, s.dispatch runner c fuel command = some (report, s')

end Session

/-! ### One command after another -/

section Interaction

variable {σ : Type}

/-- What a command does in an interaction: a blank one does nothing, and any other is dispatched,
what it shows is written, and it is added to the history. -/
inductive Turn (runner : Runner σ) (c : Config) (command : String) (s : Session σ × History) :
    Session σ × History → Prop where
  | blank (isBlank : isBlankCommand command = true) : Turn runner c command s s
  | dispatched {report : Report} {after : Session σ} (isFilled : isBlankCommand command = false)
      (returns : s.1.Returns runner c command report after) :
      Turn runner c command s
        (after.printShown (Display.render true report.outcome), s.2.add command)

/-- What commands do in an interaction, one after the other; only the last may ask for the end. -/
inductive Turns (runner : Runner σ) (c : Config) :
    Session σ × History → List String → Session σ × History → Prop where
  | nil (s : Session σ × History) : Turns runner c s [] s
  | cons {s s' final : Session σ × History} {command : String} {commands : List String}
      (turn : Turn runner c command s s') (goesOn : commands = [] ∨ s'.1.isOver = false)
      (rest : Turns runner c s' commands final) : Turns runner c s (command :: commands) final

/-- An interaction has read commands, each from its own lines, has taken their turns, and has the
rest of its lines left. -/
structure Reads (runner : Runner σ) (c : Config) (start : Session σ × History)
    (lines : List String) (chunks : List (List String)) (commands : List String)
    (s : Session σ × History) (rest : List String) : Prop where
  /-- No line is lost and none is read twice. -/
  split : lines = chunks.flatten ++ rest
  makes : List.Forall₂ Makes chunks commands
  turns : Turns runner c start commands s

/-- Another command is read unless the last one asked for the end. -/
def GoesOn (commands : List String) (s : Session σ × History) : Prop :=
  commands = [] ∨ s.1.isOver = false

/-- Where an interaction stops that has read commands and has lines left: the last command asked
for the end, or no line is left, or the lines that are left begin a command and do not end it. -/
inductive Stops (commands : List String) (s : Session σ × History) :
    List String → InteractionEnd → Prop where
  | requested {rest : List String} (reads : commands ≠ []) (isOver : s.1.isOver = true) :
      Stops commands s rest .requested
  | noMoreLines (goesOn : GoesOn commands s) : Stops commands s [] .noMoreLines
  | insideCommand {rest : List String} (goesOn : GoesOn commands s) (unfinished : Unfinished rest) :
      Stops commands s rest .insideCommand

variable {runner : Runner σ} {c : Config} {start s s' final : Session σ × History}
  {command : String} {commands lines taken rest : List String} {chunks : List (List String)}

/-- A command whose dispatch returns takes its turn. -/
theorem exists_turn (h : isBlankCommand command = false →
    ∃ report after, s.1.Returns runner c command report after) :
    ∃ s', Turn runner c command s s' := by
  cases hblank : isBlankCommand command with
  | true => exact ⟨s, .blank hblank⟩
  | false =>
    obtain ⟨report, after, hreturns⟩ := h hblank
    exact ⟨_, .dispatched hblank hreturns⟩

/-- The turn of a command is what processing it comes to with enough fuel. -/
theorem Turn.processCommand (h : Turn runner c command s s') :
    ∃ enough, ∀ fuel ≥ enough, processCommand runner c fuel command s = some s' := by
  cases h with
  | blank isBlank =>
    refine ⟨0, fun fuel _ => ?_⟩
    simp [ScriptShell.processCommand, Session.execute, isBlank, Display.render, Session.printShown]
  | @dispatched report after isFilled returns =>
    obtain ⟨enough, hdispatch⟩ := returns
    refine ⟨enough, fun fuel hle => ?_⟩
    simp [ScriptShell.processCommand, Session.execute, isFilled,
      Session.dispatch_of_le hle hdispatch]

/-- Behind the first of its commands an interaction goes on as one that starts there. -/
theorem Reads.cons (makes : Makes taken command) (turn : Turn runner c command start s')
    (goesOn : s'.1.isOver = false) (h : Reads runner c s' lines chunks commands s rest) :
    Reads runner c start (taken ++ lines) (taken :: chunks) (command :: commands) s rest where
  split := by rw [h.split, List.flatten_cons, List.append_assoc]
  makes := .cons makes h.makes
  turns := .cons turn (.inr goesOn) h.turns

/-- An interaction has read nothing yet, or it goes on behind the first of its commands as one that
starts there. -/
theorem Reads.eq_start_or (h : Reads runner c start lines chunks commands s rest) :
    s = start ∧ rest = lines ∨
      ∃ taken command s' more chunks' commands', lines = taken ++ more ∧ Makes taken command ∧
        Turn runner c command start s' ∧
        Reads runner c s' more chunks' commands' s rest := by
  obtain ⟨hsplit, makes, turns⟩ := h
  cases turns with
  | nil =>
    cases makes
    exact .inl ⟨rfl, hsplit.symm⟩
  | @cons _ s' _ command commands turn _ turns =>
    obtain _ | @⟨taken, _, chunks, _, hmakes, makes⟩ := makes
    rw [List.flatten_cons, List.append_assoc] at hsplit
    exact .inr ⟨taken, command, s', _, chunks, commands, hsplit, hmakes, turn, rfl, makes, turns⟩

theorem GoesOn.not_over (h : GoesOn commands s) : ¬(commands ≠ [] ∧ s.1.isOver = true) := by
  rintro ⟨hreads, hover⟩
  rcases h with rfl | hgoes
  · exact hreads rfl
  · rw [hgoes] at hover
    cases hover

theorem GoesOn.cons (goesOn : s'.1.isOver = false) (h : GoesOn commands s)
    (turns : Turns runner c s' commands s) : GoesOn (command :: commands) s := by
  rcases h with rfl | h
  · cases turns
    exact .inr goesOn
  · exact .inr h

/-- An interaction whose commands return reads on until it stops. -/
theorem exists_reads_stops (runner : Runner σ) (c : Config) (start : Session σ × History)
    (lines : List String)
    (returns : ∀ chunks commands s taken command rest,
      Reads runner c start lines chunks commands s (taken ++ rest) → GoesOn commands s →
        Makes taken command → isBlankCommand command = false →
          ∃ report after, s.1.Returns runner c command report after) :
    ∃ chunks commands final rest ending,
      Reads runner c start lines chunks commands final rest ∧ Stops commands final rest ending := by
  induction hlength : lines.length using Nat.strongRecOn generalizing start lines with
  | _ n ih =>
    have hstart : Reads runner c start lines [] [] start lines := ⟨rfl, .nil, .nil start⟩
    cases lines with
    | nil => exact ⟨_, _, _, _, _, hstart, .noMoreLines (.inl rfl)⟩
    | cons first lines =>
      rcases exists_makes_or_unfinished first lines with
        ⟨taken, command, rest, hsplit, hmakes⟩ | hunfinished
      · rw [hsplit] at hstart returns hlength ⊢
        obtain ⟨s', hturn⟩ := exists_turn (returns _ _ _ _ _ _ hstart (.inl rfl) hmakes)
        cases hover : s'.1.isOver with
        | true =>
          refine ⟨[taken], [command], s', rest, .requested, ⟨?_, ?_, ?_⟩, .requested nofun hover⟩
          · simp
          · exact .cons hmakes .nil
          · exact .cons hturn (.inl rfl) (.nil s')
        | false =>
          have hshorter : rest.length < n := by
            obtain ⟨first, more, rfl⟩ := hmakes.exists_cons
            simp only [List.cons_append, List.length_cons, List.length_append] at hlength
            omega
          obtain ⟨chunks, commands, final, left, ending, hreads, hstops⟩ :=
            ih rest.length hshorter s' rest
              (fun _ _ _ _ _ _ hreads hgoes =>
                returns _ _ _ _ _ _ (hreads.cons hmakes hturn hover)
                  (hgoes.cons hover hreads.turns)) rfl
          refine ⟨_, _, _, _, ending, hreads.cons hmakes hturn hover, ?_⟩
          cases hstops with
          | requested reads isOver => exact .requested nofun isOver
          | noMoreLines goesOn => exact .noMoreLines (goesOn.cons hover hreads.turns)
          | insideCommand goesOn unfinished =>
            exact .insideCommand (goesOn.cons hover hreads.turns) unfinished
      · exact ⟨_, _, _, _, _, hstart, .insideCommand (.inl rfl) hunfinished⟩

/-- With enough fuel an interaction takes the turns of its commands, and then it is over or goes on
with the lines behind them, whatever these are. -/
theorem Turns.conduct (h : Turns runner c start commands final)
    (makes : List.Forall₂ Makes chunks commands) :
    ∃ enough, ∀ fuel ≥ enough, ∀ rest,
      conduct runner c fuel start (chunks.flatten ++ rest) =
        if commands ≠ [] ∧ final.1.isOver = true then some (final, .requested)
        else ScriptShell.conduct runner c fuel final rest := by
  induction h generalizing chunks with
  | nil s =>
    cases makes
    exact ⟨0, fun fuel _ rest => by simp⟩
  | @cons s s' final command commands turn goesOn turns ih =>
    obtain _ | ⟨hmakes, makes⟩ := makes
    obtain ⟨enough, hprocess⟩ := turn.processCommand
    obtain ⟨enough', hrest⟩ := ih makes
    refine ⟨max enough enough', fun fuel hle rest => ?_⟩
    have hrest := hrest fuel (le_trans (le_max_right _ _) hle) rest
    unfold ScriptShell.conduct at hrest ⊢
    rw [List.flatten_cons, List.append_assoc, hmakes.interact,
      hprocess fuel (le_trans (le_max_left _ _) hle), Option.bind_some, hrest]
    rcases goesOn with rfl | hgoes
    · cases turns
      simp
    · cases commands with
      | nil =>
        cases turns
        simp [hgoes]
      | cons => simp [hgoes]

end Interaction

/-- If each command that is dispatched returns, then an interaction ends. The lines it reads are the
first of its lines, each read once, and they are those of one command after the other; the commands
that are not blank are dispatched, once each and in this order. It stops behind the first command
that asks for the end, and what follows it makes no difference; otherwise it reads all lines, and a
command that is unfinished then is not dispatched. -/
theorem conduct_takesTurns {σ : Type} (runner : Runner σ) (c : Config)
    (start : Session σ × History) (lines : List String)
    (returns : ∀ chunks commands s taken command rest,
      Reads runner c start lines chunks commands s (taken ++ rest) → GoesOn commands s →
        Makes taken command → isBlankCommand command = false →
          ∃ report after, s.1.Returns runner c command report after) :
    ∃ chunks commands final rest ending,
      Reads runner c start lines chunks commands final rest ∧
        Stops commands final rest ending ∧
        ∃ enough, ∀ fuel ≥ enough,
          conduct runner c fuel start lines = some (final, ending) ∧
            (ending = .requested → ∀ unread,
              conduct runner c fuel start (chunks.flatten ++ unread) = some (final, ending)) := by
  obtain ⟨chunks, commands, final, rest, ending, hreads, hstops⟩ :=
    exists_reads_stops runner c start lines returns
  obtain ⟨enough, hconduct⟩ := hreads.turns.conduct hreads.makes
  refine ⟨chunks, commands, final, rest, ending, hreads, hstops, enough, fun fuel hle => ?_⟩
  rw [hreads.split, hconduct fuel hle]
  cases hstops with
  | requested reads isOver =>
    refine ⟨if_pos ⟨reads, isOver⟩, fun _ unread => ?_⟩
    rw [hconduct fuel hle, if_pos ⟨reads, isOver⟩]
  | noMoreLines goesOn =>
    refine ⟨?_, nofun⟩
    rw [if_neg goesOn.not_over, conduct, interact_nil]
  | insideCommand goesOn unfinished =>
    refine ⟨?_, nofun⟩
    rw [if_neg goesOn.not_over, conduct, unfinished.interact]

/-- A blank line, a command of three lines that is dispatched and asks for the end, and a bracket that
is not read. -/
theorem conduct_takesTurns_exit :
    let start : Session Unit := .start (.installed 0 "/")
    let lines : List String := ["", "if 1:", "  exit()", "", "["]
    (∃ report after, start.Returns .system .standard "if 1:\n  exit()" report after ∧
        after.isOver = true) ∧
      ∃ chunks commands final rest ending,
        Reads .system .standard (start, .empty) lines chunks commands final rest ∧
          Stops commands final rest ending ∧
          ∃ enough, ∀ fuel ≥ enough,
            conduct .system .standard fuel (start, .empty) lines = some (final, ending) ∧
              (ending = .requested → ∀ unread,
                conduct .system .standard fuel (start, .empty) (chunks.flatten ++ unread) =
                  some (final, ending)) := by
  intro start lines
  have hexit : (start.dispatch .system .standard 9 "if 1:\n  exit()").any
      (fun answer => answer.2.isOver) = true := by cbv
  obtain ⟨⟨report, after⟩, hdispatch, hover⟩ := (Option.any_eq_true ..).mp hexit
  have hreturns : start.Returns .system .standard "if 1:\n  exit()" report after := ⟨9, hdispatch⟩
  refine ⟨⟨report, after, hreturns, hover⟩, conduct_takesTurns _ _ _ _
    fun chunks commands s taken command rest hreads _ hmakes hfilled => ?_⟩
  -- The first command is blank, the second one is the one that returns, and there is no third one.
  have hfirst : readCommand "" ["if 1:", "  exit()", "", "["] =
      some ("", 0, ["if 1:", "  exit()", "", "["]) := by decide
  have hsecond : readCommand "if 1:" ["  exit()", "", "["] =
      some ("if 1:\n  exit()", 2, ["["]) := by decide
  have hthird : readCommand "[" [] = none := by decide
  obtain ⟨rfl, hrest⟩ | ⟨_, _, s₁, _, _, _, hsplit, hmakes₁, turn, hreads⟩ := hreads.eq_start_or
  · obtain ⟨_, hread⟩ := hmakes.exists_readCommand hrest.symm
    cases hfirst.symm.trans hread
    exact absurd hfilled (by decide)
  obtain ⟨_, hread⟩ := hmakes₁.exists_readCommand hsplit
  cases hfirst.symm.trans hread
  obtain ⟨rfl, hrest⟩ | ⟨_, _, s₂, _, _, _, hsplit, hmakes₂, -, hreads⟩ := hreads.eq_start_or
  · obtain ⟨_, hread⟩ := hmakes.exists_readCommand hrest.symm
    cases hsecond.symm.trans hread
    cases turn with
    | blank => exact ⟨report, after, hreturns⟩
    | dispatched isFilled => exact absurd isFilled (by decide)
  obtain ⟨_, hread⟩ := hmakes₂.exists_readCommand hsplit
  cases hsecond.symm.trans hread
  obtain ⟨rfl, hrest⟩ | ⟨_, _, _, _, _, _, hsplit, hmakes₃, -, -⟩ := hreads.eq_start_or
  · obtain ⟨_, hread⟩ := hmakes.exists_readCommand hrest.symm
    cases hthird.symm.trans hread
  · obtain ⟨_, hread⟩ := hmakes₃.exists_readCommand hsplit
    cases hthird.symm.trans hread

end ScriptShell
