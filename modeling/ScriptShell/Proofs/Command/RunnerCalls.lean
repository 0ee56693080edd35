import ScriptShell.Command.Dispatch

/-!
# What a runner is asked for

A dispatched command asks the runner for at most one program: the words that its alias leaves of it,
either because it goes the route of programs or because the script that it was run as found a name
unbound. What a runner is asked for can be read off the reports of a session, command by command.
-/

namespace ScriptShell

/-! ### The ways a dispatch can go -/

/-- The script run that a route starts with; the route of programs starts with none. -/
def Route.attempt? (route : Route) (fuel : Nat) (command : String) (s : State) : Option Attempt :=
  match route with
  | .super => some (runSuper fuel command s)
  | .native => some (runNative fuel command s)
  | .compiled => some (runCompiled fuel command s)
  | .shell => none

/-- Whether a command of the route is tried again as that of a program. -/
def Route.triesAgain : Route → Bool
  | .native | .compiled => true
  | .super | .shell => false

/-- A command is tried again where it was taken for a script or a call. -/
theorem Route.triesAgain_iff {route : Route} :
    route.triesAgain = true ↔ route = .native ∨ route = .compiled := by
  cases route <;> simp [Route.triesAgain]

/-- The script run that a route starts with runs a text, or it fails and does nothing. -/
theorem Route.runNative_of_attempt? {route : Route} {fuel : Nat} {command : String}
    {s s' : State} {outcome : Outcome}
    (h : route.attempt? fuel command s = some (some (outcome, s'))) :
    (s' = s ∧ ∃ f, outcome = .failed f) ∨
      ∃ text, runNative fuel text s = some (outcome, s') := by
  cases route with
  | super =>
    have hrun := Option.some.inj h
    unfold runSuper at hrun
    dsimp only at hrun
    split at hrun
    · cases hrun
      exact .inl ⟨rfl, _, rfl⟩
    · exact .inr ⟨_, hrun⟩
  | native => exact .inr ⟨_, Option.some.inj h⟩
  | compiled =>
    have hrun := Option.some.inj h
    unfold runCompiled at hrun
    split at hrun
    · exact .inr ⟨_, hrun⟩
    · cases hrun
      exact .inl ⟨rfl, _, rfl⟩
  | shell => cases h

namespace Session

variable {σ : Type}

/-- What dispatching a command comes to: the run of a program, the run of a script, or the run of a
script that found a name unbound and the run of a program after it. -/
inductive Dispatched (runner : Runner σ) (c : Config) (fuel : Nat) (command : String)
    (s : Session σ) : Report → Session σ → Prop where
  | program {outcome : Outcome} {s' : Session σ} (isRoute : classify c s.state.env command = .shell)
      (answer : s.runShell runner c command = (outcome, s')) :
      Dispatched runner c fuel command s ⟨.shell, false, outcome⟩ s'
  | script {route : Route} {outcome : Outcome} {state : State}
      (isRoute : classify c s.state.env command = route)
      (attempt : route.attempt? fuel command s.state = some (some (outcome, state)))
      (resolved : route.triesAgain = true → outcome.failedWith .unresolvedName = false) :
      Dispatched runner c fuel command s ⟨route, false, outcome⟩ ⟨state, s.memory⟩
  | again {route : Route} {outcome again : Outcome} {state : State} {s' : Session σ}
      (isRoute : classify c s.state.env command = route) (tries : route.triesAgain = true)
      (attempt : route.attempt? fuel command s.state = some (some (outcome, state)))
      (unresolved : outcome.failedWith .unresolvedName = true)
      (answer : retry runner c command outcome ⟨state, s.memory⟩ = (again, s')) :
      Dispatched runner c fuel command s ⟨route, true, again⟩ s'

variable {runner : Runner σ} {c : Config} {fuel : Nat} {command : String} {s s' : Session σ}
  {report : Report}

/-- A command that is run, and perhaps tried again, is dispatched in one of the ways there are. -/
theorem dispatched_of_runOrRetry {route : Route} {attempt : Attempt}
    (h : s.runOrRetry runner c command route attempt = some (report, s'))
    (isRoute : classify c s.state.env command = route) (tries : route.triesAgain = true)
    (hattempt : route.attempt? fuel command s.state = some attempt) :
    Dispatched runner c fuel command s report s' := by
  unfold runOrRetry at h
  split at h
  · cases h
  · dsimp only at h
    split at h
    · next unresolved =>
      cases h
      exact .again isRoute tries hattempt unresolved rfl
    · next resolved =>
      cases h
      exact .script isRoute hattempt fun _ => by simpa using resolved

/-- Every command is dispatched in one of the ways there are. -/
theorem dispatched_of_dispatch (h : s.dispatch runner c fuel command = some (report, s')) :
    Dispatched runner c fuel command s report s' := by
  unfold dispatch at h
  split at h
  · next isRoute =>
    split at h
    · cases h
    · next hrun =>
      cases h
      exact .script isRoute (congrArg some hrun) nofun
  · next isRoute => exact dispatched_of_runOrRetry h isRoute rfl rfl
  · next isRoute => exact dispatched_of_runOrRetry h isRoute rfl rfl
  · next isRoute =>
    cases h
    exact .program isRoute rfl

/-- What is dispatched in one of these ways is dispatched so. -/
theorem Dispatched.dispatch_eq (h : Dispatched runner c fuel command s report s') :
    s.dispatch runner c fuel command = some (report, s') := by
  unfold dispatch
  cases h with
  | program isRoute answer => simp only [isRoute, answer]
  | @script route outcome state isRoute attempt resolved =>
    rw [isRoute]
    cases route with
    | super => simp only [Option.some.inj attempt]
    | native | compiled =>
      simp only [Option.some.inj attempt, runOrRetry, resolved rfl, Bool.false_eq_true, if_false]
    | shell => cases attempt
  | @again route outcome again state s' isRoute tries attempt unresolved answer =>
    rw [isRoute]
    cases route with
    | super | shell => cases tries
    | native | compiled =>
      simp only [Option.some.inj attempt, runOrRetry, unresolved, if_true, answer]

/-- What a dispatched command does to what is bound, it does by running a text as a script. -/
theorem exists_runNative_of_dispatch (h : s.dispatch runner c fuel command = some (report, s')) :
    s'.state.env = s.state.env ∨
      ∃ text outcome state, runNative fuel text s.state = some (outcome, state) ∧
        s'.state.env = state.env := by
  have hattempt : ∀ {route : Route} {outcome state},
      route.attempt? fuel command s.state = some (some (outcome, state)) →
        state.env = s.state.env ∨ ∃ text, runNative fuel text s.state = some (outcome, state) :=
    fun hrun => (Route.runNative_of_attempt? hrun).imp (fun hfailed => by rw [hfailed.1]) id
  cases dispatched_of_dispatch h with
  | program _ answer =>
    cases answer
    exact .inl rfl
  | @script _ outcome state _ attempt _ =>
    exact (hattempt attempt).imp id fun ⟨text, hrun⟩ => ⟨text, outcome, state, hrun, rfl⟩
  | @again _ outcome _ state _ _ _ attempt _ answer =>
    cases answer
    exact (hattempt attempt).imp id fun ⟨text, hrun⟩ => ⟨text, outcome, state, hrun, rfl⟩

end Session

/-! ### Failures of scripts -/

/-- A run of a script never fails because a program is not there. -/
def Attempt.NeedsNoProgram (attempt : Attempt) : Prop :=
  ∀ outcome s, attempt = some (outcome, s) → outcome.failedWith .executableNotFound = false

/-- A fault of a script is no missing program. -/
theorem Failure.kind_ofFault_ne (e : EvalError) :
    (Failure.ofFault e).kind ≠ .executableNotFound := by
  cases e <;> exact nofun

/-- A failure of another kind asks for no program. -/
theorem needsNoProgram_failed {f : Failure} (h : f.kind ≠ .executableNotFound) (s : State) :
    Attempt.NeedsNoProgram (some (.failed f, s)) := by
  intro outcome s' heq
  cases heq
  exact beq_eq_false_iff_ne.mpr h

/-- A syntax error is no missing program. -/
theorem Failure.kind_ofSyntax_ne (message : String) :
    (Failure.ofSyntax message).kind ≠ .executableNotFound := by
  simp [Failure.ofSyntax]

/-- Wrong arguments are no missing program. -/
theorem Failure.kind_ofArguments_ne (command : String) :
    (Failure.ofArguments command).kind ≠ .executableNotFound := by
  simp [Failure.ofArguments]

/-- A call that came to its end asks for no program. -/
theorem needsNoProgram_ofValue (run : Run Value) : (Attempt.ofValue run).NeedsNoProgram := by
  intro outcome s heq
  cases run with
  | unfinished => cases heq
  | done result left =>
    cases result with
    | ok v =>
      cases heq
      rfl
    | error e => exact needsNoProgram_failed (Failure.kind_ofFault_ne e) left outcome s heq

/-- A script that came to its end asks for no program. -/
theorem needsNoProgram_ofScript (run : Run Unit) : (Attempt.ofScript run).NeedsNoProgram := by
  intro outcome s heq
  cases run with
  | unfinished => cases heq
  | done result left =>
    cases result with
    | ok v =>
      cases heq
      rfl
    | error e => exact needsNoProgram_failed (Failure.kind_ofFault_ne e) left outcome s heq

/-- A call that was compiled from a command asks for no program. -/
theorem needsNoProgram_runNative (fuel : Nat) (text : String) (s : State) :
    (runNative fuel text s).NeedsNoProgram := by
  unfold runNative
  split
  · exact needsNoProgram_ofValue _
  · split
    · exact needsNoProgram_ofScript _
    · exact needsNoProgram_failed (Failure.kind_ofSyntax_ne _) s

/-- Whichever route a command goes, its script run does not fail because a program is not there. -/
theorem Route.needsNoProgram_of_attempt? {route : Route} {fuel : Nat} {command : String}
    {s : State} {attempt : Attempt} (h : route.attempt? fuel command s = some attempt) :
    attempt.NeedsNoProgram := by
  cases route with
  | super =>
    cases h
    unfold runSuper
    dsimp only
    split
    · exact needsNoProgram_failed (Failure.kind_ofArguments_ne _) s
    · exact needsNoProgram_runNative fuel _ s
  | native =>
    cases h
    exact needsNoProgram_runNative fuel command s
  | compiled =>
    cases h
    unfold runCompiled
    split
    · exact needsNoProgram_runNative fuel _ s
    · exact needsNoProgram_failed (Failure.kind_ofSyntax_ne _) s
  | shell => cases h

/-! ### Calls of the runner -/

/-- What a runner is asked for to run a command as that of a program, if its alias leaves words of
it. -/
def Config.call? (c : Config) (command : String) : Option Runner.Call :=
  match Piece.textsOfLine (Alias.apply c.aliases command) with
  | [] => none
  | name :: args => some ⟨name :: args, c.captureOutput⟩

/-- What the runner is called with are the words of the command behind its alias. -/
theorem Config.of_call? {c : Config} {command : String} {call : Runner.Call}
    (h : c.call? command = some call) :
    call.words ≠ [] ∧ call.words = Piece.textsOfLine (Alias.apply c.aliases command) ∧
      call.capture = c.captureOutput := by
  unfold call? at h
  split at h
  · cases h
  · next name args hwords =>
    cases h
    exact ⟨List.cons_ne_nil _ _, hwords.symm, rfl⟩

/-- What a runner was asked for by a command that was dispatched and reported on. -/
def Report.call? (report : Report) (c : Config) (command : String) : Option Runner.Call :=
  if report.route = .shell ∨ report.retried = true then c.call? command else none

namespace Session

variable {σ : Type}

/-- A session whose runner also remembers what it is asked for, and was asked for before. -/
def recorded (s : Session σ) (calls : List Runner.Call) : Session (σ × List Runner.Call) :=
  ⟨s.state, s.memory, calls⟩

variable (runner : Runner σ) (c : Config) (command : String) (s : Session σ)

/-- Running a program asks the runner for it, once. -/
theorem runShell_recorded (calls : List Runner.Call) :
    (s.recorded calls).runShell runner.recording c command =
      ((s.runShell runner c command).1,
        (s.runShell runner c command).2.recorded ((c.call? command).toList ++ calls)) := by
  obtain ⟨run⟩ := runner
  unfold runShell ScriptShell.runShell Config.call? Runner.recording recorded
  cases Piece.textsOfLine (Alias.apply c.aliases command) with
  | nil => rfl
  | cons name args =>
    dsimp only
    generalize run (name :: args) c.captureOutput s.state.world s.memory = answer
    obtain ⟨result, world, memory⟩ := answer
    cases result <;> rfl

/-- A recording runner is called once by a retry, with the words of the command. -/
theorem retry_recorded (outcome : Outcome) (calls : List Runner.Call) :
    (s.recorded calls).retry runner.recording c command outcome =
      ((s.retry runner c command outcome).1,
        (s.retry runner c command outcome).2.recorded ((c.call? command).toList ++ calls)) := by
  unfold retry
  simp only [runShell_recorded]

variable {runner c command s}

/-- A session whose runner remembers what it is asked for reports what the session without this
memory does, and remembers what the report says that it was asked for. -/
theorem dispatch_recorded {fuel : Nat} {s' : Session σ} {report : Report}
    (h : s.dispatch runner c fuel command = some (report, s')) (calls : List Runner.Call) :
    (s.recorded calls).dispatch runner.recording c fuel command =
      some (report, s'.recorded ((report.call? c command).toList ++ calls)) := by
  refine Dispatched.dispatch_eq ?_
  cases dispatched_of_dispatch h with
  | program isRoute answer =>
    have hrun := runShell_recorded runner c command s calls
    rw [answer] at hrun
    rw [Report.call?, if_pos (.inl rfl)]
    exact .program isRoute hrun
  | @script route outcome state isRoute attempt resolved =>
    have hcall : Report.call? ⟨route, false, outcome⟩ c command = none := by
      refine if_neg fun h => ?_
      rcases h with rfl | h
      · cases attempt
      · cases h
    rw [hcall]
    exact .script (s := s.recorded calls) isRoute attempt resolved
  | @again route outcome again state s' isRoute tries attempt unresolved answer =>
    have hretry := retry_recorded runner c command ⟨state, s.memory⟩ outcome calls
    rw [answer] at hretry
    rw [Report.call?, if_pos (.inr rfl)]
    exact .again isRoute tries attempt unresolved hretry

/-! ### Sequences of commands -/

/-- A command of a session: the configuration it was dispatched with, and what was reported. -/
structure Entry where
  config : Config
  command : String
  report : Report

/-- What the runner was asked for by a command of a session. -/
def Entry.call? (entry : Entry) : Option Runner.Call :=
  entry.report.call? entry.config entry.command

/-- The commands that are dispatched one after the other from a session to another one. -/
inductive Runs (runner : Runner σ) : Session σ → List Entry → Session σ → Prop where
  | nil (s : Session σ) : Runs runner s [] s
  | cons {s s' s'' : Session σ} {c : Config} {fuel : Nat} {command : String} {report : Report}
      {entries : List Entry} (step : s.dispatch runner c fuel command = some (report, s'))
      (rest : Runs runner s' entries s'') : Runs runner s (⟨c, command, report⟩ :: entries) s''

/-- What the runner is asked for along a sequence of commands is what the reports say, in turn. -/
theorem Runs.recorded {entries : List Entry} {s s' : Session σ} (h : Runs runner s entries s')
    (calls : List Runner.Call) :
    Runs runner.recording (s.recorded calls) entries
      (s'.recorded ((entries.filterMap Entry.call?).reverse ++ calls)) := by
  induction h generalizing calls with
  | nil s => exact .nil _
  | @cons s s' s'' c fuel command report entries step rest ih =>
    refine .cons (dispatch_recorded step calls) ?_
    have hcalls : ((Entry.mk c command report :: entries).filterMap Entry.call?).reverse =
        (entries.filterMap Entry.call?).reverse ++ (report.call? c command).toList := by
      cases hcall : report.call? c command <;> simp [Entry.call?, hcall]
    rw [hcalls, List.append_assoc]
    exact ih ((report.call? c command).toList ++ calls)

/-- Each command of a sequence was dispatched. -/
theorem Runs.dispatched {entries : List Entry} {s s' : Session σ} (h : Runs runner s entries s')
    {entry : Entry} (mem : entry ∈ entries) :
    ∃ fuel left right,
      dispatch runner entry.config fuel entry.command left = some (entry.report, right) := by
  induction h with
  | nil => cases mem
  | @cons s s' _ _ fuel _ _ _ step _ ih =>
    rcases List.mem_cons.mp mem with rfl | mem
    · exact ⟨fuel, s, s', step⟩
    · exact ih mem

/-! ### What is reported -/

/-- Trying a command again as that of a program fails because there is no program only if the
script did. -/
theorem failedWith_retry (runner : Runner σ) (c : Config) (command : String) {outcome : Outcome}
    (s : Session σ) (h : outcome.failedWith .executableNotFound = false) :
    (s.retry runner c command outcome).1.failedWith .executableNotFound = false := by
  unfold retry
  dsimp only
  split
  · exact h
  · next hagain => simpa using hagain

/-- The report of a missing program is that of a command that went the route of programs. -/
theorem Dispatched.of_executableNotFound {fuel : Nat} {s' : Session σ} {report : Report}
    (h : Dispatched runner c fuel command s report s')
    (failed : report.outcome.failedWith .executableNotFound = true) :
    report.route = .shell ∧ report.retried = false := by
  cases h with
  | program => exact ⟨rfl, rfl⟩
  | @script route outcome state isRoute attempt resolved =>
    have hnot := Route.needsNoProgram_of_attempt? attempt outcome state rfl
    rw [hnot] at failed
    cases failed
  | @again route outcome again state s' isRoute tries attempt unresolved answer =>
    have hnot := Route.needsNoProgram_of_attempt? attempt outcome state rfl
    have hretry := failedWith_retry runner c command ⟨state, s.memory⟩ hnot
    rw [answer, failed] at hretry
    cases hretry

/-- The report of a command that went the route of programs. -/
theorem Dispatched.of_shell {fuel : Nat} {s' : Session σ} {report : Report}
    (h : Dispatched runner c fuel command s report s') (route : report.route = .shell) :
    report.retried = false ∧ (report.outcome, s') = s.runShell runner c command ∧
      s'.state.env = s.state.env := by
  cases h with
  | program isRoute answer =>
    refine ⟨rfl, answer.symm, ?_⟩
    exact congrArg (fun answer => answer.2.state.env) answer.symm
  | script isRoute attempt =>
    cases route
    cases attempt
  | again isRoute tries =>
    cases route
    cases tries

/-- The report of a command that was run as a script. -/
theorem Dispatched.of_script {fuel : Nat} {s' : Session σ} {report : Report}
    (h : Dispatched runner c fuel command s report s') (route : report.route ≠ .shell) :
    ∃ outcome state, report.route.attempt? fuel command s.state = some (some (outcome, state)) ∧
      s'.state.env = state.env ∧
      (report.retried = true ↔ (report.route = .native ∨ report.route = .compiled) ∧
        outcome.failedWith .unresolvedName = true) ∧
      (report.retried = false → report.outcome = outcome ∧ s' = ⟨state, s.memory⟩) ∧
      (report.retried = true → ∃ again,
        runShell runner c command ⟨state, s.memory⟩ = (again, s') ∧
          report.outcome = if again.failedWith .executableNotFound then outcome else again) := by
  cases h with
  | program => exact absurd rfl route
  | @script route outcome state isRoute attempt resolved =>
    refine ⟨outcome, state, attempt, rfl, ?_, fun _ => ⟨rfl, rfl⟩, nofun⟩
    rw [← Route.triesAgain_iff]
    refine ⟨nofun, fun h => ?_⟩
    rw [resolved h.1] at h
    exact h.2
  | @again route outcome answer state s' isRoute tries attempt unresolved hanswer =>
    unfold retry at hanswer
    generalize hrun : runShell runner c command ⟨state, s.memory⟩ = run at hanswer
    obtain ⟨again, left⟩ := run
    cases hanswer
    refine ⟨outcome, state, attempt, ?_, ⟨fun _ => ⟨Route.triesAgain_iff.mp tries, unresolved⟩,
      fun _ => rfl⟩, nofun, fun _ => ⟨again, hrun, rfl⟩⟩
    exact congrArg (fun answer => answer.2.state.env) hrun.symm

/-- The route of a report is the one that the command was classified to. -/
theorem Dispatched.route_eq {fuel : Nat} {s' : Session σ} {report : Report}
    (h : Dispatched runner c fuel command s report s') :
    report.route = classify c s.state.env command := by
  cases h with
  | program isRoute => exact isRoute.symm
  | script isRoute => exact isRoute.symm
  | again isRoute => exact isRoute.symm

/-- What the runner was asked for by a command that was reported on. -/
theorem Dispatched.of_call? {fuel : Nat} {s' : Session σ} {report : Report}
    (h : Dispatched runner c fuel command s report s') {call : Runner.Call}
    (hcall : report.call? c command = some call) :
    report.route ≠ .super ∧ call.words ≠ [] ∧
      call.words = Piece.textsOfLine (Alias.apply c.aliases command) ∧
      call.capture = c.captureOutput ∧ (report.route = .shell ∨ report.retried = true) := by
  unfold Report.call? at hcall
  split at hcall
  · next asked =>
    obtain ⟨hwords, heq, hcapture⟩ := Config.of_call? hcall
    refine ⟨fun hsuper => ?_, hwords, heq, hcapture, asked⟩
    rcases asked with hshell | hretried
    · rw [hsuper] at hshell
      cases hshell
    · obtain ⟨outcome, state, -, -, hiff, -⟩ := h.of_script (by rw [hsuper]; exact nofun)
      rcases (hiff.mp hretried).1 with hroute | hroute <;> rw [hsuper] at hroute <;> cases hroute
  · cases hcall

/-- Dispatching a command asks the runner for at most one program, whose words are those that the
alias leaves of the command: if the command goes the route of programs, or if it is a script that
found a name unbound. In the latter case, and only then, the command was tried again, in the state
that the script left, and the outcome is that of the script if there is no such program and that
of the program otherwise. So a missing program is reported on the route of programs only, and what
is bound is what the script left. Along a sequence of commands the runner is asked for what the
reports say, in turn. -/
theorem runner_asked_at_most_once {σ : Type} (runner : Runner σ) :
    (∀ c fuel command (s s' : Session σ) report,
      s.dispatch runner c fuel command = some (report, s') →
        report.route = classify c s.state.env command ∧
        (∀ calls, (s.recorded calls).dispatch runner.recording c fuel command =
          some (report, s'.recorded ((report.call? c command).toList ++ calls))) ∧
        (∀ call, report.call? c command = some call →
          report.route ≠ .super ∧ call.words ≠ [] ∧
            call.words = Piece.textsOfLine (Alias.apply c.aliases command) ∧
            call.capture = c.captureOutput ∧ (report.route = .shell ∨ report.retried = true)) ∧
        (report.route = .shell →
          report.retried = false ∧ (report.outcome, s') = s.runShell runner c command ∧
            s'.state.env = s.state.env) ∧
        (report.route ≠ .shell → ∃ outcome state,
          report.route.attempt? fuel command s.state = some (some (outcome, state)) ∧
            s'.state.env = state.env ∧
            (report.retried = true ↔ (report.route = .native ∨ report.route = .compiled) ∧
              outcome.failedWith .unresolvedName = true) ∧
            (report.retried = false → report.outcome = outcome ∧ s' = ⟨state, s.memory⟩) ∧
            (report.retried = true → ∃ again,
              runShell runner c command ⟨state, s.memory⟩ = (again, s') ∧
                report.outcome =
                  if again.failedWith .executableNotFound then outcome else again)) ∧
        (report.outcome.failedWith .executableNotFound = true →
          report.route = .shell ∧ report.retried = false)) ∧
    (∀ entries (s s' : Session σ), Runs runner s entries s' →
      (∀ calls, Runs runner.recording (s.recorded calls) entries
        (s'.recorded ((entries.filterMap Entry.call?).reverse ++ calls))) ∧
      ∀ entry ∈ entries, ∃ fuel left right,
        dispatch runner entry.config fuel entry.command left = some (entry.report, right)) := by
  refine ⟨fun c fuel command s s' report h => ?_, fun entries s s' h => ?_⟩
  · have hdispatched := dispatched_of_dispatch h
    exact ⟨hdispatched.route_eq, dispatch_recorded h, fun call => hdispatched.of_call?,
      hdispatched.of_shell, hdispatched.of_script, hdispatched.of_executableNotFound⟩
  · exact ⟨h.recorded, fun entry mem => h.dispatched mem⟩

end Session

end ScriptShell
