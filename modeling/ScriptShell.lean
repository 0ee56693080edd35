import ScriptShell.Command.Argument
import ScriptShell.Command.Continuation
import ScriptShell.Command.Dispatch
import ScriptShell.Command.Execution
import ScriptShell.Command.Outcome
import ScriptShell.Command.Piece
import ScriptShell.Config.Basic
import ScriptShell.Config.Reader
import ScriptShell.Config.TomlText
import ScriptShell.Config.TomlTree
import ScriptShell.Evaluation.Environment
import ScriptShell.Evaluation.Evaluator
import ScriptShell.Evaluation.State
import ScriptShell.Files.Calendar
import ScriptShell.Files.Listing
import ScriptShell.Files.Node
import ScriptShell.Files.Operation
import ScriptShell.Files.Path
import ScriptShell.Files.Refusal
import ScriptShell.Files.Trash
import ScriptShell.Files.World
import ScriptShell.Function.Arguments
import ScriptShell.Function.Builtin
import ScriptShell.Function.Conversion
import ScriptShell.Function.FileAccess
import ScriptShell.Main
import ScriptShell.Number.Binary64
import ScriptShell.Number.Digits
import ScriptShell.Number.FloatText
import ScriptShell.Number.Integer
import ScriptShell.Number.Shortest
import ScriptShell.Program.Escaped
import ScriptShell.Program.Finished
import ScriptShell.Program.Installed
import ScriptShell.Program.Interpreter
import ScriptShell.Program.Run
import ScriptShell.Program.Runner
import ScriptShell.Program.ShellScript
import ScriptShell.Program.Utility
import ScriptShell.Proofs.Command.CallSyntax
import ScriptShell.Proofs.Command.CallText
import ScriptShell.Proofs.Command.FrameDiscipline
import ScriptShell.Proofs.Command.HeldBack
import ScriptShell.Proofs.Command.NativeRun
import ScriptShell.Proofs.Command.Pieces
import ScriptShell.Proofs.Command.Quoting
import ScriptShell.Proofs.Command.Routing
import ScriptShell.Proofs.Command.RunnerCalls
import ScriptShell.Proofs.Command.Sequence
import ScriptShell.Proofs.Command.Segments
import ScriptShell.Proofs.Command.SessionNames
import ScriptShell.Proofs.Evaluation.BoundNames
import ScriptShell.Proofs.Evaluation.Constant
import ScriptShell.Proofs.Evaluation.Frames
import ScriptShell.Proofs.Evaluation.Kept
import ScriptShell.Proofs.Evaluation.MoreFuel
import ScriptShell.Proofs.Evaluation.Visited
import ScriptShell.Proofs.Number.Decimal
import ScriptShell.Proofs.Script.Acceptance
import ScriptShell.Proofs.Script.Brackets
import ScriptShell.Proofs.Script.Completeness
import ScriptShell.Proofs.Script.Exchange
import ScriptShell.Proofs.Script.FirstTokens
import ScriptShell.Proofs.Script.Grammar
import ScriptShell.Proofs.Script.PegReading
import ScriptShell.Proofs.Script.PegExpressions
import ScriptShell.Proofs.Script.PegStatements
import ScriptShell.Proofs.Script.PegScripts
import ScriptShell.Proofs.Script.PlainReading
import ScriptShell.Proofs.Script.Soundness
import ScriptShell.Proofs.Token.Alike
import ScriptShell.Proofs.Token.Content
import ScriptShell.Proofs.Token.Covering
import ScriptShell.Proofs.Token.Cutting
import ScriptShell.Proofs.Token.Joined
import ScriptShell.Proofs.Token.Lexed
import ScriptShell.Proofs.Token.LineEnds
import ScriptShell.Proofs.Token.OneLine
import ScriptShell.Proofs.Token.Spacing
import ScriptShell.Proofs.Value.Written
import ScriptShell.Script.ExprReader
import ScriptShell.Script.Peg
import ScriptShell.Script.PegGrammar
import ScriptShell.Script.Reader
import ScriptShell.Script.Tree
import ScriptShell.Session.CommandLine
import ScriptShell.Session.Display
import ScriptShell.Session.History
import ScriptShell.Session.Interaction
import ScriptShell.Session.Startup
import ScriptShell.Session.TypedLine
import ScriptShell.Text.Blank
import ScriptShell.Text.Cluster
import ScriptShell.Text.ClusterClass
import ScriptShell.Text.Escape
import ScriptShell.Text.Intervals
import ScriptShell.Text.Utf8
import ScriptShell.Text.Visible
import ScriptShell.Token.Basic
import ScriptShell.Token.Flag
import ScriptShell.Token.Layout
import ScriptShell.Token.Lexeme
import ScriptShell.Value.Arithmetic
import ScriptShell.Value.Basic
import ScriptShell.Value.Entries
import ScriptShell.Value.Equality
import ScriptShell.Value.Fault
import ScriptShell.Value.Items
import ScriptShell.Value.Order
import ScriptShell.Value.Progression
import ScriptShell.Value.Text
import ScriptShell.Proofs.Evaluation.OuterFrames
import ScriptShell.Proofs.Value.Functions
import ScriptShell.Proofs.Evaluation.Termination
import ScriptShell.Proofs.Token.Indentation
import ScriptShell.Proofs.Token.LineByLine
import ScriptShell.Proofs.Command.SessionDicts
import ScriptShell.Proofs.Evaluation.Scoping
import ScriptShell.Proofs.Session.Interaction
import ScriptShell.Proofs.Value.Arithmetic
import ScriptShell.Proofs.Value.Ranges
import ScriptShell.Proofs.Value.Equality
import ScriptShell.Proofs.Value.Limits
import ScriptShell.Proofs.Value.FloatWords
import ScriptShell.Proofs.Value.Numbers
import ScriptShell.Proofs.Script.Lookahead
import ScriptShell.Proofs.Script.FirstImpossible
import ScriptShell.Proofs.Evaluation.SimpleStatements
import ScriptShell.Proofs.Files.PathTexts
import ScriptShell.Proofs.Files.Lookup
import ScriptShell.Proofs.Files.Walking
import ScriptShell.Proofs.Files.Searching
import ScriptShell.Proofs.Files.Going
import ScriptShell.Proofs.Evaluation.Bindings
import ScriptShell.Proofs.Evaluation.Journal
import ScriptShell.Proofs.Files.Leading
import ScriptShell.Proofs.Files.Writing
import ScriptShell.Proofs.Files.Copying
