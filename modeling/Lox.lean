import Lox.Descent.Parser
import Lox.Eval
import Lox.Grammar.Reader
import Lox.Listing
import Lox.Main
import Lox.Number.Format
import Lox.Number.Numeral
import Lox.Proofs.Descent.Calls
import Lox.Proofs.Descent.Consumption
import Lox.Proofs.Descent.Infix
import Lox.Proofs.Descent.Linked
import Lox.Proofs.Descent.Runs
import Lox.Proofs.Grammar.Build
import Lox.Proofs.Grammar.Match
import Lox.Proofs.Grammar.Moves
import Lox.Proofs.Parity.Acceptance
import Lox.Proofs.Parity.Blame
import Lox.Proofs.Parity.FirstError
import Lox.Proofs.Parity.Goal
import Lox.Proofs.Parity.Simulation
import Lox.Proofs.Parity.Terminals
import Lox.Proofs.Scan.Calls
import Lox.Proofs.Scan.FormFeed
import Lox.Proofs.Scan.Items
import Lox.Proofs.Scan.Lexemes
import Lox.Proofs.Scan.Literal
import Lox.Proofs.Scan.Munch
import Lox.Render
import Lox.Scan
import Lox.Session.Highlight
import Lox.Text.Alphanumeric
import Lox.Text.LineBreak
import Lox.Text.Quoted
import Lox.Proofs.Descent.Spacing
import Lox.Proofs.Eval.Room
import Lox.Proofs.Eval.Typing
import Lox.Proofs.Program.Outcome
import Lox.Proofs.Number.ReadBack
import Lox.Proofs.Number.Text
import Lox.Proofs.Number.RoundTrip
import Lox.Proofs.Session.Independence
import Lox.Proofs.Render.Readable
import Lox.Proofs.Render.Trees
import Lox.Proofs.Scan.Lines
import Lox.Proofs.Descent.Extension
import Lox.Proofs.Descent.Lines
import Lox.Proofs.Grammar.Lines
import Lox.Proofs.Program.Concatenation
import Lox.Proofs.CommandLine.ExitCodes
import Lox.Proofs.Grammar.Alone
import Lox.Proofs.Program.Entries
import Lox.Proofs.Descent.Complaints
import Lox.Proofs.Program.OneLine
import Lox.Proofs.Depth.Guards
import Lox.Proofs.Parity.Rejection
import Lox.Proofs.Program.DeepEntries
import Lox.Proofs.Session.Fragments
import Lox.Proofs.Session.Shadowing
import Lox.Proofs.Number.Rounding
import Lox.Proofs.Number.Doubles
import Lox.Proofs.Number.Limits
import Lox.Proofs.Program.Chains
import Lox.Proofs.CommandLine.Options
import Lox.Proofs.Session.Brackets
import Lox.Proofs.Session.Styles
import Lox.Proofs.Session.Documents
