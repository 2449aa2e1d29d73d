import Primer.Agreement.Basic
import Primer.Agreement.Generator
import Primer.Agreement.Standing
import Primer.CommandLine.Command
import Primer.CommandLine.Flag
import Primer.CommandLine.Invocation
import Primer.CommandLine.Log
import Primer.CommandLine.Path
import Primer.CommandLine.Workplace
import Primer.Diagnostic
import Primer.Document.Basic
import Primer.Document.Toml
import Primer.Document.Yaml
import Primer.Embedding.Hosts
import Primer.Embedding.Native
import Primer.Embedding.Offering
import Primer.Embedding.Session
import Primer.Embedding.Taking
import Primer.Execution
import Primer.Exercise.Basic
import Primer.Exercise.File
import Primer.History
import Primer.History.Archive
import Primer.Host.Arithmetic
import Primer.Host.Color
import Primer.Host.Console
import Primer.Host.Standard
import Primer.Main
import Primer.Markup
import Primer.Number.Binary
import Primer.Number.Exact
import Primer.Number.Reading
import Primer.Number.Shortest
import Primer.Number.Single
import Primer.Number.Text
import Primer.Proofs.Control.Steady
import Primer.Proofs.Lenient.Memory
import Primer.Proofs.Lenient.Operator
import Primer.Proofs.Lenient.Text
import Primer.Proofs.Lenient.Tree
import Primer.Proofs.Run.Companion
import Primer.Proofs.Run.Ending
import Primer.Proofs.Run.Narration
import Primer.Proofs.Run.Passing
import Primer.Proofs.Run.Plain
import Primer.Proofs.Run.Plan
import Primer.Proofs.Run.Quiet
import Primer.Proofs.Run.Restriction
import Primer.Proofs.Service.Strategy
import Primer.Run.Action
import Primer.Run.Evaluator
import Primer.Run.Fault
import Primer.Run.Filter
import Primer.Run.Host
import Primer.Run.Operator
import Primer.Run.Record
import Primer.Run.Scope
import Primer.Run.State
import Primer.Run.Strategy
import Primer.Service.Message
import Primer.Service.Runner
import Primer.Source.Grammar
import Primer.Source.Literal
import Primer.Source.Pattern
import Primer.Source.Position
import Primer.Source.Program
import Primer.Source.Reader
import Primer.Source.Subset
import Primer.Source.Token
import Primer.Text.Blank
import Primer.Text.Category
import Primer.Text.Lower
import Primer.Text.Quoted
import Primer.Time.Calendar
import Primer.Time.Duration
import Primer.Tree.Basic
import Primer.Tree.Code
import Primer.Tree.Walk
import Primer.Value.Basic
import Primer.Value.Conversion
import Primer.Value.Equality
import Primer.Value.Memory
import Primer.Proofs.Lenient.Scope
import Primer.Proofs.Lenient.State
import Primer.Proofs.Lenient.Action
import Primer.Proofs.Lenient.Effect
import Primer.Proofs.Lenient.Simulation
import Primer.Proofs.Lenient.Program
import Primer.Proofs.Control.Part
import Primer.Proofs.Control.Restored
import Primer.Proofs.Control.Nesting
import Primer.Proofs.Limit.Budget
import Primer.Proofs.Limit.Transparency
import Primer.Proofs.Realm.Depth
import Primer.Proofs.Record.Construct
import Primer.Proofs.Realm.Origin
import Primer.Proofs.Locals.Program
import Primer.Proofs.Print.Program
import Primer.Proofs.Print.Recovery
import Primer.Proofs.Sound.Program
import Primer.Proofs.Tree.Numbering
import Primer.Proofs.History.Log
import Primer.Proofs.Run.Reading
import Primer.Proofs.Counted.Program
import Primer.Proofs.Generated.Program
import Primer.Proofs.Element.Program
import Primer.Proofs.Array.Sequence
import Primer.Proofs.Array.Text
import Primer.Proofs.Operand.Place
import Primer.Proofs.Markup.Page
import Primer.Proofs.Number.Conversion
import Primer.Proofs.Number.Written
import Primer.Proofs.Value.Equality
import Primer.Proofs.Markup.Operand
import Primer.Proofs.Embedding.Integer
import Primer.Proofs.Embedding.Ending
import Primer.Proofs.Embedding.RoundTrip
import Primer.Proofs.Text.Json
import Primer.Proofs.Vocabulary.Program
import Primer.Proofs.Semicolon.Program
