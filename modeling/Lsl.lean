import Lsl.Check.Expr
import Lsl.Check.Run
import Lsl.Check.Script
import Lsl.Check.Stmt
import Lsl.Cli.Command
import Lsl.Cli.Directory
import Lsl.Cli.Help
import Lsl.Cli.Options
import Lsl.Cli.Outcome
import Lsl.Cli.Path
import Lsl.Diagnostic.Basic
import Lsl.Diagnostic.Code
import Lsl.Diagnostic.Format
import Lsl.Diagnostic.OfNotice
import Lsl.Diagnostic.Report
import Lsl.Diagnostic.Underline
import Lsl.Generate.Body
import Lsl.Generate.Error
import Lsl.Generate.Expr
import Lsl.Generate.Script
import Lsl.Generate.Settings
import Lsl.Generate.Unit
import Lsl.Host.Code
import Lsl.Host.Constant
import Lsl.Host.Literal
import Lsl.Host.Render
import Lsl.InternalError
import Lsl.Json.Basic
import Lsl.Json.Decode
import Lsl.Json.Printer
import Lsl.Json.Reader
import Lsl.Labels
import Lsl.Library.Catalog
import Lsl.Library.Json
import Lsl.Library.Overload
import Lsl.Library.Signature
import Lsl.Library.Standard
import Lsl.LineMap
import Lsl.Main
import Lsl.Notice
import Lsl.Operator
import Lsl.Proofs.Check.Acts
import Lsl.Proofs.Check.BackReferences
import Lsl.Proofs.Check.Connected
import Lsl.Proofs.Check.DeadCode
import Lsl.Proofs.Check.Effects
import Lsl.Proofs.Check.ErrorFlags
import Lsl.Proofs.Check.ExprActs
import Lsl.Proofs.Check.Forest
import Lsl.Proofs.Check.Judgements
import Lsl.Proofs.Check.LabelJumps
import Lsl.Proofs.Check.LabelSites
import Lsl.Proofs.Check.Laid
import Lsl.Proofs.Check.Landing
import Lsl.Proofs.Check.LastStatements
import Lsl.Proofs.Check.Reports
import Lsl.Proofs.Check.ScriptActs
import Lsl.Proofs.Check.Shape
import Lsl.Proofs.Check.StmtActs
import Lsl.Proofs.Check.StringLiteral
import Lsl.Proofs.Check.Uses
import Lsl.Proofs.Check.Within
import Lsl.Proofs.Diagnostic.Format
import Lsl.Proofs.Diagnostic.Underline
import Lsl.Proofs.Generate.Calls
import Lsl.Proofs.Generate.Checkpoints
import Lsl.Proofs.Generate.Collecting
import Lsl.Proofs.Generate.Definitions
import Lsl.Proofs.Generate.Emission
import Lsl.Proofs.Generate.Labels
import Lsl.Proofs.Generate.Layout
import Lsl.Proofs.Generate.Methods
import Lsl.Proofs.Generate.Names
import Lsl.Proofs.Generate.Operations
import Lsl.Proofs.Generate.References
import Lsl.Proofs.Generate.Steps
import Lsl.Proofs.Generate.Total
import Lsl.Proofs.Host.Flow
import Lsl.Proofs.Host.Lines
import Lsl.Proofs.Host.ListConstant
import Lsl.Proofs.Host.Literal
import Lsl.Proofs.Host.Operations
import Lsl.Proofs.Host.Rendering
import Lsl.Proofs.Host.Spots
import Lsl.Proofs.Json.Fields
import Lsl.Proofs.Json.ReadBack
import Lsl.Proofs.Library.Constructed
import Lsl.Proofs.Library.Lawful
import Lsl.Proofs.Library.Merging
import Lsl.Proofs.Library.ReadBack
import Lsl.Proofs.Library.Selection
import Lsl.Proofs.Lockstep.Blocks
import Lsl.Proofs.Lockstep.Declarations
import Lsl.Proofs.Lockstep.Exprs
import Lsl.Proofs.Lockstep.Opening
import Lsl.Proofs.Lockstep.Order
import Lsl.Proofs.Lockstep.Parts
import Lsl.Proofs.Lockstep.Rename
import Lsl.Proofs.Lockstep.Reorder
import Lsl.Proofs.Lockstep.Steps
import Lsl.Proofs.Lockstep.Stmts
import Lsl.Proofs.Lockstep.Twins
import Lsl.Proofs.Mistakes.Declarations
import Lsl.Proofs.Mistakes.Exprs
import Lsl.Proofs.Mistakes.Judgements
import Lsl.Proofs.Mistakes.Links
import Lsl.Proofs.Mistakes.Replaced
import Lsl.Proofs.Mistakes.Runs
import Lsl.Proofs.Mistakes.Scripts
import Lsl.Proofs.Mistakes.Spares
import Lsl.Proofs.Mistakes.Steps
import Lsl.Proofs.Mistakes.Stmts
import Lsl.Proofs.Mistakes.Trees
import Lsl.Proofs.Mistakes.Upholds
import Lsl.Proofs.Reachability.Analyzer
import Lsl.Proofs.Reachability.Classification
import Lsl.Proofs.Reachability.ControlFlow
import Lsl.Proofs.Reachability.Flow
import Lsl.Proofs.Reachability.JumpTargets
import Lsl.Proofs.Reachability.Jumps
import Lsl.Proofs.Reachability.Segments
import Lsl.Proofs.Reachability.Visits
import Lsl.Proofs.Scoping.Bodies
import Lsl.Proofs.Scoping.Clean
import Lsl.Proofs.Scoping.Declarations
import Lsl.Proofs.Scoping.Distinct
import Lsl.Proofs.Scoping.Exprs
import Lsl.Proofs.Scoping.Layout
import Lsl.Proofs.Scoping.Numbering
import Lsl.Proofs.Scoping.Resolution
import Lsl.Proofs.Scoping.Rules
import Lsl.Proofs.Scoping.Scripts
import Lsl.Proofs.Scoping.Sites
import Lsl.Proofs.Scoping.Stmts
import Lsl.Proofs.Script.RoundTrip
import Lsl.Proofs.Script.Written
import Lsl.Proofs.Text.Blank
import Lsl.Proofs.Text.LineMap
import Lsl.Proofs.Tree.Growth
import Lsl.Proofs.Tree.Nodes
import Lsl.Proofs.Tree.Placing
import Lsl.Proofs.Typing.Soundness
import Lsl.Proofs.Typing.Values
import Lsl.Reachability
import Lsl.ScopeStack
import Lsl.Script.Basic
import Lsl.Script.Build
import Lsl.Script.Json
import Lsl.Span
import Lsl.StringLiteral
import Lsl.Text.Blank
import Lsl.Text.Style
import Lsl.Tree.Basic
import Lsl.Tree.Node
import Lsl.Ty
import Lsl.Typing
