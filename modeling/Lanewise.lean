import Lanewise.Analysis.Definedness
import Lanewise.Analysis.Indices
import Lanewise.Analysis.Inquiry
import Lanewise.Analysis.Inspect
import Lanewise.Analysis.Literal
import Lanewise.Analysis.Mask
import Lanewise.Analysis.PerComponent
import Lanewise.Analysis.Profile
import Lanewise.Analysis.Session
import Lanewise.Fault
import Lanewise.Graph.Basic
import Lanewise.Graph.Build
import Lanewise.Graph.Command
import Lanewise.Graph.Dump
import Lanewise.Graph.Error
import Lanewise.Graph.Malformed
import Lanewise.Graph.Value
import Lanewise.Number.Binary
import Lanewise.Number.Decimal
import Lanewise.Number.FloatLiteral
import Lanewise.Number.Precision
import Lanewise.Number.Rounding
import Lanewise.Number.Word
import Lanewise.Operation.Intrinsic
import Lanewise.Operation.Opcode
import Lanewise.Query.Basic
import Lanewise.Query.Event
import Lanewise.Query.Sink
import Lanewise.Settings
import Lanewise.Text.Blank
import Lanewise.Text.InlineSuffix
import Lanewise.Text.UnknownWord
import Lanewise.Types.Shape
import Lanewise.Types.Table
import Lanewise.Types.Tree
import Lanewise.View.Basic
import Lanewise.View.Graph
import Lanewise.View.Scan
import Lanewise.View.Table
import Lanewise.Proofs.Analysis.Descent
import Lanewise.Proofs.Analysis.Mask
import Lanewise.Proofs.Analysis.PerComponent
import Lanewise.Proofs.Analysis.Walk
import Lanewise.Proofs.Graph.Acceptance
import Lanewise.Proofs.Graph.Change
import Lanewise.Proofs.Graph.Extension
import Lanewise.Proofs.Graph.Operands
import Lanewise.Proofs.Graph.Outcome
import Lanewise.Proofs.Graph.Phi
import Lanewise.Proofs.Graph.Refusal
import Lanewise.Proofs.Graph.Soundness
import Lanewise.Proofs.Graph.Types
import Lanewise.Proofs.Graph.WellFormed
import Lanewise.Proofs.Number.Word
import Lanewise.Proofs.Types.Interning
import Lanewise.Proofs.Types.Name
import Lanewise.Proofs.Types.Spelling
import Lanewise.Proofs.View.Constant
import Lanewise.Proofs.View.Graph
import Lanewise.Proofs.View.Minimal
import Lanewise.Proofs.Analysis.Definedness
import Lanewise.Proofs.Analysis.Answers
import Lanewise.Proofs.View.Stability
import Lanewise.Proofs.View.Resemblance
import Lanewise.Proofs.Graph.Names
import Lanewise.Proofs.Analysis.Reports
import Lanewise.Proofs.Analysis.Session
import Lanewise.Proofs.Text.Parts
import Lanewise.Proofs.Types.Word
import Lanewise.Proofs.Operation.Name
import Lanewise.Proofs.Number.Display
import Lanewise.Proofs.Graph.Line
import Lanewise.Proofs.Graph.Dump
import Lanewise.Proofs.Analysis.Depth
import Lanewise.Proofs.Analysis.MaskLiterals
import Lanewise.Proofs.Analysis.Indices
import Lanewise.Proofs.Analysis.IntLiteral
import Lanewise.Proofs.Graph.Aggregate
import Lanewise.Proofs.Analysis.Aggregate
import Lanewise.Proofs.Analysis.Width
import Lanewise.Proofs.Analysis.Incoming
import Lanewise.Proofs.Number.Magnitude
import Lanewise.Proofs.Number.Rounding
import Lanewise.Proofs.Number.Conversion
import Lanewise.Proofs.Analysis.FloatLiteral
