import Reckoner.Main
import Reckoner.Log.Template
import Reckoner.Proofs.Grammar.Acceptance
import Reckoner.Proofs.Grammar.Viable
import Reckoner.Proofs.Scan.Segmentation
import Reckoner.Proofs.Evaluation.PostOrder
import Reckoner.Proofs.Evaluation.Clean
import Reckoner.Proofs.Solve.Shape
import Reckoner.Proofs.Solve.Minus
import Reckoner.Proofs.Solve.Composition
import Reckoner.Proofs.Grammar.Limit
import Reckoner.Proofs.Solve.Limits
import Reckoner.Proofs.Number.ReadBack
import Reckoner.Proofs.Solve.Precision
import Reckoner.Proofs.Solve.Verdict
import Reckoner.Proofs.Scan.Calculation
import Reckoner.Proofs.Evaluation.Record
import Reckoner.Proofs.Solve.Recheck
import Reckoner.Proofs.Grammar.Position
import Reckoner.Proofs.Scan.Spacing
import Reckoner.Proofs.Solve.Count
import Reckoner.Proofs.Solve.Spacing
import Reckoner.Proofs.Console.Session
import Reckoner.Proofs.Console.Evaluate
import Reckoner.Proofs.Solve.Height
import Reckoner.Proofs.Log.Rejection
import Reckoner.Proofs.Text.Line
import Reckoner.Proofs.Log.Message
import Reckoner.Proofs.Log.Line
import Reckoner.Proofs.Number.Notation
import Reckoner.Proofs.Json.Grammar
import Reckoner.Proofs.Json.Print
import Reckoner.Proofs.Json.Answer
import Reckoner.Proofs.Grammar.Matching
import Reckoner.Proofs.Scan.Apart
import Reckoner.Proofs.Scan.Glyph
import Reckoner.Proofs.Log.Setup
import Reckoner.Proofs.Console.Logging
import Reckoner.Proofs.Number.Value
import Reckoner.Proofs.Number.Nearest
import Reckoner.Proofs.Elementary.Trigonometry
import Reckoner.Proofs.Operation.Domain
import Reckoner.Proofs.Number.Reading
import Reckoner.Proofs.Number.Compact
import Reckoner.Proofs.Number.Fixed
import Reckoner.Proofs.Number.NegativeZero
import Reckoner.Proofs.Solve.NegativeZero
import Reckoner.Proofs.History
import Reckoner.Proofs.Grammar.Progress
import Reckoner.Proofs.Number.Mantissa
import Reckoner.Proofs.Elementary.Enclosure
import Reckoner.Proofs.Elementary.Circle
import Reckoner.Proofs.Elementary.Folding
import Reckoner.Proofs.Operation.SquareRoot
import Reckoner.Proofs.Operation.Angles
import Reckoner.Proofs.Scan.Normalization
import Reckoner.Proofs.Scan.Normalization
