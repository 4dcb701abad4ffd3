import Polarity.Main
import Polarity.Session
import Polarity.Proofs.Change
import Polarity.Proofs.Change.Keeping
import Polarity.Proofs.Change.Lockstep
import Polarity.Proofs.Assignment.Values
import Polarity.Proofs.Assignment.Updates
import Polarity.Proofs.Assignment.Histories
import Polarity.Proofs.Formula.Valuation
import Polarity.Proofs.Mirror
import Polarity.Proofs.Search.Trail
import Polarity.Proofs.Search.Propagation
import Polarity.Proofs.Search.Rounds
import Polarity.Proofs.Search.Fixpoint
import Polarity.Proofs.Search.Confluence
import Polarity.Proofs.Search.Entailment
import Polarity.Proofs.Search.TreeBound
import Polarity.Proofs.Search.Verdict
import Polarity.Proofs.Search.Coherence
import Polarity.Proofs.Search.Guided
import Polarity.Proofs.Search.Lockstep
import Polarity.Proofs.Search.Stability
import Polarity.Proofs.Search.Flag
import Polarity.Proofs.Search.Influence
import Polarity.Proofs.Search.Symmetry
import Polarity.Proofs.Search.Succession
import Polarity.Proofs.Solver.Aligned
import Polarity.Proofs.Store.Calls
import Polarity.Proofs.Store.Record
import Polarity.Proofs.Search.Conflicts
import Polarity.Proofs.Search.Recording
import Polarity.Proofs.Results
import Polarity.Proofs.Text.Layout
import Polarity.Proofs.Text.Numerals
import Polarity.Proofs.Text.Spacing
import Polarity.Proofs.Text.Utf8
import Polarity.Proofs.Solver.Window
import Polarity.Proofs.Solver.Universe
import Polarity.Proofs.Formula.Grammar
import Polarity.Proofs.Formula.Printing
import Polarity.Proofs.Hint.Grammar
import Polarity.Proofs.Hint.Printing
import Polarity.Proofs.Json.Objects
import Polarity.Proofs.Prediction.Generation
import Polarity.Proofs.Prediction.Steering
import Polarity.Proofs.Prediction.Loading
import Polarity.Proofs.Prediction.Entries
import Polarity.Proofs.Prediction.Truncation
import Polarity.Proofs.Host.Requests
import Polarity.Proofs.Host.Lifecycle
import Polarity.Proofs.Host.Isolation
import Polarity.Proofs.Statistics.Printing
import Polarity.Proofs.Host.Signals
import Polarity.Proofs.CommandLine.Diagnostics
import Polarity.Proofs.CommandLine.Run
import Polarity.Proofs.CommandLine.Startup
import Polarity.Proofs.CommandLine.Verdicts
import Polarity.Proofs.Text.Lines
import Polarity.Proofs.Prediction.Reading
import Polarity.Proofs.Directory.Writing
import Polarity.Proofs.Prediction.Files
import Polarity.Proofs.CommandLine.Arguments
import Polarity.Proofs.CommandLine.Quiet
import Polarity.Proofs.Store.Refusals
import Polarity.Proofs.CommandLine.InitPhaseFile
import Polarity.Proofs.Literal.Encodings
import Polarity.Proofs.Double.Rounding
import Polarity.Proofs.Double.Values
import Polarity.Proofs.Prediction.Fractions
import Polarity.Proofs.Statistics.Buffering
