import DiceLang.Expr.Printer
import DiceLang.Expr.Parser
import DiceLang.Dice
import DiceLang.Value.Printer
import DiceLang.Value.Fold
import DiceLang.Scope.Environment
import DiceLang.Report
import DiceLang.Import.Files
import DiceLang.Import.Cache
import DiceLang.Main
import DiceLang.Proofs.Expr.Tree
import DiceLang.Proofs.Expr.Bare
import DiceLang.Proofs.Token.Reading
import DiceLang.Proofs.Expr.Words
import DiceLang.Proofs.Expr.Edges
import DiceLang.Proofs.Expr.WellFormed
import DiceLang.Proofs.Token.Glue
import DiceLang.Proofs.Expr.Spelling
import DiceLang.Proofs.Token.Lexemes
import DiceLang.Proofs.Expr.Fits
import DiceLang.Proofs.Parser.Steps
import DiceLang.Proofs.Parser.Grammar
import DiceLang.Proofs.Parser.Grammatical
import DiceLang.Proofs.Expr.Reread
import DiceLang.Proofs.Parser.Levels
import DiceLang.Proofs.Parser.Spine
import DiceLang.Proofs.Parser.Atoms
import DiceLang.Proofs.Parser.Forms
import DiceLang.Proofs.Expr.Stable
import DiceLang.Proofs.Parser.Statements
import DiceLang.Proofs.Expr.Signs
import DiceLang.Proofs.Parser.Signs
import DiceLang.Proofs.Label.Fill
import DiceLang.Proofs.Label.Derivation
import DiceLang.Proofs.Label.Placement
import DiceLang.Proofs.Expr.RoundTrip
import DiceLang.Proofs.Label.ReadBack
import DiceLang.Proofs.Scope.Stack
import DiceLang.Proofs.Eval.Bookkeeping
import DiceLang.Proofs.Eval.Agreement
import DiceLang.Proofs.Session
import DiceLang.Proofs.Text.ByteOrder
import DiceLang.Proofs.Value.Tree
import DiceLang.Proofs.Value.Unfolding
import DiceLang.Proofs.Value.TotalOrder
import DiceLang.Proofs.Value.Sorting
import DiceLang.Proofs.Value.Comparison
import DiceLang.Proofs.Value.Bisimulation
import DiceLang.Proofs.Value.FirstDifference
import DiceLang.Proofs.Scope.Frame
import DiceLang.Proofs.Scope.Sound
import DiceLang.Proofs.Scope.Climb
import DiceLang.Proofs.Scope.Client
import DiceLang.Proofs.Scope.Ledger
import DiceLang.Proofs.Scope.Recycling
import DiceLang.Proofs.Eval.Code
import DiceLang.Proofs.Eval.Logic
import DiceLang.Proofs.Eval.Derived
import DiceLang.Proofs.Eval.Tolerant
import DiceLang.Proofs.Eval.Passive
import DiceLang.Proofs.Eval.Trait
import DiceLang.Proofs.Eval.Typed
import DiceLang.Proofs.Eval.NativeKind
import DiceLang.Proofs.Value.Nesting
import DiceLang.Proofs.Random.Rejection
import DiceLang.Proofs.Eval.Ending
import DiceLang.Proofs.Eval.Endless
import DiceLang.Proofs.Distribution.Counting
import DiceLang.Proofs.Value.Source
import DiceLang.Proofs.Eval.Observation
import DiceLang.Proofs.Value.Untouched
import DiceLang.Proofs.Scope.Tended
import DiceLang.Proofs.TwoRuns.Values
import DiceLang.Proofs.TwoRuns.Data
import DiceLang.Proofs.TwoRuns.Twin
import DiceLang.Proofs.TwoRuns.Steps
import DiceLang.Proofs.TwoRuns.Calls
import DiceLang.Proofs.TwoRuns.Forms
import DiceLang.Proofs.TwoRuns.InOrder
import DiceLang.Proofs.TwoRuns.Inwards
import DiceLang.Proofs.Distribution.Paths
import DiceLang.Proofs.Record
import DiceLang.Proofs.ImplicitOutput
import DiceLang.Proofs.Import.Course
import DiceLang.Proofs.Import.Protocol
import DiceLang.Proofs.Import.History
import DiceLang.Proofs.Value.Cut
import DiceLang.Proofs.Token.Tiling
import DiceLang.Proofs.Token.Literals
import DiceLang.Proofs.Token.Names
import DiceLang.Proofs.Token.Comments
import DiceLang.Proofs.Parser.Extent
import DiceLang.Proofs.Parser.Lockstep
import DiceLang.Proofs.Parser.Parallel
import DiceLang.Proofs.Parser.Sections
import DiceLang.Proofs.Parser.Spans
import DiceLang.Proofs.ErrorPlace
import DiceLang.Proofs.Random.Fairness
import DiceLang.Proofs.Dice.Selection
import DiceLang.Proofs.Value.Copy
import DiceLang.Proofs.Scope.Intact
import DiceLang.Proofs.Eval.Safe
import DiceLang.Proofs.Eval.Intact
import DiceLang.Proofs.Eval.Copy
import DiceLang.Proofs.Eval.Lossless
import DiceLang.Proofs.Eval.Sound
import DiceLang.Proofs.Loop.Repeat
import DiceLang.Proofs.Loop.ForEach
import DiceLang.Proofs.Eval.Arguments
import DiceLang.Proofs.Dice.Deck
import DiceLang.Proofs.Arithmetic
import DiceLang.Proofs.Distribution.OrderStatistics
import DiceLang.Proofs.Subscript.Read
import DiceLang.Proofs.Subscript.Write
import DiceLang.Proofs.Scope.Sweeping
import DiceLang.Proofs.Scope.Assignment
