import LinOpt.Main
import LinOpt.Scalar.Rational
import LinOpt.Proofs.Arithmetic
import LinOpt.Proofs.Tableau.Entries
import LinOpt.Proofs.Tableau.System
import LinOpt.Proofs.Tableau.Basis
import LinOpt.Proofs.Tableau.Corners
import LinOpt.Proofs.Tableau.Choice
import LinOpt.Proofs.Problem.Feasible
import LinOpt.Proofs.Changes
import LinOpt.Proofs.StandardForm.Point
import LinOpt.Proofs.StandardForm.Numbering
import LinOpt.Proofs.Simplex.Dual.Counters
import LinOpt.Proofs.Simplex.Dual.Represents
import LinOpt.Proofs.Simplex.Dual.Growth
import LinOpt.Proofs.Simplex.Dual.Build
import LinOpt.Proofs.Simplex.Dual.Phases
import LinOpt.Proofs.Solution.Valuation
import LinOpt.Proofs.Simplex.Dual.Session
import LinOpt.Proofs.Simplex.Dual.History
import LinOpt.Proofs.Simplex.Dual.Penalty
import LinOpt.Proofs.Simplex.Primal
import LinOpt.Proofs.Tableau.Reading
import LinOpt.Proofs.Simplex.RoundTrip
import LinOpt.Proofs.Integer.Fractional
import LinOpt.Proofs.Integer.SearchLoop
import LinOpt.Proofs.Simplex.Dual.Vertex
import LinOpt.Proofs.Integer.BranchAndBound
import LinOpt.Proofs.Integer.GomoryCut
import LinOpt.Proofs.Integer.Relaxation
import LinOpt.Proofs.Integer.CuttingPlane
import LinOpt.Proofs.Integer.Agreement
import LinOpt.Proofs.Simplex.Dual.Equations
import LinOpt.Proofs.Simplex.Dual.Duality
import LinOpt.Proofs.Simplex.Pivots
import LinOpt.Proofs.Simplex.Inverse
import LinOpt.Proofs.Simplex.PrimalDual
import LinOpt.Proofs.Simplex.Revised
import LinOpt.Proofs.Simplex.Singular
import LinOpt.Proofs.Simplex.RevisedOptimum
import LinOpt.Proofs.Selection
import LinOpt.Proofs.Integer.Knapsack.Relaxation
import LinOpt.Proofs.Integer.Knapsack.Search
import LinOpt.Proofs.Integer.Knapsack.Optimum
import LinOpt.Proofs.Integer.Knapsack.Pruning
import LinOpt.Proofs.StandardForm.Exchange
import LinOpt.Proofs.ProblemText.Numeral
import LinOpt.Proofs.ProblemText.Token
import LinOpt.Proofs.ProblemText.Grammar
import LinOpt.Proofs.ProblemText.Lookahead
import LinOpt.Proofs.ProblemText.Span
import LinOpt.Proofs.ProblemText.Rows
import LinOpt.Proofs.ProblemText.Blame
import LinOpt.Proofs.ProblemText.Layout
import LinOpt.Proofs.Magnitude
import LinOpt.Proofs.Simplex.Dual.Refusal
import LinOpt.Proofs.Simplex.Dual.Shape
import LinOpt.Proofs.Simplex.Dual.Tolerance
import LinOpt.Proofs.Simplex.Dual.Replay
import LinOpt.Proofs.Recording.Simplex
import LinOpt.Proofs.Recording.Integer
import LinOpt.Proofs.Recording.Methods
import LinOpt.Proofs.Simplex.Dual.Errors
import LinOpt.Proofs.Integer.Errors
import LinOpt.Proofs.Solution.Status
import LinOpt.Proofs.Simplex.Dual.WarmStart
import LinOpt.Proofs.Integer.CutTrace
import LinOpt.Proofs.Integer.NodeSteps
import LinOpt.Proofs.Integer.NodeCount
import LinOpt.Proofs.Integer.Preorder
import LinOpt.Proofs.Runs
import LinOpt.Proofs.Integer.DepthLimit
import LinOpt.Proofs.Integer.Knapsack.Queue
import LinOpt.Proofs.Integer.Knapsack.Candidates
import LinOpt.Proofs.Simplex.Determinant
import LinOpt.Proofs.Tableau.Pivoting
import LinOpt.Proofs.Integer.MostFractional
import LinOpt.Proofs.Problem.Violations
import LinOpt.Proofs.Problem.Building
import LinOpt.Proofs.Simplex.Ascent
import LinOpt.Proofs.Integer.Knapsack.Labels
