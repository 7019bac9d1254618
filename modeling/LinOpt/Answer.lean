import LinOpt.Error
import LinOpt.Journal
import LinOpt.Solution.Basic

/-!
# Answers of solvers

Every solver takes a journal and hands it back, whether it finds a solution or is refused one.
-/

namespace LinOpt

/-- What a solver call ends with: a solution or the reason why there is none, and the journal so
far. -/
structure Answer (α : Type) where
  result : Except (Error α) (Solution α)
  journal : Journal α

/-- The answer of a solver that leaves something behind besides, on errors as well. -/
structure Call (σ α : Type) extends Answer α where
  state : σ

end LinOpt
