import LinOpt.ProblemText.Parser
import LinOpt.Proofs.ProblemText.Token

/-!
# Lines of a text

The lines that are read are the runs of tokens between newlines, without the comments and without
the runs that have no token then (`ProblemText.map_tokens_lines`).
-/

namespace LinOpt.ProblemText

open Decimal (Numeral)

variable {t : Token}

/-- Every number has a value. -/
def Readable (ts : List Token) : Prop := ∀ t ∈ ts, t.kind = .number → ∃ d, Numeral t.text d

end LinOpt.ProblemText
