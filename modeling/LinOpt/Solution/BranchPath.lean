/-!
# Places in a search tree

A search that branches in two names its nodes by the branches taken from the root. A path is written
`1.2.2`; the empty path is the root.
-/

namespace LinOpt

/-- One of the two branches below a node. -/
inductive Branch where
  | first
  | second
  deriving DecidableEq

/-- The number a branch is written with. -/
def Branch.number : Branch → Nat
  | .first => 1
  | .second => 2

/-- The branches from the root to a node. -/
structure BranchPath where
  branches : List Branch := []
  deriving DecidableEq

namespace BranchPath

/-- The root of the tree. -/
def root : BranchPath := {}

/-- The node one branch further down. -/
def child (p : BranchPath) (b : Branch) : BranchPath := ⟨p.branches ++ [b]⟩

/-- Number of branches above the node. -/
def depth (p : BranchPath) : Nat := p.branches.length

/-- The written path, empty at the root. -/
def text (p : BranchPath) : String := ".".intercalate (p.branches.map fun b => toString b.number)

/-- The written path, with a word for the root. -/
def label (p : BranchPath) : String := if p.branches.isEmpty then "root" else p.text

end BranchPath
end LinOpt
