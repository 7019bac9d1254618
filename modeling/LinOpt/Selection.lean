/-!
# Choosing and ordering

The solvers choose columns, rows and branching variables by the same rule: walk through the entries
in order, and let an entry replace the choice so far only if it is strictly better. So the first of
several equally good entries is chosen. `firstBest` states that rule once; its two tests are kept
apart because the first entry is compared with a fixed bar and the later ones with the best so far.

`sortStable` orders a list by a strict test and leaves entries in place that the test does not tell
apart.
-/

namespace LinOpt.Selection

variable {α : Type}

/-- Position and value of the best entry from position `i` on, given the best so far. Positions
without an entry are passed over. -/
def firstBestFrom (admits : α → Bool) (beats : α → α → Bool) :
    Nat → Option (Nat × α) → List (Option α) → Option (Nat × α)
  | _, best, [] => best
  | i, best, none :: rest => firstBestFrom admits beats (i + 1) best rest
  | i, best, some v :: rest =>
    let better := match best with
      | none => admits v
      | some (_, w) => beats v w
    firstBestFrom admits beats (i + 1) (if better then some (i, v) else best) rest

/-- Position and value of the first entry that `admits` accepts and no other accepted entry strictly
`beats`. -/
def firstBest (admits : α → Bool) (beats : α → α → Bool) (entries : List (Option α)) :
    Option (Nat × α) :=
  firstBestFrom admits beats 0 none entries

/-- Puts an entry into a list kept in reverse order, behind all entries it does not precede. -/
def insertReversed (precedes : α → α → Bool) (x : α) : List α → List α
  | [] => [x]
  | y :: ys => if precedes x y then y :: insertReversed precedes x ys else x :: y :: ys

/-- Sorts by insertion from the left; an entry moves only in front of entries it strictly precedes.
-/
def sortStable (precedes : α → α → Bool) (xs : List α) : List α :=
  (xs.foldl (fun sorted x => insertReversed precedes x sorted) []).reverse

end LinOpt.Selection
