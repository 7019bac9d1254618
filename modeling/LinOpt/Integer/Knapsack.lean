import LinOpt.Answer
import LinOpt.Config
import LinOpt.Problem.Basic
import LinOpt.Selection

/-!
# The knapsack search

A breadth-first search for the best packing of items under one capacity. The items are ranked by
value per weight. A node fixes some items in or out; filling up greedily in rank order either splits
an item, which is then branched on (left out first), or gives a packing.

All nodes of a level have the same depth, so the search goes level by level, and it is a recursion
on the number of items that a deeper level may still fix. Once it is interrupted the remaining nodes
are passed over.
-/

namespace LinOpt.Knapsack

variable {α : Type} [Scalar α]

/-- An item, by the index of its variable. -/
structure Item (α : Type) where
  index : Nat
  value : α
  weight : α

/-- Ranks of value per weight, from the least to the greatest. -/
inductive Efficiency (α : Type) where
  /-- Two amounts whose quotient is undefined, as two infinite ones are. -/
  | none
  | ratio (r : α)
  /-- An item without weight. -/
  | unlimited

/-- Value per weight. -/
def Item.efficiency (i : Item α) : Efficiency α :=
  if i.weight == 0 then .unlimited
  else
    let r := i.value / i.weight
    if !Scalar.isDefined r && Scalar.isDefined i.value && Scalar.isDefined i.weight then .none
    else .ratio r

/-- Whether one efficiency ranks at most as high as another. An item without weight ranks with
infinite ratios. -/
def Efficiency.le : Efficiency α → Efficiency α → Bool
  | .none, _ => true
  | _, .none => false
  | .ratio r, .ratio q => Scalar.rankLe (some r) (some q)
  | .ratio r, .unlimited => Scalar.rankLe (some r) Option.none
  | .unlimited, .ratio q => Scalar.rankLe Option.none (some q)
  | .unlimited, .unlimited => true

/-- The items from the most to the least efficient; equally efficient ones stay in order. -/
def rank (items : List (Item α)) : List (Item α) :=
  Selection.sortStable (fun i k => !i.efficiency.le k.efficiency) items

/-- The items and the capacity of a problem, if it is a knapsack problem. -/
def items (p : Problem α) : Except (Error α) (List (Item α) × α) :=
  match p.sense, p.constraints with
  | .minimize, _ => .error .knapsackSense
  | .maximize, [c] =>
    if c.relation ≠ .le then .error (.knapsackRelation c.relation)
    else
      let items := p.vars.zipWith (fun v w => (⟨v.index, v.objective, w⟩ : Item α))
        c.coefficients
      match items.find? fun i => decide (i.weight < 0) || decide (i.value < 0) with
      | some i => .error (.knapsackItem i.index)
      | none => .ok (rank items, c.rhs)
  | .maximize, cs => .error (.knapsackConstraints cs.length)

/-! ## Relaxation -/

/-- A ranked item with its rank and what a node decided about it. -/
structure Slot (α : Type) where
  rank : Nat
  item : Item α
  decision : Option Bool

/-- A packing under way: ranks taken, value and weight. -/
structure Load (α : Type) where
  taken : List Nat := []
  value : α
  weight : α

/-- Takes an item. -/
def Load.take (l : Load α) (s : Slot α) : Load α :=
  ⟨l.taken ++ [s.rank], l.value + s.item.value, l.weight + s.item.weight⟩

/-- The items that a node takes for certain. -/
def fixedLoad (slots : List (Slot α)) : Load α :=
  (slots.filter (·.decision = some true)).foldl Load.take ⟨[], 0, 0⟩

/-- The fractional relaxation of a node: its bound, the whole items taken and the rank of the item
that is split. -/
structure Relaxation (α : Type) where
  bound : α
  load : Load α
  split : Option Nat

/-- Fills up with undecided items in rank order. The first item that does not fit is split, if there
is any room left for it. -/
def fill (tolerance : α) : List (Slot α) → (room bound : α) → Load α → Relaxation α
  | [], _, bound, load => ⟨bound, load, none⟩
  | s :: rest, room, bound, load =>
    if s.decision.isSome then fill tolerance rest room bound load
    else if s.item.weight ≤ room + tolerance then
      fill tolerance rest (room - s.item.weight) (bound + s.item.value) (load.take s)
    else if room > tolerance then
      ⟨bound + s.item.value * room / s.item.weight, load, some s.rank⟩
    else ⟨bound, load, none⟩

/-- The slots of ranked items under the decisions of a node. -/
def slots (items : List (Item α)) (decisions : List (Option Bool)) : List (Slot α) :=
  (items.zip decisions).mapIdx fun k (item, decision) => ⟨k, item, decision⟩

/-- The relaxation of a node, unless the items it takes exceed the capacity. -/
def relax (tolerance : α) (items : List (Item α)) (capacity : α)
    (decisions : List (Option Bool)) : Option (Relaxation α) :=
  let slots := slots items decisions
  let load := fixedLoad slots
  if load.weight > capacity + tolerance then none
  else some (fill tolerance slots (capacity - load.weight) load.value load)

/-! ## Search -/

/-- A packing that the search came to: its number in order of discovery, its place in the tree and
its items in ascending order. -/
structure Candidate (α : Type) where
  number : Nat
  path : BranchPath
  value : α
  weight : α
  items : List Nat

/-- Digits of the bijective numeral of `n + 1` in base 26, the last one first. -/
def labelDigits (n : Nat) : List Char :=
  Char.ofNat ('A'.toNat + n % 26) :: (if n < 26 then [] else labelDigits (n / 26 - 1))
termination_by n

/-- The label of candidate number `n`: `A` to `Z`, then `AA`, `AB`, … -/
def label (n : Nat) : List Char := (labelDigits n).reverse

/-- A node: what it decided about each ranked item, and its place in the tree. -/
structure Node where
  decisions : List (Option Bool)
  path : BranchPath

/-- The child that leaves an item out (`first`) or takes it (`second`). -/
def Node.child (n : Node) (rank : Nat) (b : Branch) : Node :=
  ⟨n.decisions.set rank (some (b = .second)), n.path.child b⟩

/-- What is packed: the ranked items, the capacity, and whether nodes that cannot beat the best
packing are skipped. -/
structure Task (α : Type) where
  items : List (Item α)
  capacity : α
  prune : Bool

/-- The state of a search. -/
structure Search (α : Type) where
  solution : Solution α
  candidates : List (Candidate α) := []
  best : Option (Candidate α) := none
  interrupted : Bool := false
  journal : Journal α

namespace Search

/-- Reports an event about a node and records what became of it. -/
def note (s : Search α) (c : Config α) (path : BranchPath) (event : Option (Event α))
    (text : StepText α) : Search α :=
  { s with
    journal := match event with
      | some e => c.emit s.journal e
      | none => s.journal
    solution := c.record (.node path) (.text text) s.solution }

/-- Whether a bound is too low to beat the best packing. -/
def cannotBeat (s : Search α) (c : Config α) (bound : α) : Bool :=
  match s.best with
  | none => false
  | some b => decide (bound ≤ b.value + c.tolerance)

/-- Takes a packing, as the best if its value is greater. -/
def take (s : Search α) (c : Config α) (t : Task α) (path : BranchPath) (load : Load α) :
    Search α :=
  let indices := load.taken.filterMap fun k => (t.items[k]?).map (·.index)
  let candidate : Candidate α :=
    { number := s.candidates.length
      path
      value := load.value
      weight := load.weight
      items := Selection.sortStable (fun i k => decide (i < k)) indices }
  let s := s.note c path (some (.packingFound candidate.number candidate.value))
    (.packing candidate.number candidate.value)
  let better := match s.best with
    | none => true
    | some b => decide (candidate.value > b.value + c.tolerance)
  { s with
    candidates := s.candidates ++ [candidate]
    best := if better then some candidate else s.best }

/-- Deals with a node; its children are the nodes to visit on the next level. `deeper` says whether
there is one. -/
def visit (s : Search α) (c : Config α) (t : Task α) (deeper : Bool) (node : Node) :
    Search α × List Node :=
  match relax c.tolerance t.items t.capacity node.decisions with
  | none => (s.note c node.path (some (.packingOverfull node.path)) .overfull, [])
  | some r =>
    if t.prune && s.cannotBeat c r.bound then
      (s.note c node.path (some (.packingPruned node.path r.bound)) (.boundTooLow r.bound), [])
    else match r.split with
      | none => (s.take c t node.path r.load, [])
      | some k =>
        if deeper then
          let index := ((t.items[k]?).map (·.index)).getD 0
          (s.note c node.path none (.branchingItem r.bound index),
            [node.child k .first, node.child k .second])
        else ({ s with journal := c.emit s.journal (.packingTooDeep node.path) }, [])

/-- Visits the nodes of a level in order and collects those of the next. -/
def level (c : Config α) (t : Task α) (deeper : Bool) :
    List Node → (next : List Node) → Search α → Search α × List Node
  | [], next, s => (s, next)
  | node :: rest, next, s =>
    let (interrupted, journal) := c.ask s.journal
    if interrupted then
      ({ s with
        journal := c.emit journal (.packingInterrupted (rest.length + next.length + 1))
        solution := s.solution.log .interrupted
        interrupted := true }, [])
    else
      let (s, children) := { s with journal }.visit c t deeper node
      level c t deeper rest (next ++ children) s

/-- Visits the levels from one on; `left` more items may be fixed below it. -/
def levels (c : Config α) (t : Task α) : (left : Nat) → List Node → Search α → Search α
  | 0, nodes, s => (level c t false nodes [] s).1
  | left + 1, nodes, s =>
    let (s, next) := level c t true nodes [] s
    levels c t left next s

end Search

/-- The answer after the search. -/
def conclude (c : Config α) (p : Problem α) (t : Task α) (s : Search α) : Solution α × Journal α :=
  let solution := s.solution.logAll
    (s.candidates.map fun k => .packing k.number k.value k.weight k.items)
  match s.best with
  | none =>
    (if s.interrupted then solution.terminate .limitReached .noPackingYet
      else solution.terminate .infeasible .negativeCapacity, s.journal)
  | some b =>
    let values := (List.range p.numVariables).map fun i =>
      (ColumnName.decision i, if b.items.contains i then (1 : α) else 0)
    let slack := (ColumnName.auxiliary .slack 1, t.capacity - b.weight)
    (({ solution with values := ({} : Valuation α).insertAll (values ++ [slack]) }.settle
        b.value).log (.bestPacking b.number b.value),
      c.emit s.journal (.packingFinished b.value s.candidates.length))

/-- Solves a knapsack problem. The packings found are added to `candidates`, in order of discovery;
the state is the list at the end. -/
def solveFrom (c : Config α) (prune : Bool) (p : Problem α) (j : Journal α)
    (candidates : List (Candidate α)) : Call (List (Candidate α)) α :=
  match items p with
  | .error e => ⟨⟨.error e, j⟩, candidates⟩
  | .ok (items, capacity) =>
    let solution := ({ counts := { decision := items.length } } : Solution α).log
      (.itemRanking (items.map (·.index)))
    let t : Task α := ⟨items, capacity, prune⟩
    let root : Node := ⟨List.replicate items.length none, .root⟩
    let s := Search.levels c t items.length [root] { solution, candidates, journal := j }
    let (solution, j) := conclude c p t s
    ⟨⟨.ok solution, j⟩, s.candidates⟩

/-- Solves a knapsack problem with a list of packings that starts empty. -/
def solve (c : Config α) (prune : Bool) (p : Problem α) (j : Journal α) :
    Call (List (Candidate α)) α := solveFrom c prune p j []

end LinOpt.Knapsack
