import Mathlib.Algebra.Ring.Int.Defs
import Mathlib.Data.List.Sort
import Mathlib.Algebra.BigOperators.Group.List.Basic

/-!
# The floor-aware coin selector

A YED output is assigned at least `min_output` cents, so change strictly between nothing and that
floor cannot be assigned.  The selector looks for coins in stages: an exact match, one coin whose
change clears the floor, the smallest coins first, a bounded search for the smallest valid change,
and, where that is allowed, a sub-dollar remainder that is burned.

Amounts are integers; the sums the selector takes are those of a wallet's coins and fit 64 bits.

That the sums fit is an assumption of all that is proved of the selector: a wallet's tokens are
worth what was ever minted, far below 2⁶³ cents.  A server that lists tokens it made up can break
it, and then the source's sums wrap, or panic in a debug build.

## Source

* `core/src/coinselect.rs`: `SelectStage`, `SelectStage::name`, `Selection`, `Alternatives`,
  `rank_descending`, `rank_ascending`, `Goal`, `Walk` and 9 more
-/

namespace Yew.CoinSelect

/-- `SelectStage`. -/
inductive SelectStage where
  | none
  | exact
  | single
  | greedy
  | search
  | burn
deriving DecidableEq

/-- `SelectStage::name`. -/
def SelectStage.name : SelectStage → String
  | .exact => "exact"
  | .single => "single"
  | .greedy => "greedy"
  | .search => "search"
  | .burn => "burn"
  | .none => "none"

/-- `Selection`; the defaults are `Selection::default`. -/
structure Selection where
  ok : Bool := false
  insufficient : Bool := false
  tooManyInputs : Bool := false
  stage : SelectStage := .none
  /-- Indexes into the coins, ascending. -/
  inputs : List Nat := []
  selected : Int := 0
  change : Int := 0
  extraBurn : Int := 0
deriving DecidableEq

/-- `SELECT_SEARCH_BUDGET`. -/
def selectSearchBudget : Int := 200000

/-- The value of a coin. -/
def coin (coins : List Int) (i : Nat) : Int := coins.getD i 0

/-- `rank_descending`: by value, the largest first, ties by position. -/
def rankDescending (coins : List Int) : List Nat :=
  (List.range coins.length).insertionSort fun a b ↦
    coin coins b < coin coins a ∨ coin coins a = coin coins b ∧ a ≤ b

/-- `rank_ascending`: by value, the smallest first, ties by position. -/
def rankAscending (coins : List Int) : List Nat :=
  (List.range coins.length).insertionSort fun a b ↦
    coin coins a < coin coins b ∨ coin coins a = coin coins b ∧ a ≤ b

/-! ## The walk -/

/-- `Goal`: what a walk looks for. -/
inductive Goal where
  /-- The target, with the fewest inputs. -/
  | exact
  /-- The target or at least the floor above it, with the smallest change. -/
  | validChange
  /-- At least the target, with the smallest sum. -/
  | overshoot
  /-- Above the target, with the smallest sum. -/
  | above
  /-- Below the target, with the largest sum. -/
  | below
deriving DecidableEq

/-- What a `Walk` does not change: the coins, their order and the question. -/
structure Walk where
  coins : List Int
  order : List Nat
  target : Int
  minOutput : Int
  maxInputs : Nat
  goal : Goal

/-- What a `Walk` changes as it goes. -/
structure State where
  budget : Int
  found : Bool
  bestSum : Int
  /-- Positions in the order. -/
  bestPick : List Nat
  pick : List Nat

namespace Walk

/-- The value of the coin at a position of the order. -/
def value (w : Walk) (i : Nat) : Int := coin w.coins (w.order.getD i 0)

/-- `suffix[i]`: the sum of the coins from a position on. -/
def suffix (w : Walk) (i : Nat) : Int := ((w.order.drop i).map (coin w.coins)).sum

/-- `better`. -/
def better (w : Walk) (s : State) (sum : Int) (count : Nat) : Bool :=
  if s.found then
    match w.goal with
    | .exact => count < s.bestPick.length
    | .validChange | .overshoot =>
      sum < s.bestSum || (sum = s.bestSum && count < s.bestPick.length)
    | .above => sum < s.bestSum
    | .below => s.bestSum < sum
  else true

/-- `record`. -/
def record (w : Walk) (s : State) (sum : Int) : State :=
  if w.better s sum s.pick.length then
    { s with found := true, bestSum := sum, bestPick := s.pick }
  else s

/-- `done`: the goal can no longer be improved. -/
def done (w : Walk) (s : State) : Bool :=
  s.found && (decide (w.goal = .exact ∧ s.bestPick.length = 1) ||
    decide ((w.goal = .validChange ∨ w.goal = .overshoot) ∧ s.bestSum = w.target))

/-- Whether a sum is one that the goal records. -/
def hits (w : Walk) (next : Int) : Bool :=
  match w.goal with
  | .exact => next = w.target
  | .validChange => next = w.target || w.target + w.minOutput ≤ next
  | .overshoot => w.target ≤ next
  | .above => w.target < next
  | .below => next < w.target

/-- Whether coins may still be added to a sum. -/
def goesOn (w : Walk) (next : Int) : Bool :=
  match w.goal with
  | .exact => next < w.target
  | .validChange | .overshoot | .above => !w.hits next
  | .below => w.hits next

/-- The guard of `descend`: nothing is left to spend, or nothing to improve. -/
def stopped (w : Walk) (s : State) : Bool := s.budget ≤ 0 || w.done s

/-- `descend` into `body`, for one unit of the budget. -/
def enter (w : Walk) (body : State → State) (s : State) : State :=
  if w.stopped s then s else body { s with budget := s.budget - 1 }

/-- The coin at position `i` is picked: what is recorded. -/
def visit (w : Walk) (i : Nat) (next : Int) (s : State) : State :=
  let s := { s with pick := s.pick ++ [i] }
  if w.hits next then w.record s next else s

/-- One turn of the loop: the coin at position `i` is picked, `descend` goes on from there, and the
coin is put back. -/
def turn (w : Walk) (descend : Int → State → State) (i : Nat) (sum : Int) (s : State) : State :=
  let next := sum + w.value i
  let s := w.visit i next s
  let s := if s.pick.length < w.maxInputs ∧ w.goesOn next then w.enter (descend next) s else s
  { s with pick := s.pick.dropLast }

/-- The loop of `descend` over the `k` positions from `i` on. -/
def loop (w : Walk) : Nat → Nat → Int → State → State
  | 0, _, _, s => s
  | k + 1, i, sum, s =>
    if w.stopped s then s
    -- even with every remaining coin the target is not reached
    else if w.goal ≠ .below ∧ sum + w.suffix i < w.target then s
    else w.loop k (i + 1) sum (w.turn (w.loop k (i + 1)) i sum s)

/-- `descend`. -/
def descend (w : Walk) (pos : Nat) (sum : Int) (s : State) : State :=
  w.enter (w.loop (w.order.length - pos) pos sum) s

/-- The state a walk begins with. -/
def start : State := ⟨selectSearchBudget, false, 0, [], []⟩

/-- The walk from the first position. -/
def run (w : Walk) : State := w.descend 0 0 start

/-- `result`: the indexes of the coins, ascending. -/
def result (w : Walk) (s : State) : List Nat :=
  (s.bestPick.map fun p ↦ w.order.getD p 0).insertionSort (· ≤ ·)

end Walk

/-! ## The selector -/

/-- `make`. -/
def make (stage : SelectStage) (coins : List Int) (idx : List Nat) (target extraBurn : Int) :
    Selection :=
  let selected := (idx.map (coin coins)).sum
  { ok := true, stage := stage, inputs := idx, selected := selected,
    change := selected - target - extraBurn, extraBurn := extraBurn }

/-- `reachable`: the sum of the `max_inputs` largest coins. -/
def reachable (coins : List Int) (desc : List Nat) (maxInputs : Nat) : Int :=
  ((desc.take maxInputs).map (coin coins)).sum

/-- Stage 3: the coins picked smallest first, until the change is valid. -/
def greedy (coins : List Int) (target minOutput : Int) (maxInputs : Nat) :
    List Nat → List Nat → Int → Option (List Nat)
  | [], _, _ => none
  | i :: asc, pick, sum =>
    if coin coins i ≤ 0 then greedy coins target minOutput maxInputs asc pick sum
    else if pick.length = maxInputs then none
    else
      let pick := pick ++ [i]
      let sum := sum + coin coins i
      if sum < target then greedy coins target minOutput maxInputs asc pick sum
      else if sum - target = 0 ∨ minOutput ≤ sum - target then some pick
      else greedy coins target minOutput maxInputs asc pick sum

/-- Stages 1 to 4, when the coins reach the target. -/
def selectStages (coins : List Int) (desc : List Nat) (target minOutput : Int)
    (maxInputs : Nat) : Option Selection :=
  let walk goal : Walk := ⟨coins, desc, target, minOutput, maxInputs, goal⟩
  let s := (walk .exact).run
  if s.found then some (make .exact coins ((walk .exact).result s) target 0)
  else
    let asc := rankAscending coins
    match asc.find? fun i ↦ target + minOutput ≤ coin coins i with
    | some i => some (make .single coins [i] target 0)
    | none =>
      match greedy coins target minOutput maxInputs asc [] 0 with
      | some pick => some (make .greedy coins (pick.insertionSort (· ≤ ·)) target 0)
      | none =>
        let s := (walk .validChange).run
        if s.found then some (make .search coins ((walk .validChange).result s) target 0)
        else none

/-- The stage that burns a remainder below the floor. -/
def selectBurn (coins : List Int) (desc : List Nat) (target minOutput : Int)
    (maxInputs : Nat) : Option Selection :=
  let w : Walk := ⟨coins, desc, target, minOutput, maxInputs, .overshoot⟩
  let s := w.run
  let extra := s.bestSum - target
  if s.found ∧ 0 < extra ∧ extra < minOutput then
    some (make .burn coins (w.result s) target extra)
  else none

/-- `select_floor_aware`. -/
def selectFloorAware (coins : List Int) (target minOutput : Int) (maxInputs : Nat)
    (allowSubDollarBurn : Bool) : Selection :=
  if target < 0 then {}
  else if target = 0 then { ok := true, stage := .exact }
  else if (coins.filter (0 < ·)).sum < target then { insufficient := true }
  else
    let desc := rankDescending coins
    if reachable coins desc maxInputs < target then { tooManyInputs := true }
    else
      match selectStages coins desc target minOutput maxInputs with
      | some s => s
      | none =>
        if allowSubDollarBurn then
          (selectBurn coins desc target minOutput maxInputs).getD {}
        else {}

/-! ## The nearest workable amounts -/

/-- `Alternatives`. -/
structure Alternatives where
  below : Option Int := none
  above : Option Int := none
deriving DecidableEq

/-- `nearest_workable`: the largest amount below the target that can be paid, and the smallest
above it. -/
def nearestWorkable (coins : List Int) (target minOutput : Int) (maxInputs : Nat) :
    Alternatives :=
  let desc := rankDescending coins
  let reach := reachable coins desc maxInputs
  if reach ≤ 0 then {}
  else
    let walk goal : State := (⟨coins, desc, target, minOutput, maxInputs, goal⟩ : Walk).run
    let up := walk .above
    let above := if target < reach ∧ (!up.found ∨ reach < up.bestSum) then reach
      else if up.found then up.bestSum else 0
    let down := walk .below
    let below := if down.found ∧ reach - minOutput < down.bestSum then down.bestSum
      else reach - minOutput
    { above := if target < above then some above else none
      below := if minOutput ≤ below ∧ below < target then some below else none }

end Yew.CoinSelect
