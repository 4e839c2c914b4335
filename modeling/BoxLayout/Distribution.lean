import BoxLayout.Scalar
import BoxLayout.Settings

/-!
# Sharing out space

The room along an axis is shared among items that each have a natural extent, two bounds and a
weight. Surplus goes to the items that stretch, by weight; a deficit is taken from the items that
are above their minimum, by how far above they are.

Both directions run the same passes. A pass offers every open item its share of the amount at hand;
an item that reaches its bound stays there and is closed, and what it could not take is offered to
the others by the next pass. The items that reach their bounds in one pass are closed together.

* `Direction` — growing or shrinking, with what differs between the two.
* `Direction.pass` — one pass; `Direction.run` — the passes until nothing is left to do or the limit
  is reached, as a `Course`.
* `distribute` — the choice of a direction, and the sizes with what is left over.
-/

namespace BoxLayout

variable {α : Type} [Scalar α]

/-- One of the items that share an extent. -/
structure Item (α : Type) where
  /-- The extent the item has if there is nothing to share; it keeps to the bounds. -/
  natural : α
  min : α
  max : α
  /-- The item's part of any surplus; nothing for one that never grows. -/
  weight : α

/-- Whether a surplus is handed out or a deficit taken. -/
inductive Direction where
  | grow
  | shrink
  deriving DecidableEq

/-- An item while space is shared out. -/
structure Share (α : Type) where
  item : Item α
  size : α
  /-- Whether the item takes no more part. -/
  closed : Bool

/-- What a pass did. -/
structure PassReport (α : Type) where
  /-- The surplus or the deficit the pass dealt with. -/
  amount : α
  /-- Whether it closed an item. -/
  clamped : Bool

/-- The passes of a distribution. -/
structure Course (α : Type) where
  shares : List (Share α)
  /-- What each pass did that dealt with an amount. -/
  passes : List (PassReport α)
  /-- Whether the passes ended by themselves and not at their limit. -/
  settled : Bool

namespace Direction

/-! ## What differs -/

/-- What an item's part is in proportion to: its weight when growing, and how far it can shrink. -/
def claim : Direction → Item α → α
  | grow, item => item.weight
  | shrink, item => item.natural - item.min

/-- The extent at which an item is closed. -/
def bound : Direction → Item α → α
  | grow, item => item.max
  | shrink, item => item.min

/-- Whether an item takes no part from the start. -/
def exempt : Direction → Item α → Bool
  | grow, item => decide (item.weight ≤ Scalar.zero) || decide (item.max ≤ item.natural)
  | shrink, item => decide (item.natural - item.min ≤ Scalar.zero)

/-- The amount to deal with, from the extent available and the extent used. -/
def amount : Direction → α → α → α
  | grow, available, used => available - used
  | shrink, available, used => used - available

/-- The extent an item is offered, as its part of an amount by the sum of all open claims. -/
def target (d : Direction) (amount total : α) (item : Item α) : α :=
  match d with
  | grow => item.natural + amount * item.weight / total
  | shrink => item.natural - amount * (item.natural - item.min) / total

def reaches : Direction → Item α → α → Bool
  | grow, item, target => decide (item.max ≤ target)
  | shrink, item, target => decide (target ≤ item.min)

/-! ## Passes -/

/-- An item before the first pass. -/
def opening (d : Direction) (item : Item α) : Share α := ⟨item, item.natural, d.exempt item⟩

def totalClaim (d : Direction) (shares : List (Share α)) : α :=
  Scalar.sum ((shares.filter fun s => !s.closed).map fun s => d.claim s.item)

/-- The extent used if the open items had their natural extents again. -/
def used (shares : List (Share α)) : α :=
  Scalar.sum (shares.map fun s => if s.closed then s.size else s.item.natural)

def offer (d : Direction) (amount total : α) (s : Share α) : Share α :=
  if s.closed then s
  else
    let target := d.target amount total s.item
    if d.reaches s.item target then { s with size := d.bound s.item, closed := true }
    else { s with size := target }

def closes (d : Direction) (amount total : α) (s : Share α) : Bool :=
  !s.closed && d.reaches s.item (d.target amount total s.item)

/-- One pass: what it did and the items after it; `none` if there is no claim or no amount left. -/
def pass (d : Direction) (epsilon available : α) (shares : List (Share α)) :
    Option (PassReport α × List (Share α)) :=
  let total := d.totalClaim shares
  if total ≤ Scalar.zero then none
  else
    let amount := d.amount available (used shares)
    if amount ≤ epsilon then none
    else
      some (⟨amount, shares.any (d.closes amount total)⟩, shares.map (d.offer amount total))

/-- Passes up to a limit. They end when a pass finds nothing to do, or closes no item: then every
open item has taken its full part. -/
def run (d : Direction) (epsilon available : α) : Nat → List (Share α) → Course α
  | 0, shares => ⟨shares, [], false⟩
  | limit + 1, shares =>
    match d.pass epsilon available shares with
    | none => ⟨shares, [], true⟩
    | some (report, shares) =>
      if report.clamped then
        let course := d.run epsilon available limit shares
        { course with passes := report :: course.passes }
      else ⟨shares, [report], true⟩

theorem length_of_pass {d : Direction} {epsilon available : α} {shares after : List (Share α)}
    {report : PassReport α} (passed : d.pass epsilon available shares = some (report, after)) :
    after.length = shares.length := by
  simp only [pass] at passed
  split at passed
  case isTrue => simp at passed
  case isFalse =>
    split at passed
    case isTrue => simp at passed
    case isFalse =>
      rw [Option.some.injEq, Prod.mk.injEq] at passed
      rw [← passed.2, List.length_map]

theorem length_run (d : Direction) (epsilon available : α) (limit : Nat)
    (shares : List (Share α)) :
    (d.run epsilon available limit shares).shares.length = shares.length := by
  fun_induction run d epsilon available limit shares with
  | case1 | case2 => rfl
  | case3 limit shares report after passed clamped course ih =>
    exact ih.trans (length_of_pass passed)
  | case4 limit shares report after passed unclamped => exact length_of_pass passed

end Direction

/-! ## The whole distribution -/

/-- How space was shared out. -/
structure Distribution (α : Type) where
  /-- The extents, in the order of the items. -/
  sizes : List α
  /-- The space that remains; negative if the items overflow. -/
  leftover : α
  /-- The passes, if there was anything to share. -/
  course : Option (Direction × Course α)

/-- The direction to take, if there is slack of either sign and, for a surplus, an item to take it. -/
def Direction.choose? (settings : Settings α) (items : List (Item α)) (available : α) :
    Option Direction :=
  let slack := available - Scalar.sum (items.map Item.natural)
  -- A surplus that nobody asks for stays left over.
  if settings.epsilon < slack ∧ items.any (fun item => decide (Scalar.zero < item.weight)) then
    some .grow
  else if slack < -settings.epsilon then some .shrink
  else none

/-- The available extent shared among items. -/
def distribute (settings : Settings α) (items : List (Item α)) (available : α) : Distribution α :=
  let course := (Direction.choose? settings items available).map fun d =>
    (d, d.run settings.epsilon available settings.maxPasses (items.map d.opening))
  let sizes := match course with
    | some (_, course) => course.shares.map Share.size
    | none => items.map Item.natural
  { sizes, leftover := available - Scalar.sum sizes, course }

/-- Every item gets an extent. -/
theorem length_sizes_distribute (settings : Settings α) (items : List (Item α)) (available : α) :
    (distribute settings items available).sizes.length = items.length := by
  unfold distribute
  cases Direction.choose? settings items available with
  | none => simp
  | some d => simp [Direction.length_run]

end BoxLayout
