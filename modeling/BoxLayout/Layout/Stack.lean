import BoxLayout.Layout.Cell

/-!
# Stacks

A stack packs its children one after another along its axis.

* `Stack.naturalSize` — the size a stack would like: the sum along the axis, the largest across it.
* `Stack.distribution` — how the extent along the axis is shared among the children.
* `Stack.runAlignment` — where the packed run sits if space is left over.
* `Stack.frame` — a child's frame once its start and its extent along the axis are known.
* `Stack.place` — the frames of all children.
-/

namespace BoxLayout.Stack

variable {α : Type} [Scalar α]

/-! ## Along the axis -/

/-- The extents that are not up to the children: their margins, and the spacing between them. -/
def gaps (axis : Axis) (container : View α) (cells : List (Cell α)) : α :=
  Scalar.ofCount (cells.length - 1) * container.constraints.spacing.along axis

def naturalSize (axis : Axis) (container : View α) (cells : List (Cell α)) : Size α :=
  let extent (axis : Axis) (c : Cell α) := c.natural.along axis + c.margins.along axis
  let main := Scalar.sum (cells.map (extent axis)) + gaps axis container cells
  let cross := (cells.map (extent axis.cross)).foldl Scalar.max Scalar.zero
  .ofAxes axis main cross

/-- A child as one of the items that share the extent along the axis. -/
def item (axis : Axis) (c : Cell α) : Item α :=
  { natural := c.natural.along axis
    min := c.constraints.min.along axis
    max := c.constraints.max.along axis
    weight := c.constraints.stretch.along axis }

/-- The extent along the axis, less margins and spacing, shared among the children. -/
def distribution (settings : Settings α) (axis : Axis) (container : View α) (cells : List (Cell α))
    (bounds : Size α) : Distribution α :=
  let fixed := Scalar.sum (cells.map fun c => c.margins.along axis) + gaps axis container cells
  distribute settings (cells.map (item axis)) (bounds.along axis - fixed)

/-- The one alignment that all items of a list have, if they are of one mind. -/
def shared? : List (Option Alignment) → Option Alignment
  | [] => none
  | first :: rest => if rest.all (· == first) then first else none

/-- Where the run of children sits if space is left over: as the container says, or else as all
children say, or else at the start. -/
def runAlignment (axis : Axis) (container : View α) (cells : List (Cell α)) : Alignment :=
  ((container.constraints.alignmentAlong axis).or
    (shared? (cells.map fun c => c.constraints.alignmentAlong axis))).getD .start

/-- Where the run of children starts. Children that overflow are packed from the start. -/
def runStart (settings : Settings α) (axis : Axis) (container : View α) (cells : List (Cell α))
    (leftover : α) : α :=
  if settings.epsilon < leftover then
    (runAlignment axis container cells).offset leftover Scalar.zero
  else Scalar.zero

/-! ## Frames -/

/-- The frame of a child in its cell. The cell starts at `start` along the axis with extent `main`,
and takes the whole room between the margins across it. -/
def frame (axis : Axis) (container : View α) (bounds : Size α) (c : Cell α) (start main : α) :
    Rect α :=
  let cross := axis.cross
  let alignment := c.alignment container cross
  let room := Scalar.max (bounds.along cross - c.margins.along cross) Scalar.zero
  let crossStart := c.margins.leading cross
  match container.constraints.cells.sizeInCell c.natural (.ofAxes axis main room) with
  | some size =>
    -- The child's own bounds may take it out of its cell again.
    let size := c.constraints.clamp size
    .ofAxes axis
      (start + (c.alignment container axis).offset main (size.along axis))
      (crossStart + alignment.offset room (size.along cross))
      (size.along axis) (size.along cross)
  | none =>
    -- Along the axis the extent is settled; only the one across it is still open.
    let extent := c.constraints.clampAlong cross <|
      if alignment = .fill ∨ c.stretches cross = true then room
      else Scalar.min (c.natural.along cross) room
    let offset := match alignment with
      | .start | .fill => Scalar.zero
      | .center => (room - extent) / Scalar.two
      | .stop => room - extent
    .ofAxes axis start (crossStart + offset) main extent

/-- The frames of children with given extents, packed from a position on. -/
def pack (axis : Axis) (container : View α) (bounds : Size α) :
    α → List (Cell α × α) → List (Placement α)
  | _, [] => []
  | position, (c, main) :: rest =>
    let start := position + c.margins.leading axis
    let next :=
      start + (main + c.margins.trailing axis + container.constraints.spacing.along axis)
    (c.id, frame axis container bounds c start main) :: pack axis container bounds next rest

/-- The frames of the children inside the bounds of their stack. -/
def place (settings : Settings α) (axis : Axis) (container : View α) (cells : List (Cell α))
    (bounds : Size α) : List (Placement α) :=
  let shares := distribution settings axis container cells bounds
  pack axis container bounds (runStart settings axis container cells shares.leftover)
    (cells.zip shares.sizes)

/-- What placing the children reports; nothing if there are none. -/
def events (settings : Settings α) (axis : Axis) (container : View α) (cells : List (Cell α))
    (bounds : Size α) : List (Event α) :=
  if cells.isEmpty then []
  else (distribution settings axis container cells bounds).events settings

end BoxLayout.Stack
