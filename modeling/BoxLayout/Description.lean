import BoxLayout.ViewTree.Walk
import BoxLayout.Logged

/-!
# Descriptions

The text of a tree for a person to read: a line for every view, indented by its depth, and a second
line with the constraints of a view that asks for it.

* `View.headline`, `View.constraintLine` — the two lines of a view.
* `ViewTree.describe` — the lines of a view and of all below it.
-/

namespace BoxLayout

def inParentheses (texts : List String) : String := "(" ++ ", ".intercalate texts ++ ")"

def lengthsText (lengths : List Float32) : String := inParentheses (lengths.map plainText)

namespace View

def headline (v : View Float32) (id : ViewId) : String :=
  let kind := if v.hasChildren then v.container.name else "leaf"
  let frame := lengthsText [v.frame.x, v.frame.y, v.frame.width, v.frame.height]
  s!"{v.label id} [{kind}] frame={frame}"

/-- Whether a size has a positive extent. -/
def isMarked (s : Size Float32) : Bool :=
  decide (Scalar.zero < s.width) || decide (Scalar.zero < s.height)

/-- The constraints of a view; what is as usual at the end of the list is left out. -/
def constraintLine (v : View Float32) : String :=
  let c := v.constraints
  let hAlign := c.hAlign.getD .left
  let vAlign := c.vAlign.getD .top
  let always := [
    "min=" ++ lengthsText [c.min.width, c.min.height],
    "max=" ++ lengthsText [c.max.width, c.max.height],
    "stretch=" ++ lengthsText [c.stretch.horizontal, c.stretch.vertical],
    "margins=" ++ lengthsText [c.margins.top, c.margins.right, c.margins.bottom, c.margins.left],
    "spacing=" ++ lengthsText [c.spacing.horizontal, c.spacing.vertical],
    "align=" ++ inParentheses [hAlign.name, vAlign.name]]
  let sometimes :=
    (if c.ignoreNatural then ["ignore-natural-size"] else []) ++
    (if c.cells = .normal then [] else ["cells=" ++ c.cells.name]) ++
    (if isMarked c.adjustment then
      ["adjust=" ++ lengthsText [c.adjustment.width, c.adjustment.height]] else []) ++
    (if isMarked v.contentSize then
      ["content=" ++ lengthsText [v.contentSize.width, v.contentSize.height]] else [])
  " ".intercalate (always ++ sometimes)

end View

namespace ViewTree

def indent (depth : Nat) : String := String.ofList (List.replicate (2 * depth) ' ')

def describeAt (t : ViewTree Float32) (id : ViewId) (depth : Nat) : String :=
  match t.get? id with
  | none => indent depth ++ s!"<unknown view {id.text}>\n"
  | some v =>
    indent depth ++ v.headline id ++ "\n" ++
      if v.constraints.logsLayout then indent (depth + 1) ++ v.constraintLine ++ "\n" else ""

/-- The lines of a view and of all below it. -/
def describe (t : ViewTree Float32) (id : ViewId) : String :=
  String.join ((t.walk id).map fun (id, depth) => t.describeAt id depth)

def reportDescription (t : ViewTree Float32) (id : ViewId) : Logged Float32 Unit :=
  .report [.described id (t.describe id)]

end ViewTree

end BoxLayout
