import BoxLayout.Geometry
import BoxLayout.Scalar.Single
import BoxLayout.Decimal.Single

/-!
# Errors

What can be wrong with a constraint, with a pass over a tree, or with an edit of its structure.

* `ValidationError` — a value that a constraint record does not take.
* `LayoutError` — a pass or an edit that failed. It names the views it is about in whatever way its
  first parameter says: passes name them by id, messages by label (`LayoutError.map`).
* `ValidationError.message`, `LayoutError.message` — the texts.
-/

namespace BoxLayout

/-- A value that a constraint record does not take. -/
inductive ValidationError (α : Type) where
  | negative (field : String) (value : α)
  | notFinite (field : String) (value : α)
  | minExceedsMax (axis : String) (min max : α)
  deriving DecidableEq

/-- Why a pass or an edit failed; `ν` is how views are named. -/
inductive LayoutError (ν α : Type) where
  /-- A view was to get an extent that is no length. -/
  | invalidExtent (view : ν) (axis : String) (value : α)
  /-- The content of a view has a size that is none. -/
  | invalidContent (view : ν) (width height : α)
  /-- There is no such view. -/
  | unknownView (view : ν)
  /-- There is no root. -/
  | noRoot
  /-- The view has no parent. -/
  | noSuperview (view : ν)
  /-- The child is the parent or one of its ancestors. -/
  | cycle (parent child : ν)
  /-- A constraint was refused. -/
  | validation (error : ValidationError α)
  deriving DecidableEq

def LayoutError.map {ν μ α : Type} (name : ν → μ) : LayoutError ν α → LayoutError μ α
  | invalidExtent view axis value => invalidExtent (name view) axis value
  | invalidContent view width height => invalidContent (name view) width height
  | unknownView view => unknownView (name view)
  | noRoot => noRoot
  | noSuperview view => noSuperview (name view)
  | cycle parent child => cycle (name parent) (name child)
  | validation error => validation error

/-! ## Texts -/

def plainText (x : Float32) : String := Single.text .plain x

namespace ValidationError

def message : ValidationError Float32 → String
  | negative field value => s!"{field} must not be negative (got {plainText value})"
  | notFinite field value => s!"{field} must be finite (got {plainText value})"
  | minExceedsMax axis min max =>
    s!"minimum {axis} {plainText min} exceeds maximum {plainText max}"

end ValidationError

namespace LayoutError

def message : LayoutError String Float32 → String
  | invalidExtent view axis value =>
    s!"view {view}: computed {axis} {plainText value} is not a valid extent"
  | invalidContent view width height =>
    s!"view {view}: content size {plainText width}x{plainText height} is not a valid extent"
  | unknownView view => s!"unknown view: {view}"
  | noRoot => "unknown view: root"
  | noSuperview view => s!"unknown view: superview of {view}"
  | cycle parent child =>
    s!"cannot add view {child} under {parent}: it would become its own ancestor"
  | validation error => error.message

end LayoutError

end BoxLayout
