import BoxLayout.Wire
import BoxLayout.Settings
import BoxLayout.Alignment

/-!
# Figures, names and settings as data

Every component of a figure is required. Settings take the usual value for what is missing.
-/

namespace BoxLayout

def Field.single [NumberReader] {ρ : Type} (key : String) (get : ρ → Float32) (set : ρ → Float32 → ρ) :
    Field ρ :=
  .of key get set .ofSingle Json.toSingle

def Point.schema [NumberReader] : Schema (Point Float32) where
  name := "Point"
  fields := [
    .single "x" Point.x fun p x => { p with x },
    .single "y" Point.y fun p y => { p with y }]
  base := .zero
  lenient := false

def Size.schema [NumberReader] : Schema (Size Float32) where
  name := "Size"
  fields := [
    .single "width" Size.width fun s width => { s with width },
    .single "height" Size.height fun s height => { s with height }]
  base := .zero
  lenient := false

def Rect.schema [NumberReader] : Schema (Rect Float32) where
  name := "Rect"
  fields := [
    .single "x" Rect.x fun r x => { r with x },
    .single "y" Rect.y fun r y => { r with y },
    .single "width" Rect.width fun r width => { r with width },
    .single "height" Rect.height fun r height => { r with height }]
  base := .zero
  lenient := false

def Edges.schema [NumberReader] : Schema (Edges Float32) where
  name := "EdgeSizes"
  fields := [
    .single "top" Edges.top fun e top => { e with top },
    .single "right" Edges.right fun e right => { e with right },
    .single "bottom" Edges.bottom fun e bottom => { e with bottom },
    .single "left" Edges.left fun e left => { e with left }]
  base := .zero
  lenient := false

def Settings.schema [NumberReader] : Schema (Settings Float32) where
  name := "LayoutConfig"
  fields := [
    .single "epsilon" Settings.epsilon fun s epsilon => { s with epsilon },
    .of "max_distribution_passes" Settings.maxPasses (fun s maxPasses => { s with maxPasses })
      (fun n => .number (.ofNat n)) Json.toCount,
    .of "trace_passes" Settings.tracePasses (fun s tracePasses => { s with tracePasses })
      .bool Json.toBool]
  base := .standard
  lenient := true

namespace Axis

def named : List (String × Axis) := [("Horizontal", horizontal), ("Vertical", vertical)]

def name : Axis → String
  | horizontal => "Horizontal"
  | vertical => "Vertical"

end Axis

end BoxLayout
