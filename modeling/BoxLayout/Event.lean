import BoxLayout.Distribution
import BoxLayout.ViewTree

/-!
# Events

What a pass reports while it runs. A host sees the events up to the level it asked for, in the
order in which they happened.

* `Event` — the events; `Event.level` — how detailed each is.
* `Event.content` — an event's fields as texts.
* `Course.events` — what a distribution of space reports.
-/

namespace BoxLayout

/-- How detailed a report is. -/
inductive Level where
  | debug
  | trace
  deriving DecidableEq

/-- Something a pass reports. -/
inductive Event (α : Type) where
  /-- An arrangement begins at a view. -/
  | arranging (id : ViewId)
  /-- A pass handed out or took back some space. -/
  | shared (direction : Direction) (pass : Nat) (report : PassReport α)
  /-- The passes reached their limit. -/
  | passLimit (direction : Direction) (passes : Nat)
  /-- A view that asks for it was measured. -/
  | measured (view : String) (natural : Size α)
  /-- A view was given its frame; whether the view itself asks to be reported. -/
  | arranged (asked : Bool) (view : String) (frame : Rect α)
  /-- A view does not fit into what it was allotted. -/
  | overflowing (view : String) (allotted : Rect α) (size : Size α)
  /-- A whole layout is done, with the natural size of the root. -/
  | completed (natural : Size α)
  /-- A description of a view. -/
  | described (id : ViewId) (text : String)

namespace Event

variable {α : Type}

def level : Event α → Level
  | shared _ _ _ => .trace
  | arranged false _ _ => .trace
  | overflowing _ _ _ => .trace
  | _ => .debug

end Event

/-- The reports of the passes, from the given number on, and of a limit that was reached. -/
def Course.events {α : Type} (course : Course α) (direction : Direction) (limit : Nat) :
    List (Event α) :=
  course.passes.zipIdx.map (fun (report, index) => Event.shared direction index report) ++
    if course.settled then [] else [.passLimit direction limit]

def Distribution.events {α : Type} (d : Distribution α) (settings : Settings α) :
    List (Event α) :=
  match d.course with
  | some (direction, course) => course.events direction settings.maxPasses
  | none => []

/-! ## Texts -/

def Rect.shown (r : Rect Float32) : String :=
  let text := Single.text .pointed
  "Rect \x7b x: " ++ text r.x ++ ", y: " ++ text r.y ++ ", width: " ++ text r.width ++
    ", height: " ++ text r.height ++ " \x7d"

def Size.shown (s : Size Float32) : String :=
  let text := Single.text .pointed
  "Size \x7b width: " ++ text s.width ++ ", height: " ++ text s.height ++ " \x7d"

/-- An event as a host receives it: as the beginning of a span of time, or as a record of what
happened. -/
inductive Event.Content where
  | span (name : String) (fields : List (String × String))
  | record (fields : List (String × String))

def Event.content : Event Float32 → Event.Content
  | arranging id => .span "arrange" [("id", id.text)]
  | shared .grow pass report =>
    .record [("message", "grow pass"), ("pass", toString pass), ("free", plainText report.amount),
      ("clamped", toString report.clamped)]
  | shared .shrink pass report =>
    .record [("message", "shrink pass"), ("pass", toString pass),
      ("deficit", plainText report.amount), ("clamped", toString report.clamped)]
  | passLimit .grow passes =>
    .record [("message", "growth stopped at the pass limit with space left to hand out"),
      ("passes", toString passes)]
  | passLimit .shrink passes =>
    .record [("message", "shrinking stopped at the pass limit with a deficit left"),
      ("passes", toString passes)]
  | measured view natural =>
    .record [("message", "measured natural size"), ("view", view),
      ("width", plainText natural.width), ("height", plainText natural.height)]
  | arranged _ view frame =>
    .record [("message", "arranged"), ("view", view), ("frame", frame.shown)]
  | overflowing view allotted size =>
    .record [("message", "minimum size overflows allotted space"), ("view", view),
      ("allotted", allotted.shown), ("size", size.shown)]
  | completed natural =>
    .record [("message", "layout pass complete"), ("width", plainText natural.width),
      ("height", plainText natural.height)]
  | described id text =>
    .record [("message", s!"layout of {id.text}:\n{text}")]

end BoxLayout
