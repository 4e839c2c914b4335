/-!
# Diagnostics switches

A view's switches are a set of bits. Two of the bits have a meaning; the others are kept as they
are. No switch ever affects geometry.
-/

namespace BoxLayout

/-- A set of switches. -/
structure DebugFlags where
  bits : UInt8
  deriving DecidableEq

namespace DebugFlags

def off : DebugFlags := ⟨0⟩

/-- Constraints appear in descriptions, and arranged frames in the log. -/
def layout : DebugFlags := ⟨1⟩

/-- Measured sizes appear in the log. -/
def minSize : DebugFlags := ⟨2⟩

def named : List (String × DebugFlags) := [("LAYOUT", layout), ("MIN_SIZE", minSize)]

def contains (flags some : DebugFlags) : Bool := flags.bits &&& some.bits == some.bits

def union (flags some : DebugFlags) : DebugFlags := ⟨flags.bits ||| some.bits⟩

def diff (flags some : DebugFlags) : DebugFlags := ⟨flags.bits &&& ~~~some.bits⟩

def set (flags some : DebugFlags) (value : Bool) : DebugFlags :=
  if value then flags.union some else flags.diff some

end DebugFlags

end BoxLayout
