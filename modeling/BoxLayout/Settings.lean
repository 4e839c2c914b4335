import BoxLayout.Scalar.Single

/-!
# Settings

What a host may choose about layout as a whole.
-/

namespace BoxLayout

/-- The settings of an engine. -/
structure Settings (α : Type) where
  /-- Slack up to this size counts as none. -/
  epsilon : α
  /-- How many passes a distribution of space may take. -/
  maxPasses : Nat
  /-- Log every arranged frame, and not only those of views that ask for it. -/
  tracePasses : Bool
  deriving BEq

namespace Settings

/-- The usual settings: a tolerance of a hundredth, 32 passes, no log of all frames. -/
def standard : Settings Float32 :=
  -- The bits are those of the number nearest to a hundredth.
  { epsilon := Float32.ofBits 0x3C23D70A, maxPasses := 32, tracePasses := false }

/-- The usual settings with every arranged frame in the log. -/
def verbose : Settings Float32 := { standard with tracePasses := true }

end Settings

end BoxLayout
