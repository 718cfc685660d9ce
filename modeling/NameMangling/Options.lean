/-
# Options

What is fixed when a mangler is set up.  Debug information keeps sugar as written;
`Options.forDebugger` is the setting for it.
-/

namespace NameMangling

/-- The settings of a mangler. -/
structure Options where
  /-- Sugared types are spelled as written instead of refused. -/
  keepsSugar : Bool := false
  /-- The protocol of a dependent member is left out where the base conforms to no other. -/
  elidesProtocols : Bool := true
  /-- Foreign-visible declarations are spelled by their foreign name. -/
  usesForeignNames : Bool := false
  /-- Nameless declarations are spelled by a stand-in instead of refused. -/
  allowsNameless : Bool := false
  /-- Nominal and opaque type declarations may be written as placeholders. -/
  allowsPlaceholders : Bool := false
deriving DecidableEq, Inhabited

/-- The settings for debug information. -/
def Options.forDebugger : Options := { keepsSugar := true }

end NameMangling
