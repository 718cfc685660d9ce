/-
# Derivatives

What is synthesized when a function is differentiated, and with respect to which
parameters and results.
-/
import NameMangling.IndexSubset
import NameMangling.Handle

namespace NameMangling

/-- A derivative function: forward mode or reverse mode. -/
inductive DerivativeKind
  | forward | reverse
deriving DecidableEq, Inhabited

/-- A linear map: the differential of forward mode or the pullback of reverse mode. -/
inductive LinearMapMode
  | differential | pullback
deriving DecidableEq, Inhabited

/-- A declaration that holds intermediate derivative data. -/
inductive GeneratedDecl
  | linearMapStruct | branchingTraceEnum
deriving DecidableEq, Inhabited

/-- A differentiability witness. -/
inductive WitnessKind
  | normal | linear | forward | reverse
deriving DecidableEq, Inhabited

/-- The parameters and results a derivative is taken with respect to, and the signature of
the derivative when it is more constrained than that of the function. -/
structure DerivativeConfig where
  parameters : IndexSubset
  results : IndexSubset
  signature : Option SignatureId := none
deriving DecidableEq, Inhabited

end NameMangling
