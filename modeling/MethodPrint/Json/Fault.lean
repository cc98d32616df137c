/-!
# Faults of a JSON text

The three ways in which a text fails to be the stored form of a value.
-/

namespace MethodPrint.Json

/-- Why a text is not the stored form of a value. -/
inductive Fault where
  /-- The text ends before the value does. -/
  | cutShort
  /-- The text is not JSON. -/
  | malformed
  /-- The text is JSON of another shape. -/
  | misfit
  deriving DecidableEq

/-- The text of a fault. -/
def Fault.message : Fault → String
  | .cutShort => "the text ends too early"
  | .malformed => "the text is not JSON"
  | .misfit => "the value has another shape"

end MethodPrint.Json
