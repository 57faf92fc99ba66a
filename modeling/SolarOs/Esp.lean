import Mathlib.Tactic.TypeStar
import Mathlib.Algebra.GroupWithZero.Nat

namespace SolarOs

/-- The `esp_err_t` values the modelled services return. -/
inductive EspErr where
  | ok
  | fail
  | noMem
  | invalidArg
  | invalidState
  | invalidSize
  | notFound
  | notSupported
  | timeout
  | invalidCrc
  | invalidVersion
  | invalidResponse
  deriving DecidableEq, Repr

end SolarOs
