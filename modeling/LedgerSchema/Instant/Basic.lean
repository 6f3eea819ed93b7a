/-!
Points in time.
-/

set_option autoImplicit false

namespace LedgerSchema

/-- Seconds since the start of 1970 in universal time, and nanoseconds after that second. From
1000000000 nanoseconds on, the instant lies in a leap second that follows it. -/
structure Instant where
  seconds : Int
  nanos : Nat
  deriving DecidableEq

namespace Instant

/-- The instants that a number of milliseconds can name. -/
def minMillis : Int := -8334601228800000

def maxMillis : Int := 8210266876799999

def ofMillis? (ms : Int) : Option Instant :=
  if minMillis ≤ ms ∧ ms ≤ maxMillis then some ⟨ms / 1000, (ms % 1000).toNat * 1000000⟩ else none

end Instant

end LedgerSchema
