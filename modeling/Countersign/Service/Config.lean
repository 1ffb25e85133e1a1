/-!
# The configuration of the service

## What is here

* `ServiceConfig` with its values for use and for tests.
-/

set_option autoImplicit false

namespace Countersign

/-- The limits of the span cache, and whether expansions sweep. -/
structure ServiceConfig where
  capacity : Nat := 100000
  /-- How long a span may wait, in milliseconds. -/
  ttl : Nat := 180000
  sweep : Bool := true
deriving DecidableEq, Inhabited

namespace ServiceConfig

/-- The values for use. -/
def default : ServiceConfig := {}

/-- The values for tests: a small cache whose spans expire soon. -/
def testing : ServiceConfig where
  capacity := 64
  ttl := 1000

end ServiceConfig

end Countersign
