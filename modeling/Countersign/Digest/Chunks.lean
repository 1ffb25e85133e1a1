/-!
# Cutting a list into pieces

Digests take a message in words, and words in blocks: both are pieces of one size.

## What is here

* `chunks size count xs` — the first `count` pieces of `xs`, of `size` elements each.
-/

set_option autoImplicit false

namespace Countersign

/-- The first `count` pieces of a list, of `size` elements each. -/
def chunks {α : Type} (size : Nat) : Nat → List α → List (List α)
  | 0, _ => []
  | count + 1, xs => xs.take size :: chunks size count (xs.drop size)

end Countersign
