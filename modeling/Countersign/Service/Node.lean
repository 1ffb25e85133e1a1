import Countersign.Ledger.Store
import Countersign.Service.Basic

/-!
# A node

A node is the service together with the ledger it reads and the clock it goes by.  Its history is a
sequence of events.

## What is here

* `Node` — the ledger, the tables that cannot be read at present, the time, and the service.
* `Event` and `Reply` — what happens to a node, and what it answers.
* `Node.step`, `Node.run` — one event; a sequence of events.
-/

set_option autoImplicit false

namespace Countersign

/-- A service with its ledger and its clock. -/
structure Node where
  store : Store := .fresh
  unreadable : List Table := []
  now : Nat := 0
  service : Service

/-- What happens to a node. -/
inductive Event where
  | mutate (m : Mutation)
  | setUnreadable (tables : List Table)
  | setClock (now : Nat)
  | track (contents : Bytes)
  | handle (contents : Bytes)
  | purge
deriving DecidableEq, Inhabited

/-- What a node answers. -/
inductive Reply where
  | receipt (r : Receipt)
  | done
  | tracked (r : Except WireError ParsedTransaction)
  | handled (r : Except HandleError Handled)
  | purged (removed : Nat)

instance : Inhabited Reply := ⟨.done⟩

namespace Node

/-- The node of a fresh ledger and a service with an empty cache. -/
def new (config : ServiceConfig) (verifier : Verifier) : Node where
  service := .new config verifier

/-- The ledger as the service sees it at present. -/
def view (n : Node) : View :=
  n.store.view fun table => n.unreadable.contains table

/-- Takes in one event. -/
def step (n : Node) : Event → Reply × Node
  | .mutate m =>
    let (receipt, store) := n.store.apply m
    (.receipt receipt, { n with store })
  | .setUnreadable tables => (.done, { n with unreadable := tables })
  | .setClock now => (.done, { n with now })
  | .track contents =>
    let (result, service) := n.service.track n.view n.now contents
    (.tracked result, { n with service })
  | .handle contents =>
    let (result, service) := n.service.handle n.view contents
    (.handled result, { n with service })
  | .purge =>
    let (removed, service) := n.service.purgeExpired n.now
    (.purged removed, { n with service })

/-- Takes in a sequence of events. -/
def run (n : Node) (events : List Event) : Node :=
  events.foldl (fun n e => (n.step e).2) n

end Node

end Countersign
