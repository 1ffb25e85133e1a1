import Countersign.Entity

/-!
# Keys

The key that controls an entity is a tree.  Its leaves are public keys of one of two signature
schemes, or the number of a contract, which is authorised by the contract's own execution and never
by a signature.  Its inner nodes ask for all of their children or for a number of them.

## What is here

* `Scheme` — the signature schemes, and the length of a complete public key of each.
* `Key` — the tree, with decidable equality.
* `Key.primitives` — the public keys among the leaves, depth first in order of declaration.
* `Key.isEmpty` — no leaf could ever be satisfied.
-/

set_option autoImplicit false

namespace Countersign

/-- The signature schemes. -/
inductive Scheme where
  | ed25519
  | ecdsaSecp256k1
deriving DecidableEq, Inhabited

namespace Scheme

/-- The length in octets of a complete public key. -/
def publicKeyLength : Scheme → Nat
  | ed25519 => 32
  | ecdsaSecp256k1 => 33

def text : Scheme → String
  | ed25519 => "Ed25519"
  | ecdsaSecp256k1 => "EcdsaSecp256k1"

end Scheme

/-- The key of an entity. -/
inductive Key where
  | ed25519 (publicKey : Bytes)
  | ecdsaSecp256k1 (publicKey : Bytes)
  | contractId (id : EntityId)
  | delegatableContractId (id : EntityId)
  | threshold (required : UInt32) (keys : List Key)
  | keyList (keys : List Key)
deriving Inhabited

namespace Key

/-! ## Equality -/

mutual

/-- Whether two keys are the same tree. -/
def same : Key → Key → Bool
  | ed25519 a, ed25519 b => a == b
  | ecdsaSecp256k1 a, ecdsaSecp256k1 b => a == b
  | contractId a, contractId b => a == b
  | delegatableContractId a, delegatableContractId b => a == b
  | threshold m as, threshold n bs => m == n && sameAll as bs
  | keyList as, keyList bs => sameAll as bs
  | _, _ => false

def sameAll : List Key → List Key → Bool
  | [], [] => true
  | a :: as, b :: bs => same a b && sameAll as bs
  | _, _ => false

end

mutual

theorem same_iff : ∀ a b : Key, same a b = true ↔ a = b
  | ed25519 _, b => by cases b <;> simp [same]
  | ecdsaSecp256k1 _, b => by cases b <;> simp [same]
  | contractId _, b => by cases b <;> simp [same]
  | delegatableContractId _, b => by cases b <;> simp [same]
  | threshold _ as, b => by cases b <;> simp [same, sameAll_iff as]
  | keyList as, b => by cases b <;> simp [same, sameAll_iff as]

theorem sameAll_iff : ∀ as bs : List Key, sameAll as bs = true ↔ as = bs
  | [], bs => by cases bs <;> simp [sameAll]
  | a :: as, bs => by cases bs <;> simp [sameAll, same_iff a, sameAll_iff as]

end

instance : DecidableEq Key := fun a b => decidable_of_iff _ (same_iff a b)

/-! ## Leaves -/

/-- The scheme and public key of a primitive key. -/
def primitive? : Key → Option (Scheme × Bytes)
  | ed25519 pk => some (.ed25519, pk)
  | ecdsaSecp256k1 pk => some (.ecdsaSecp256k1, pk)
  | _ => none

/-- Whether the key is, itself, the number of a contract. -/
def isContractId : Key → Bool
  | contractId _ => true
  | delegatableContractId _ => true
  | _ => false

mutual

/-- The public keys among the leaves, depth first in order of declaration. -/
def primitives : Key → List (Scheme × Bytes)
  | ed25519 pk => [(.ed25519, pk)]
  | ecdsaSecp256k1 pk => [(.ecdsaSecp256k1, pk)]
  | contractId _ => []
  | delegatableContractId _ => []
  | threshold _ ks => primitivesOfAll ks
  | keyList ks => primitivesOfAll ks

def primitivesOfAll : List Key → List (Scheme × Bytes)
  | [] => []
  | k :: ks => primitives k ++ primitivesOfAll ks

end

/-! ## Emptiness -/

mutual

/-- A key is empty when no leaf of it could ever be satisfied: its public keys have no octets and it
names no contract.  An entity whose key is empty cannot be changed. -/
def isEmpty : Key → Bool
  | ed25519 pk => pk.isEmpty
  | ecdsaSecp256k1 pk => pk.isEmpty
  | contractId _ => false
  | delegatableContractId _ => false
  | threshold _ ks => allEmpty ks
  | keyList ks => allEmpty ks

def allEmpty : List Key → Bool
  | [] => true
  | k :: ks => isEmpty k && allEmpty ks

end

end Key

end Countersign
