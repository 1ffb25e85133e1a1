import Countersign.Wire.Codec
import Countersign.Transaction.Body
import Countersign.Transaction.Signed

/-!
# The wire format of transactions

## What is here

* `Key.codec` — keys.  A key is a tree, so its codec is written by recursion: on the tree when
  writing, and on a bound for the depth when reading.
* `Operation.codec`, `Body.codec`, `SignedTransaction.codec` — composed of the codecs of their parts.
* `Body.toBytes`, `Body.ofBytes`, `SignedTransaction.toBytes`, `SignedTransaction.ofBytes` — whole
  encodings.  What follows a complete value is of no account.
-/

set_option autoImplicit false

namespace Countersign

open Codec

/-! ## Entities -/

def EntityId.codec : Codec EntityId :=
  (pair uint64 (pair uint64 uint64)).iso (fun (shard, realm, num) => { shard, realm, num })
    fun id => (id.shard, id.realm, id.num)

def Alias.codec : Codec Alias :=
  octets.iso (fun bytes => { bytes }) Alias.bytes

def Address.position : Address → Nat
  | .byId _ => 0
  | .byAlias _ => 1

def Address.codec : Codec Address :=
  variant
    [alternative EntityId.codec .byId fun | .byId id => some id | _ => none,
      alternative Alias.codec .byAlias fun | .byAlias a => some a | _ => none]
    Address.position

/-! ## Keys -/

namespace Key

/-- The position of the form of a key among the forms. -/
def position : Key → Nat
  | ed25519 _ => 0
  | ecdsaSecp256k1 _ => 1
  | contractId _ => 2
  | delegatableContractId _ => 3
  | threshold _ _ => 4
  | keyList _ => 5

mutual

/-- The octets of a key. -/
def encode : Key → Bytes
  | ed25519 pk => (word 4).encode 0 ++ octets.encode pk
  | ecdsaSecp256k1 pk => (word 4).encode 1 ++ octets.encode pk
  | contractId id => (word 4).encode 2 ++ EntityId.codec.encode id
  | delegatableContractId id => (word 4).encode 3 ++ EntityId.codec.encode id
  | threshold n ks =>
    (word 4).encode 4 ++ uint32.encode n ++ length.encode ks.length ++ encodeAll ks
  | keyList ks => (word 4).encode 5 ++ length.encode ks.length ++ encodeAll ks

def encodeAll : List Key → Bytes
  | [] => []
  | k :: ks => encode k ++ encodeAll ks

end

mutual

/-- Every sequence in the key is short enough for its length to be written. -/
def fits : Key → Prop
  | ed25519 pk => octets.fits pk
  | ecdsaSecp256k1 pk => octets.fits pk
  | contractId _ => True
  | delegatableContractId _ => True
  | threshold _ ks => length.fits ks.length ∧ allFit ks
  | keyList ks => length.fits ks.length ∧ allFit ks

def allFit : List Key → Prop
  | [] => True
  | k :: ks => fits k ∧ allFit ks

end

/-- Reads a key of at most the given depth.  A key deeper than that would need more octets than
there are, so the bound only ever runs out together with the input. -/
def decodeWithin : Nat → Bytes → Except WireError (Key × Bytes)
  | 0, _ => .error .endOfInput
  | depth + 1, bs => do
    let (form, rest) ← (word 4).decode bs
    match form with
    | 0 =>
      let (pk, rest) ← octets.decode rest
      pure (ed25519 pk, rest)
    | 1 =>
      let (pk, rest) ← octets.decode rest
      pure (ecdsaSecp256k1 pk, rest)
    | 2 =>
      let (id, rest) ← EntityId.codec.decode rest
      pure (contractId id, rest)
    | 3 =>
      let (id, rest) ← EntityId.codec.decode rest
      pure (delegatableContractId id, rest)
    | 4 =>
      let (n, rest) ← uint32.decode rest
      let (count, rest) ← length.decode rest
      let (ks, rest) ← decodeMany (decodeWithin depth) count rest
      pure (threshold n ks, rest)
    | 5 =>
      let (count, rest) ← length.decode rest
      let (ks, rest) ← decodeMany (decodeWithin depth) count rest
      pure (keyList ks, rest)
    | _ => .error (.unknownVariant form 6)

def codec : Codec Key where
  encode := encode
  decode bs := decodeWithin bs.length bs
  fits := fits

end Key

/-! ## Parts of operations -/

def AccountAmount.codec : Codec AccountAmount :=
  (pair Address.codec (pair int64 bool)).iso
    (fun (account, amount, isApproval) => { account, amount, isApproval })
    fun a => (a.account, a.amount, a.isApproval)

def NftTransfer.codec : Codec NftTransfer :=
  (pair Address.codec (pair Address.codec (pair int64 bool))).iso
    (fun (sender, receiver, serialNumber, isApproval) =>
      { sender, receiver, serialNumber, isApproval })
    fun t => (t.sender, t.receiver, t.serialNumber, t.isApproval)

def TokenTransfers.codec : Codec TokenTransfers :=
  (pair EntityId.codec (pair (list AccountAmount.codec) (list NftTransfer.codec))).iso
    (fun (token, transfers, nftTransfers) => { token, transfers, nftTransfers })
    fun t => (t.token, t.transfers, t.nftTransfers)

def AllowanceGrant.codec : Codec AllowanceGrant :=
  (pair (option Address.codec) (pair Address.codec (pair (option EntityId.codec) int64))).iso
    (fun (owner, spender, token, amount) => { owner, spender, token, amount })
    fun g => (g.owner, g.spender, g.token, g.amount)

def ContractUpdate.codec : Codec ContractUpdate :=
  (pair Address.codec (pair (option Key.codec) (pair (option Address.codec)
    (pair (option text) (option uint64))))).iso
    (fun (contract, adminKey, autoRenewAccount, memo, expirationTime) =>
      { contract, adminKey, autoRenewAccount, memo, expirationTime })
    fun u => (u.contract, u.adminKey, u.autoRenewAccount, u.memo, u.expirationTime)

def TopicUpdate.codec : Codec TopicUpdate :=
  (pair EntityId.codec (pair (option Key.codec) (pair (option Key.codec)
    (pair (option Address.codec) (pair (option text) (option uint64)))))).iso
    (fun (topic, adminKey, submitKey, autoRenewAccount, memo, expirationTime) =>
      { topic, adminKey, submitKey, autoRenewAccount, memo, expirationTime })
    fun u => (u.topic, u.adminKey, u.submitKey, u.autoRenewAccount, u.memo, u.expirationTime)

def TokenAction.codec : Codec TokenAction :=
  enumeration TokenAction.all

/-! ## Operations and bodies -/

/-- The operations, in the order of their positions. -/
def Operation.alternatives : List (Codec Operation) :=
  [alternative (pair Key.codec (pair bool (option Alias.codec)))
      (fun (key, receiver, newAlias) => .cryptoCreate key receiver newAlias)
      (fun | .cryptoCreate key receiver newAlias => some (key, receiver, newAlias) | _ => none),
    alternative (pair Address.codec (pair (option Key.codec) (option bool)))
      (fun (account, key, receiver) => .cryptoUpdate account key receiver)
      (fun | .cryptoUpdate account key receiver => some (account, key, receiver) | _ => none),
    alternative (pair Address.codec Address.codec)
      (fun (account, heir) => .cryptoDelete account heir)
      (fun | .cryptoDelete account heir => some (account, heir) | _ => none),
    alternative (pair (list AccountAmount.codec) (list TokenTransfers.codec))
      (fun (hbar, tokens) => .cryptoTransfer hbar tokens)
      (fun | .cryptoTransfer hbar tokens => some (hbar, tokens) | _ => none),
    alternative (list AllowanceGrant.codec) .cryptoApproveAllowance
      (fun | .cryptoApproveAllowance grants => some grants | _ => none),
    alternative (pair Key.codec octets)
      (fun (keys, contents) => .fileCreate keys contents)
      (fun | .fileCreate keys contents => some (keys, contents) | _ => none),
    alternative (pair EntityId.codec octets)
      (fun (file, contents) => .fileAppend file contents)
      (fun | .fileAppend file contents => some (file, contents) | _ => none),
    alternative (pair EntityId.codec (pair (option Key.codec) (option octets)))
      (fun (file, keys, contents) => .fileUpdate file keys contents)
      (fun | .fileUpdate file keys contents => some (file, keys, contents) | _ => none),
    alternative EntityId.codec .fileDelete
      (fun | .fileDelete file => some file | _ => none),
    alternative (pair (option Key.codec) (pair (option Address.codec) int64))
      (fun (admin, renew, balance) => .contractCreate admin renew balance)
      (fun | .contractCreate admin renew balance => some (admin, renew, balance) | _ => none),
    alternative ContractUpdate.codec .contractUpdate
      (fun | .contractUpdate update => some update | _ => none),
    alternative (pair Address.codec (pair (option Address.codec) (option Address.codec)))
      (fun (contract, account, heir) => .contractDelete contract account heir)
      (fun | .contractDelete contract account heir => some (contract, account, heir) | _ => none),
    alternative (pair Address.codec (pair int64 octets))
      (fun (contract, amount, parameters) => .contractCall contract amount parameters)
      (fun
        | .contractCall contract amount parameters => some (contract, amount, parameters)
        | _ => none),
    alternative (pair (option Key.codec) (pair (option Key.codec) (option Address.codec)))
      (fun (admin, submit, renew) => .topicCreate admin submit renew)
      (fun | .topicCreate admin submit renew => some (admin, submit, renew) | _ => none),
    alternative TopicUpdate.codec .topicUpdate
      (fun | .topicUpdate update => some update | _ => none),
    alternative EntityId.codec .topicDelete
      (fun | .topicDelete topic => some topic | _ => none),
    alternative (pair EntityId.codec octets)
      (fun (topic, message) => .topicSubmitMessage topic message)
      (fun | .topicSubmitMessage topic message => some (topic, message) | _ => none),
    alternative (pair text (pair Address.codec (pair (option Key.codec) (option Address.codec))))
      (fun (symbol, treasury, admin, renew) => .tokenCreate symbol treasury admin renew)
      (fun
        | .tokenCreate symbol treasury admin renew => some (symbol, treasury, admin, renew)
        | _ => none),
    alternative
      (pair EntityId.codec (pair (option Address.codec) (pair (option Key.codec)
        (option Address.codec))))
      (fun (token, treasury, admin, renew) => .tokenUpdate token treasury admin renew)
      (fun
        | .tokenUpdate token treasury admin renew => some (token, treasury, admin, renew)
        | _ => none),
    alternative (pair EntityId.codec (pair TokenAction.codec (option Address.codec)))
      (fun (token, action, account) => .tokenManage token action account)
      (fun | .tokenManage token action account => some (token, action, account) | _ => none),
    alternative (pair Address.codec (list EntityId.codec))
      (fun (account, tokens) => .tokenAssociate account tokens)
      (fun | .tokenAssociate account tokens => some (account, tokens) | _ => none),
    alternative (pair Address.codec (list EntityId.codec))
      (fun (account, tokens) => .tokenDissociate account tokens)
      (fun | .tokenDissociate account tokens => some (account, tokens) | _ => none),
    alternative (pair (option Key.codec) (pair (option Address.codec) text))
      (fun (admin, payer, memo) => .scheduleCreate admin payer memo)
      (fun | .scheduleCreate admin payer memo => some (admin, payer, memo) | _ => none),
    alternative EntityId.codec .scheduleSign
      (fun | .scheduleSign schedule => some schedule | _ => none),
    alternative EntityId.codec .scheduleDelete
      (fun | .scheduleDelete schedule => some schedule | _ => none)]

def Operation.codec : Codec Operation :=
  variant Operation.alternatives Operation.position

def Body.codec : Codec Body :=
  (pair EntityId.codec (pair uint64 (pair EntityId.codec (pair text Operation.codec)))).iso
    (fun (payer, validStart, nodeAccount, memo, operation) =>
      { payer, validStart, nodeAccount, memo, operation })
    fun b => (b.payer, b.validStart, b.nodeAccount, b.memo, b.operation)

/-! ## Signed transactions -/

/-- The schemes, in the order of their positions. -/
def Scheme.all : List Scheme := [.ed25519, .ecdsaSecp256k1]

def SignaturePair.codec : Codec SignaturePair :=
  (pair octets (pair (enumeration Scheme.all) octets)).iso
    (fun (keyPrefix, scheme, signature) => { keyPrefix, scheme, signature })
    fun p => (p.keyPrefix, p.scheme, p.signature)

def SignedTransaction.codec : Codec SignedTransaction :=
  (pair octets (list SignaturePair.codec)).iso
    (fun (bodyBytes, signatures) => { bodyBytes, signatures })
    fun t => (t.bodyBytes, t.signatures)

/-! ## Whole encodings -/

def Body.toBytes (b : Body) : Bytes :=
  Body.codec.encode b

/-- The body that a byte string begins with. -/
def Body.ofBytes (bs : Bytes) : Except WireError Body :=
  (Body.codec.decode bs).map Prod.fst

def SignedTransaction.toBytes (t : SignedTransaction) : Bytes :=
  SignedTransaction.codec.encode t

/-- The signed transaction that a byte string begins with. -/
def SignedTransaction.ofBytes (bs : Bytes) : Except WireError SignedTransaction :=
  (SignedTransaction.codec.decode bs).map Prod.fst

/-- The signed transaction made of a body and signatures over its encoding. -/
def SignedTransaction.ofBody (b : Body) (signatures : List SignaturePair) : SignedTransaction where
  bodyBytes := b.toBytes
  signatures := signatures

end Countersign
