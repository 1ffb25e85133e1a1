import Countersign.Signing.Metadata

/-!
# Requirements

What an operation demands of its signatures is a list of requirements, in the order in which the
operation declares its parts.  A requirement either brings its key along or refers to one entity and
says in which role that entity has to sign.

## What is here

* `Requirement` — the requirements, and the roles of accounts, contracts, tokens and topics.
* `Requirement.subject?` — the entity that a requirement refers to.
* `Requirement.judge` — the key that a requirement asks for, given what a view says of its subject.
* `Operation.requirements` — the requirements of each operation.
-/

set_option autoImplicit false

namespace Countersign

/-! ## Requirements -/

/-- The role in which an account takes part. -/
inductive AccountRole where
  /-- It has to sign.  If its key never can, the account is immutable. -/
  | signer
  /-- It receives something, and signs only if it has said so. -/
  | receiver
  /-- It pays for the renewal of an entity. -/
  | autoRenew
  /-- It holds the treasury of a token. -/
  | treasury
deriving DecidableEq, Inhabited

/-- The role in which a contract takes part. -/
inductive ContractRole where
  /-- It is changed, so its admin key signs. -/
  | changed
  /-- Its life is extended, for which it only has to exist. -/
  | extended
  /-- It receives something, and its admin key signs only if it has said so. -/
  | receiver
deriving DecidableEq, Inhabited

/-- The roles of the keys of a token. -/
inductive TokenRole where
  | admin
  | kyc
  | wipe
  | freeze
  | supply
  | feeSchedule
  | pause
deriving DecidableEq, Inhabited

/-- The roles of the keys of a topic. -/
inductive TopicRole where
  | admin
  | submit
deriving DecidableEq, Inhabited

/-- A demand on the signatures of a transaction.  A token, topic or schedule without a role only
has to exist. -/
inductive Requirement where
  | supplied (key : Key)
  | account (role : AccountRole) (address : Address)
  | contract (role : ContractRole) (address : Address)
  | token (id : EntityId) (role : Option TokenRole)
  | topic (id : EntityId) (role : Option TopicRole)
  | file (id : EntityId)
  | schedule (id : EntityId) (adminSigns : Bool)
deriving DecidableEq, Inhabited

namespace Requirement

/-- The entity that a requirement refers to. -/
def subject? : Requirement → Option EntityRef
  | supplied _ => none
  | account _ a => some (.account a)
  | contract _ a => some (.contract a)
  | token id _ => some (.token id)
  | topic id _ => some (.topic id)
  | file id => some (.file id)
  | schedule id _ => some (.schedule id)

/-- Whether the requirement is about the account of the payer, whose key signs anyway.  Only the
payer's number is recognised, not an alias of it. -/
def isCoveredBy (payer : EntityId) : Requirement → Bool
  | account _ (.byId id) => id == payer
  | _ => false

end Requirement

/-! ## The keys that are asked for -/

/-- The key that an account has to sign with in a role.  Receiving at an alias that leads nowhere
creates the account, so nobody can sign for it. -/
def AccountRole.judge (role : AccountRole) (address : Address)
    (found : Except OrderingFailure AccountMetadata) : Except OrderingFailure (Option Key) :=
  match role, found with
  | .signer, .ok m => if m.key.isEmpty then .error .immutableAccount else .ok (some m.key)
  | .signer, .error f => .error f
  | .receiver, .ok m => .ok (if m.receiverSigRequired then some m.key else none)
  | .receiver, .error f =>
    if f = .missingAccount && address.isAlias then .ok none else .error f
  | .autoRenew, .ok m => .ok (some m.key)
  | .autoRenew, .error _ => .error .invalidAutoRenewAccount
  | .treasury, .ok m => .ok (some m.key)
  | .treasury, .error _ => .error .missingTokenTreasury

/-- The key that a contract has to sign with in a role. -/
def ContractRole.judge (role : ContractRole) (found : Except OrderingFailure ContractMetadata) :
    Except OrderingFailure (Option Key) :=
  match role, found with
  | _, .error f => .error f
  | .changed, .ok m => if m.isImmutable then .error .immutableContract else .ok m.adminKey
  | .extended, .ok _ => .ok none
  | .receiver, .ok m => .ok (if m.receiverSigRequired then m.adminKey else none)

/-- The key of a token in a role. -/
def TokenMetadata.keyOf (m : TokenMetadata) : TokenRole → Option Key
  | .admin => m.adminKey
  | .kyc => m.kycKey
  | .wipe => m.wipeKey
  | .freeze => m.freezeKey
  | .supply => m.supplyKey
  | .feeSchedule => m.feeScheduleKey
  | .pause => m.pauseKey

/-- The key of a topic in a role. -/
def TopicMetadata.keyOf (m : TopicMetadata) : TopicRole → Option Key
  | .admin => m.adminKey
  | .submit => m.submitKey

namespace Requirement

/-- The key that a requirement asks for, or the failure of its subject.  Not yet left out is a key
that is empty. -/
def ask (v : View) : Requirement → Except OrderingFailure (Option Key)
  | supplied key => .ok (some key)
  | account role a => role.judge a (v.accountMetadata a)
  | contract role a => role.judge (v.contractMetadata a)
  | token id role => (v.tokenMetadata id).map fun m => role.bind m.keyOf
  | topic id role => (v.topicMetadata id).map fun m => role.bind m.keyOf
  | file id => (v.fileMetadata id).map fun m => some m.wacl
  | schedule id adminSigns =>
    (v.scheduleMetadata id).map fun m => if adminSigns then m.adminKey else none

/-- The key that a requirement asks for.  A key that can never sign is not asked for. -/
def judge (v : View) (r : Requirement) : Except OrderingFailure (Option Key) :=
  (r.ask v).map fun key? => key?.filter fun k => !k.isEmpty

end Requirement

/-! ## The requirements of an operation -/

/-- The role of the key that authorises an action on a token. -/
def TokenAction.role : TokenAction → TokenRole
  | mint => .supply
  | burn => .supply
  | wipe => .wipe
  | freeze => .freeze
  | unfreeze => .freeze
  | grantKyc => .kyc
  | revokeKyc => .kyc
  | delete => .admin
  | pause => .pause
  | unpause => .pause
  | feeScheduleUpdate => .feeSchedule

/-- A debit is signed for unless it rests on an allowance, a credit is received, and an amount of
zero asks for nothing. -/
def AccountAmount.requirements (a : AccountAmount) : List Requirement :=
  if a.isDebit then if a.isApproval then [] else [.account .signer a.account]
  else if a.isCredit then [.account .receiver a.account]
  else []

/-- The sender signs unless the transfer rests on an allowance; then the receiver receives. -/
def NftTransfer.requirements (t : NftTransfer) : List Requirement :=
  (if t.isApproval then [] else [.account .signer t.sender]) ++ [.account .receiver t.receiver]

/-- The token exists; then its balances, then its unique tokens. -/
def TokenTransfers.requirements (t : TokenTransfers) : List Requirement :=
  .token t.token none
    :: (t.transfers.flatMap AccountAmount.requirements
      ++ t.nftTransfers.flatMap NftTransfer.requirements)

/-- A key that the transaction brings along, if it does. -/
def Requirement.suppliedIfAny (key? : Option Key) : List Requirement :=
  (key?.map .supplied).toList

/-- A new admin key of a contract.  The number of a contract needs no signature. -/
def Requirement.newAdminKey (key? : Option Key) : List Requirement :=
  suppliedIfAny (key?.filter fun k => !k.isContractId)

/-- An account in a role, if there is one. -/
def Requirement.accountIfAny (role : AccountRole) (address? : Option Address) :
    List Requirement :=
  (address?.map (.account role)).toList

namespace ContractUpdate

def requirements (u : ContractUpdate) : List Requirement :=
  if u.onlyExtendsExpiry then [.contract .extended u.contract]
  else
    .contract .changed u.contract
      :: (Requirement.newAdminKey u.adminKey
        ++ Requirement.accountIfAny .autoRenew u.autoRenewAccount)

end ContractUpdate

namespace TopicUpdate

def requirements (u : TopicUpdate) : List Requirement :=
  if u.onlyExtendsExpiry then [.topic u.topic none]
  else
    .topic u.topic (some .admin)
      :: (Requirement.suppliedIfAny u.adminKey
        ++ Requirement.accountIfAny .autoRenew u.autoRenewAccount)

end TopicUpdate

open Requirement in
/-- The requirements of an operation, in the order in which it declares its parts. -/
def Operation.requirements : Operation → List Requirement
  | cryptoCreate key receiverSigRequired _ => if receiverSigRequired then [supplied key] else []
  | cryptoUpdate target key _ => account .signer target :: suppliedIfAny key
  | cryptoDelete target heir => [account .signer target, account .receiver heir]
  | cryptoTransfer hbar tokens =>
    hbar.flatMap AccountAmount.requirements ++ tokens.flatMap TokenTransfers.requirements
  | cryptoApproveAllowance grants => grants.flatMap fun g => accountIfAny .signer g.owner
  | fileCreate keys _ => [supplied keys]
  | fileAppend target _ => [file target]
  | fileUpdate target keys _ => file target :: suppliedIfAny keys
  | fileDelete target => [file target]
  | contractCreate admin renew _ => newAdminKey admin ++ accountIfAny .autoRenew renew
  | contractUpdate update => update.requirements
  | contractDelete target heir heirContract =>
    contract .changed target
      :: (accountIfAny .receiver heir ++ (heirContract.map (contract .receiver)).toList)
  | contractCall target amount _ => if 0 < amount then [contract .receiver target] else []
  | topicCreate admin _ renew => suppliedIfAny admin ++ accountIfAny .autoRenew renew
  | topicUpdate update => update.requirements
  | topicDelete target => [topic target (some .admin)]
  | topicSubmitMessage target _ => [topic target (some .submit)]
  | tokenCreate _ treasury admin renew =>
    account .treasury treasury :: (suppliedIfAny admin ++ accountIfAny .autoRenew renew)
  | tokenUpdate target treasury admin renew =>
    token target (some .admin)
      :: (accountIfAny .treasury treasury ++ suppliedIfAny admin ++ accountIfAny .autoRenew renew)
  | tokenManage target action _ => [token target (some action.role)]
  | tokenAssociate target _ => [account .signer target]
  | tokenDissociate target _ => [account .signer target]
  | scheduleCreate admin _ _ => suppliedIfAny admin
  | scheduleSign target => [schedule target false]
  | scheduleDelete target => [schedule target true]

/-- The requirements of a transaction on parties other than its payer. -/
def Body.requirements (b : Body) : List Requirement :=
  b.operation.requirements.filter fun r => !r.isCoveredBy b.payer

end Countersign
