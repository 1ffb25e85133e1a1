import Countersign.Signing.Requirement

/-!
# The addresses in a transaction

A transaction names accounts and contracts by address in many places, and its requirements name them
by the same addresses.  Changing every address of a transaction changes those of its requirements, and
nothing else about them.

## What is here

* `Operation.mapAddresses`, `Body.mapAddresses` — a transaction with every address changed by a
  function, and the same for the parts of an operation.
* `Requirement.mapAddress`, `EntityRef.mapAddress` — a requirement and a reference.
* `Operation.requirements_mapAddresses` — the requirements of an operation whose addresses are changed.
-/

set_option autoImplicit false

namespace Countersign

variable (f : Address → Address)

/-! ## Changing every address -/

def AccountAmount.mapAddress (a : AccountAmount) : AccountAmount :=
  { a with account := f a.account }

def NftTransfer.mapAddresses (t : NftTransfer) : NftTransfer :=
  { t with sender := f t.sender, receiver := f t.receiver }

def TokenTransfers.mapAddresses (t : TokenTransfers) : TokenTransfers :=
  { t with
    transfers := t.transfers.map (AccountAmount.mapAddress f)
    nftTransfers := t.nftTransfers.map (NftTransfer.mapAddresses f) }

def AllowanceGrant.mapAddresses (g : AllowanceGrant) : AllowanceGrant :=
  { g with owner := g.owner.map f, spender := f g.spender }

def ContractUpdate.mapAddresses (u : ContractUpdate) : ContractUpdate :=
  { u with contract := f u.contract, autoRenewAccount := u.autoRenewAccount.map f }

def TopicUpdate.mapAddress (u : TopicUpdate) : TopicUpdate :=
  { u with autoRenewAccount := u.autoRenewAccount.map f }

/-- The operation with every address in it changed.  The alias that a new account is given is not an
address: it refers to nothing yet. -/
def Operation.mapAddresses : Operation → Operation
  | cryptoCreate key receiverSigRequired newAlias => cryptoCreate key receiverSigRequired newAlias
  | cryptoUpdate target key receiverSigRequired => cryptoUpdate (f target) key receiverSigRequired
  | cryptoDelete target heir => cryptoDelete (f target) (f heir)
  | cryptoTransfer hbar tokens =>
    cryptoTransfer (hbar.map (AccountAmount.mapAddress f)) (tokens.map (TokenTransfers.mapAddresses f))
  | cryptoApproveAllowance grants =>
    cryptoApproveAllowance (grants.map (AllowanceGrant.mapAddresses f))
  | fileCreate keys contents => fileCreate keys contents
  | fileAppend target contents => fileAppend target contents
  | fileUpdate target keys contents => fileUpdate target keys contents
  | fileDelete target => fileDelete target
  | contractCreate admin renew balance => contractCreate admin (renew.map f) balance
  | contractUpdate update => contractUpdate (update.mapAddresses f)
  | contractDelete target heir heirContract =>
    contractDelete (f target) (heir.map f) (heirContract.map f)
  | contractCall target amount parameters => contractCall (f target) amount parameters
  | topicCreate admin submit renew => topicCreate admin submit (renew.map f)
  | topicUpdate update => topicUpdate (update.mapAddress f)
  | topicDelete target => topicDelete target
  | topicSubmitMessage target message => topicSubmitMessage target message
  | tokenCreate symbol treasury admin renew => tokenCreate symbol (f treasury) admin (renew.map f)
  | tokenUpdate target treasury admin renew =>
    tokenUpdate target (treasury.map f) admin (renew.map f)
  | tokenManage target action holder => tokenManage target action (holder.map f)
  | tokenAssociate target tokens => tokenAssociate (f target) tokens
  | tokenDissociate target tokens => tokenDissociate (f target) tokens
  | scheduleCreate admin payer memo => scheduleCreate admin (payer.map f) memo
  | scheduleSign target => scheduleSign target
  | scheduleDelete target => scheduleDelete target

def Body.mapAddresses (b : Body) : Body :=
  { b with operation := b.operation.mapAddresses f }

@[simp] theorem Body.payer_mapAddresses (b : Body) : (b.mapAddresses f).payer = b.payer := rfl

def Requirement.mapAddress : Requirement → Requirement
  | account role a => account role (f a)
  | contract role a => contract role (f a)
  | r => r

def EntityRef.mapAddress : EntityRef → EntityRef
  | account a => account (f a)
  | contract a => contract (f a)
  | ref => ref

theorem Requirement.subject?_mapAddress (r : Requirement) :
    (r.mapAddress f).subject? = r.subject?.map (EntityRef.mapAddress f) := by
  cases r <;> rfl

/-! ## The requirements of the parts -/

namespace Requirement

theorem map_suppliedIfAny (key? : Option Key) :
    (suppliedIfAny key?).map (mapAddress f) = suppliedIfAny key? := by
  cases key? <;> rfl

theorem map_newAdminKey (key? : Option Key) :
    (newAdminKey key?).map (mapAddress f) = newAdminKey key? :=
  map_suppliedIfAny f _

theorem map_accountIfAny (role : AccountRole) (address? : Option Address) :
    (accountIfAny role address?).map (mapAddress f) = accountIfAny role (address?.map f) := by
  cases address? <;> rfl

end Requirement

theorem AccountAmount.requirements_mapAddress (a : AccountAmount) :
    (a.mapAddress f).requirements = a.requirements.map (Requirement.mapAddress f) := by
  have hdebit : (a.mapAddress f).isDebit = a.isDebit := rfl
  have hcredit : (a.mapAddress f).isCredit = a.isCredit := rfl
  have happroval : (a.mapAddress f).isApproval = a.isApproval := rfl
  rw [requirements, requirements, hdebit, hcredit, happroval]
  split
  · split <;> rfl
  · split <;> rfl

theorem NftTransfer.requirements_mapAddresses (t : NftTransfer) :
    (t.mapAddresses f).requirements = t.requirements.map (Requirement.mapAddress f) := by
  have happroval : (t.mapAddresses f).isApproval = t.isApproval := rfl
  rw [requirements, requirements, happroval]
  split <;> rfl

theorem TokenTransfers.requirements_mapAddresses (t : TokenTransfers) :
    (t.mapAddresses f).requirements = t.requirements.map (Requirement.mapAddress f) := by
  rw [requirements, requirements, List.map_cons, List.map_append, List.map_flatMap, List.map_flatMap,
    mapAddresses, List.flatMap_map, List.flatMap_map]
  simp only [AccountAmount.requirements_mapAddress, NftTransfer.requirements_mapAddresses]
  rfl

theorem ContractUpdate.requirements_mapAddresses (u : ContractUpdate) :
    (u.mapAddresses f).requirements = u.requirements.map (Requirement.mapAddress f) := by
  have hext : (u.mapAddresses f).onlyExtendsExpiry = u.onlyExtendsExpiry := by
    simp [onlyExtendsExpiry, mapAddresses]
  rw [requirements, requirements, hext]
  split
  · rfl
  · rw [List.map_cons, List.map_append, Requirement.map_newAdminKey, Requirement.map_accountIfAny]
    rfl

theorem TopicUpdate.requirements_mapAddress (u : TopicUpdate) :
    (u.mapAddress f).requirements = u.requirements.map (Requirement.mapAddress f) := by
  have hext : (u.mapAddress f).onlyExtendsExpiry = u.onlyExtendsExpiry := by
    simp [onlyExtendsExpiry, mapAddress]
  rw [requirements, requirements, hext]
  split
  · rfl
  · rw [List.map_cons, List.map_append, Requirement.map_suppliedIfAny, Requirement.map_accountIfAny]
    rfl

/-! ## The requirements of an operation -/

/-- **The requirements name accounts and contracts by the addresses in the operation.** -/
theorem Operation.requirements_mapAddresses (op : Operation) :
    (op.mapAddresses f).requirements = op.requirements.map (Requirement.mapAddress f) := by
  cases op with
  | cryptoCreate key receiverSigRequired newAlias => cases receiverSigRequired <;> rfl
  | cryptoTransfer hbar tokens =>
    rw [requirements, mapAddresses, requirements, List.map_append, List.map_flatMap,
      List.map_flatMap, List.flatMap_map, List.flatMap_map]
    simp only [AccountAmount.requirements_mapAddress, TokenTransfers.requirements_mapAddresses]
  | cryptoApproveAllowance grants =>
    rw [requirements, mapAddresses, requirements, List.map_flatMap, List.flatMap_map]
    simp only [Requirement.map_accountIfAny, AllowanceGrant.mapAddresses]
  | contractUpdate update => exact update.requirements_mapAddresses f
  | topicUpdate update => exact update.requirements_mapAddress f
  | contractDelete target heir heirContract =>
    cases heir <;> cases heirContract <;> rfl
  | contractCall target amount parameters =>
    rw [requirements, mapAddresses, requirements]
    split <;> rfl
  | _ =>
    simp [requirements, mapAddresses, Requirement.map_suppliedIfAny, Requirement.map_newAdminKey,
      Requirement.map_accountIfAny, Requirement.mapAddress]

end Countersign
