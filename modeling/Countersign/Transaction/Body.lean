import Countersign.Key

/-!
# Transaction bodies

A transaction names the account that pays for it and asks the ledger for one operation.  Of each
operation only what bears on the keys that must sign is kept.

## What is here

* `Operation` — the twenty-five operations; `Operation.name` is the name of each.
* `AccountAmount`, `NftTransfer`, `TokenTransfers`, `AllowanceGrant` — the parts of a transfer and
  of an allowance.
* `ContractUpdate`, `TopicUpdate` — updates that may change nothing but the time of expiry, which
  `onlyExtendsExpiry` recognises.
* `Body` — the payer, the other circumstances, and the operation.
-/

set_option autoImplicit false

namespace Countersign

/-! ## Transfers and allowances -/

/-- A change of one balance.  A debit may rest on an allowance granted to the payer. -/
structure AccountAmount where
  account : Address
  amount : Int64
  isApproval : Bool
deriving DecidableEq, Inhabited

def AccountAmount.isDebit (a : AccountAmount) : Bool :=
  a.amount < 0

def AccountAmount.isCredit (a : AccountAmount) : Bool :=
  0 < a.amount

/-- The transfer of one unique token. -/
structure NftTransfer where
  sender : Address
  receiver : Address
  serialNumber : Int64
  isApproval : Bool
deriving DecidableEq, Inhabited

/-- The transfers of one token. -/
structure TokenTransfers where
  token : EntityId
  transfers : List AccountAmount
  nftTransfers : List NftTransfer
deriving DecidableEq, Inhabited

/-- An allowance.  Without an owner it is the payer who grants it. -/
structure AllowanceGrant where
  owner : Option Address
  spender : Address
  token : Option EntityId
  amount : Int64
deriving DecidableEq, Inhabited

/-! ## Updates -/

/-- An update of a contract. -/
structure ContractUpdate where
  contract : Address
  adminKey : Option Key
  autoRenewAccount : Option Address
  memo : Option String
  expirationTime : Option UInt64
deriving DecidableEq, Inhabited

/-- Whether the update sets the time of expiry and nothing else. -/
def ContractUpdate.onlyExtendsExpiry (u : ContractUpdate) : Bool :=
  u.expirationTime.isSome && u.adminKey.isNone && u.autoRenewAccount.isNone && u.memo.isNone

/-- An update of a consensus topic. -/
structure TopicUpdate where
  topic : EntityId
  adminKey : Option Key
  submitKey : Option Key
  autoRenewAccount : Option Address
  memo : Option String
  expirationTime : Option UInt64
deriving DecidableEq, Inhabited

/-- Whether the update sets the time of expiry and nothing else. -/
def TopicUpdate.onlyExtendsExpiry (u : TopicUpdate) : Bool :=
  u.expirationTime.isSome && u.adminKey.isNone && u.submitKey.isNone
    && u.autoRenewAccount.isNone && u.memo.isNone

/-! ## Operations -/

/-- What a transaction does to a token by the authority of one of the token's keys. -/
inductive TokenAction where
  | mint
  | burn
  | wipe
  | freeze
  | unfreeze
  | grantKyc
  | revokeKyc
  | delete
  | pause
  | unpause
  | feeScheduleUpdate
deriving DecidableEq, Inhabited

namespace TokenAction

/-- Every action, in the order of the wire format. -/
def all : List TokenAction :=
  [mint, burn, wipe, freeze, unfreeze, grantKyc, revokeKyc, delete, pause, unpause,
    feeScheduleUpdate]

def name : TokenAction → String
  | mint => "Mint"
  | burn => "Burn"
  | wipe => "Wipe"
  | freeze => "Freeze"
  | unfreeze => "Unfreeze"
  | grantKyc => "GrantKyc"
  | revokeKyc => "RevokeKyc"
  | delete => "Delete"
  | pause => "Pause"
  | unpause => "Unpause"
  | feeScheduleUpdate => "FeeScheduleUpdate"

end TokenAction

/-- What a transaction asks for. -/
inductive Operation where
  | cryptoCreate (key : Key) (receiverSigRequired : Bool) (newAlias : Option Alias)
  | cryptoUpdate (account : Address) (key : Option Key) (receiverSigRequired : Option Bool)
  | cryptoDelete (account transferAccount : Address)
  | cryptoTransfer (hbarTransfers : List AccountAmount) (tokenTransfers : List TokenTransfers)
  | cryptoApproveAllowance (allowances : List AllowanceGrant)
  | fileCreate (keys : Key) (contents : Bytes)
  | fileAppend (file : EntityId) (contents : Bytes)
  | fileUpdate (file : EntityId) (keys : Option Key) (contents : Option Bytes)
  | fileDelete (file : EntityId)
  | contractCreate (adminKey : Option Key) (autoRenewAccount : Option Address)
      (initialBalance : Int64)
  | contractUpdate (update : ContractUpdate)
  | contractDelete (contract : Address) (transferAccount transferContract : Option Address)
  | contractCall (contract : Address) (amount : Int64) (functionParameters : Bytes)
  | topicCreate (adminKey submitKey : Option Key) (autoRenewAccount : Option Address)
  | topicUpdate (update : TopicUpdate)
  | topicDelete (topic : EntityId)
  | topicSubmitMessage (topic : EntityId) (message : Bytes)
  | tokenCreate (symbol : String) (treasury : Address) (adminKey : Option Key)
      (autoRenewAccount : Option Address)
  | tokenUpdate (token : EntityId) (treasury : Option Address) (adminKey : Option Key)
      (autoRenewAccount : Option Address)
  | tokenManage (token : EntityId) (action : TokenAction) (account : Option Address)
  | tokenAssociate (account : Address) (tokens : List EntityId)
  | tokenDissociate (account : Address) (tokens : List EntityId)
  | scheduleCreate (adminKey : Option Key) (payer : Option Address) (scheduledMemo : String)
  | scheduleSign (schedule : EntityId)
  | scheduleDelete (schedule : EntityId)
deriving DecidableEq, Inhabited

namespace Operation

/-- The name of the operation, and its position in the wire format. -/
def title : Operation → String × Nat
  | cryptoCreate .. => ("CryptoCreate", 0)
  | cryptoUpdate .. => ("CryptoUpdate", 1)
  | cryptoDelete .. => ("CryptoDelete", 2)
  | cryptoTransfer .. => ("CryptoTransfer", 3)
  | cryptoApproveAllowance .. => ("CryptoApproveAllowance", 4)
  | fileCreate .. => ("FileCreate", 5)
  | fileAppend .. => ("FileAppend", 6)
  | fileUpdate .. => ("FileUpdate", 7)
  | fileDelete .. => ("FileDelete", 8)
  | contractCreate .. => ("ContractCreate", 9)
  | contractUpdate .. => ("ContractUpdate", 10)
  | contractDelete .. => ("ContractDelete", 11)
  | contractCall .. => ("ContractCall", 12)
  | topicCreate .. => ("TopicCreate", 13)
  | topicUpdate .. => ("TopicUpdate", 14)
  | topicDelete .. => ("TopicDelete", 15)
  | topicSubmitMessage .. => ("TopicSubmitMessage", 16)
  | tokenCreate .. => ("TokenCreate", 17)
  | tokenUpdate .. => ("TokenUpdate", 18)
  | tokenManage .. => ("TokenManage", 19)
  | tokenAssociate .. => ("TokenAssociate", 20)
  | tokenDissociate .. => ("TokenDissociate", 21)
  | scheduleCreate .. => ("ScheduleCreate", 22)
  | scheduleSign .. => ("ScheduleSign", 23)
  | scheduleDelete .. => ("ScheduleDelete", 24)

def name (op : Operation) : String := op.title.1

/-- The position of the operation in the wire format. -/
def position (op : Operation) : Nat := op.title.2

end Operation

/-- What the signatures of a transaction cover. -/
structure Body where
  payer : EntityId
  /-- The start of the period of validity, in nanoseconds since the epoch. -/
  validStart : UInt64
  nodeAccount : EntityId
  memo : String
  operation : Operation
deriving DecidableEq, Inhabited

end Countersign
