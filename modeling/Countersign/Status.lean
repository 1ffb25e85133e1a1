/-!
# Statuses

One expansion of the signatures of a transaction ends in one status: success, the reason why the
required keys could not be determined, or the reason why a required key was not matched by the
signatures that came along.

## What is here

* `Status` — the closed set of statuses, with its texts and its three classes.
* `OrderingFailure` — why the required keys could not be determined; `OrderingFailure.status` is the
  status that reports it.
-/

set_option autoImplicit false

namespace Countersign

/-- How an expansion can end. -/
inductive Status where
  | ok
  | invalidAccountId
  | accountDeleted
  | immutableAccount
  | invalidContractId
  | modifyingImmutableContract
  | invalidAutorenewAccount
  | invalidTokenId
  | invalidTreasuryAccountForToken
  | invalidTopicId
  | invalidFileId
  | invalidScheduleId
  | unresolvableRequiredSigners
  | invalidSignature
  | keyPrefixMismatch
deriving DecidableEq, Inhabited

namespace Status

def text : Status → String
  | ok => "OK"
  | invalidAccountId => "INVALID_ACCOUNT_ID"
  | accountDeleted => "ACCOUNT_DELETED"
  | immutableAccount => "IMMUTABLE_ACCOUNT"
  | invalidContractId => "INVALID_CONTRACT_ID"
  | modifyingImmutableContract => "MODIFYING_IMMUTABLE_CONTRACT"
  | invalidAutorenewAccount => "INVALID_AUTORENEW_ACCOUNT"
  | invalidTokenId => "INVALID_TOKEN_ID"
  | invalidTreasuryAccountForToken => "INVALID_TREASURY_ACCOUNT_FOR_TOKEN"
  | invalidTopicId => "INVALID_TOPIC_ID"
  | invalidFileId => "INVALID_FILE_ID"
  | invalidScheduleId => "INVALID_SCHEDULE_ID"
  | unresolvableRequiredSigners => "UNRESOLVABLE_REQUIRED_SIGNERS"
  | invalidSignature => "INVALID_SIGNATURE"
  | keyPrefixMismatch => "KEY_PREFIX_MISMATCH"

/-- Every status, in order of declaration. -/
def all : List Status :=
  [ok, invalidAccountId, accountDeleted, immutableAccount, invalidContractId,
    modifyingImmutableContract, invalidAutorenewAccount, invalidTokenId,
    invalidTreasuryAccountForToken, invalidTopicId, invalidFileId, invalidScheduleId,
    unresolvableRequiredSigners, invalidSignature, keyPrefixMismatch]

theorem mem_all (s : Status) : s ∈ all := by
  cases s <;> decide

def isOk (s : Status) : Bool :=
  s == ok

/-- Raised while matching signatures to the required keys. -/
def isMatchingFailure : Status → Bool
  | invalidSignature => true
  | keyPrefixMismatch => true
  | _ => false

/-- Raised while determining the required keys. -/
def isOrderingFailure (s : Status) : Bool :=
  !s.isOk && !s.isMatchingFailure

end Status

/-- Why the keys that must sign could not be determined. -/
inductive OrderingFailure where
  | missingFile
  | missingAccount
  | invalidContract
  | immutableContract
  | invalidAutoRenewAccount
  | missingToken
  | invalidTopic
  | missingTokenTreasury
  | missingSchedule
  | invalidAccount
  | immutableAccount
  | generalError
deriving DecidableEq, Inhabited

namespace OrderingFailure

def text : OrderingFailure → String
  | missingFile => "Referenced file does not exist"
  | missingAccount => "Referenced account does not exist"
  | invalidContract => "Referenced contract does not exist or is deleted"
  | immutableContract => "Contract has no admin key"
  | invalidAutoRenewAccount => "Auto-renew account does not exist or is deleted"
  | missingToken => "Referenced token does not exist"
  | invalidTopic => "Referenced topic does not exist or is deleted"
  | missingTokenTreasury => "Token treasury account does not exist or is deleted"
  | missingSchedule => "Referenced schedule does not exist"
  | invalidAccount => "Referenced account is deleted"
  | immutableAccount => "Account key can never sign"
  | generalError => "Required signers could not be resolved"

/-- Every failure, in order of declaration. -/
def all : List OrderingFailure :=
  [missingFile, missingAccount, invalidContract, immutableContract, invalidAutoRenewAccount,
    missingToken, invalidTopic, missingTokenTreasury, missingSchedule, invalidAccount,
    immutableAccount, generalError]

theorem mem_all (f : OrderingFailure) : f ∈ all := by
  cases f <;> decide

/-- The status that reports the failure. -/
def status : OrderingFailure → Status
  | missingFile => .invalidFileId
  | missingAccount => .invalidAccountId
  | invalidContract => .invalidContractId
  | immutableContract => .modifyingImmutableContract
  | invalidAutoRenewAccount => .invalidAutorenewAccount
  | missingToken => .invalidTokenId
  | invalidTopic => .invalidTopicId
  | missingTokenTreasury => .invalidTreasuryAccountForToken
  | missingSchedule => .invalidScheduleId
  | invalidAccount => .accountDeleted
  | immutableAccount => .immutableAccount
  | generalError => .unresolvableRequiredSigners

theorem isOrderingFailure_status (f : OrderingFailure) : f.status.isOrderingFailure = true := by
  cases f <;> rfl

end OrderingFailure

end Countersign
