import Countersign.Proofs.Contributions
import Countersign.Proofs.Transfers

/-!
# The parties of an operation

An account takes part in an operation in a role: it has to sign, or it receives something.  Which
accounts do is said here of each operation in its own terms, and then found again among the
requirements.

## What is here

* `Operation.Obliges`, `Operation.Favours` — an account has to sign, or receives something.
* `Operation.signer_mem_requirements_iff`, `Operation.receiver_mem_requirements_iff` — it is required
  to do so, and nobody else is.
* `Body.Reaches` — the pass over the requirements comes as far as one of them;
  `Body.Reaches.othersPass_of_error` says how it ends if that one fails.
-/

set_option autoImplicit false

namespace Countersign

/-! ## Who takes part -/

namespace Operation

/-- The account has to sign for the operation, unless it is the payer's. -/
inductive Obliges : Operation → Address → Prop
  | update {a : Address} {key : Option Key} {receiverSigRequired : Option Bool} :
      Obliges (cryptoUpdate a key receiverSigRequired) a
  | delete {a heir : Address} : Obliges (cryptoDelete a heir) a
  | debit {hbar : List AccountAmount} {tokens : List TokenTransfers} {a : Address}
      (h : Debited hbar tokens a) : Obliges (cryptoTransfer hbar tokens) a
  | grant {grants : List AllowanceGrant} {g : AllowanceGrant} {a : Address} (hg : g ∈ grants)
      (howner : g.owner = some a) : Obliges (cryptoApproveAllowance grants) a
  | associate {a : Address} {tokens : List EntityId} : Obliges (tokenAssociate a tokens) a
  | dissociate {a : Address} {tokens : List EntityId} : Obliges (tokenDissociate a tokens) a

/-- The account receives something by the operation. -/
inductive Favours : Operation → Address → Prop
  | credit {hbar : List AccountAmount} {tokens : List TokenTransfers} {a : Address}
      (h : Credited hbar tokens a) : Favours (cryptoTransfer hbar tokens) a
  | heir {target a : Address} : Favours (cryptoDelete target a) a
  | contractHeir {target a : Address} {heirContract : Option Address} :
      Favours (contractDelete target (some a) heirContract) a

/-! ## Their requirements -/

variable {op : Operation} {a : Address}

/-- The accounts of a transfer are required as signers or as receivers. -/
theorem account_mem_transfer_iff {hbar : List AccountAmount} {tokens : List TokenTransfers}
    {role : AccountRole} :
    .account role a ∈ (cryptoTransfer hbar tokens).requirements ↔
      role = .signer ∧ Debited hbar tokens a ∨ role = .receiver ∧ Credited hbar tokens a := by
  rw [requirements_of_transfer, List.mem_flatMap, ← debit_mem_transferSteps_iff,
    ← credit_mem_transferSteps_iff]
  constructor
  · rintro ⟨x, hx, hmem⟩
    cases x with
    | debit target =>
      obtain ⟨rfl, rfl⟩ : role = .signer ∧ a = target := by
        simpa [TransferStep.requirements] using hmem
      exact .inl ⟨rfl, hx⟩
    | credit target =>
      obtain ⟨rfl, rfl⟩ : role = .receiver ∧ a = target := by
        simpa [TransferStep.requirements] using hmem
      exact .inr ⟨rfl, hx⟩
    | token | idle => simp [TransferStep.requirements] at hmem
  · rintro (⟨rfl, h⟩ | ⟨rfl, h⟩)
    · exact ⟨.debit a, h, List.mem_singleton_self _⟩
    · exact ⟨.credit a, h, List.mem_singleton_self _⟩

/-- **The accounts that are required as signers are those that have to sign.** -/
theorem signer_mem_requirements_iff : .account .signer a ∈ op.requirements ↔ op.Obliges a := by
  constructor
  · intro h
    cases op with
    | cryptoUpdate target key =>
      obtain rfl : a = target := by simpa [requirements] using h
      exact .update
    | cryptoDelete target heir =>
      obtain rfl : a = target := by simpa [requirements] using h
      exact .delete
    | cryptoTransfer => exact .debit (by simpa [account_mem_transfer_iff] using h)
    | cryptoApproveAllowance grants =>
      obtain ⟨g, hg, howner⟩ : ∃ g ∈ grants, g.owner = some a := by simpa [requirements] using h
      exact .grant hg howner
    | tokenAssociate target =>
      obtain rfl : a = target := by simpa [requirements] using h
      exact .associate
    | tokenDissociate target =>
      obtain rfl : a = target := by simpa [requirements] using h
      exact .dissociate
    | contractUpdate u =>
      rw [requirements, ContractUpdate.requirements] at h
      split at h <;> simp [Requirement.newAdminKey] at h
    | topicUpdate u =>
      rw [requirements, TopicUpdate.requirements] at h
      split at h <;> simp at h
    | _ => simp [requirements, Requirement.newAdminKey] at h
  · intro h
    cases h with
    | update | delete | associate | dissociate => exact List.mem_cons_self
    | debit h => exact account_mem_transfer_iff.2 (.inl ⟨rfl, h⟩)
    | grant hg howner => exact List.mem_flatMap.2 ⟨_, hg, by simp [howner]⟩

/-- **The accounts that are required as receivers are those that receive something.** -/
theorem receiver_mem_requirements_iff : .account .receiver a ∈ op.requirements ↔ op.Favours a := by
  constructor
  · intro h
    cases op with
    | cryptoDelete target heir =>
      obtain rfl : a = heir := by simpa [requirements] using h
      exact .heir
    | cryptoTransfer => exact .credit (by simpa [account_mem_transfer_iff] using h)
    | contractDelete target heir heirContract =>
      obtain rfl : heir = some a := by simpa [requirements] using h
      exact .contractHeir
    | contractUpdate u =>
      rw [requirements, ContractUpdate.requirements] at h
      split at h <;> simp [Requirement.newAdminKey] at h
    | topicUpdate u =>
      rw [requirements, TopicUpdate.requirements] at h
      split at h <;> simp at h
    | _ => simp [requirements, Requirement.newAdminKey] at h
  · intro h
    cases h with
    | credit h => exact account_mem_transfer_iff.2 (.inr ⟨rfl, h⟩)
    | heir => simp [requirements]
    | contractHeir => simp [requirements]

end Operation

/-! ## How far a pass comes -/

/-- The pass over the requirements comes as far as `r`, since all before it pass. -/
structure Body.Reaches (b : Body) (v : View) (before : List Requirement) (r : Requirement)
    (after : List Requirement) : Prop where
  split : b.requirements = before ++ r :: after
  passed : ∀ q ∈ before, q.Passes v

namespace Body

variable {b : Body} {v : View} {before after : List Requirement} {r : Requirement}

/-- The requirements on accounts are those of the operation, apart from the payer's number. -/
theorem account_mem_requirements_iff {role : AccountRole} {a : Address} :
    .account role a ∈ b.requirements ↔
      .account role a ∈ b.operation.requirements ∧ a ≠ .byId b.payer := by
  rw [mem_requirements_iff, Bool.eq_false_iff, ne_eq, Requirement.isCoveredBy_account_iff]

/-- A pass that fails at the requirement that it has come to ends with that failure. -/
theorem Reaches.othersPass_of_error {src : Source} (h : b.Reaches src.view before r after)
    (hsrc : src.Undisturbed) {e : OrderingFailure} (hr : r.judge src.view = .error e) (t : Trail) :
    (othersPass src b t).1 = .finished (.error e) := by
  rw [hsrc.othersPass_fst, otherKeys, h.split, View.keysOf_of_reached h.passed hr]

end Body

end Countersign
