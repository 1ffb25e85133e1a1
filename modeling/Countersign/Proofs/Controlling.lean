import Countersign.Ledger.Store
import Countersign.Proofs.Contributions

/-!
# The key that controls an entity

Whoever changes an entity, or acts on it by its authority, needs the key that controls it at present,
and whoever puts another key in its place needs that one too.  So nobody takes an entity over without
its old key, and nobody gives it to a key that has not agreed.

## What is here

* `Target`, `Operation.target?` — the existing entity that an operation changes or acts on.
* `Target.key?` — the key that controls a target, read off the ledger's records.
* `Operation.replacement?` — the key that an operation puts in the place of another.
* `Requirement.Guards` — a requirement asks for the key of a target and for nothing else, with one
  lemma a kind of target; `Operation.exists_guard` says that it is the first requirement.
* `othersPass_of_target` — the pass finds the controlling key first and the replacement among the
  others.
-/

set_option autoImplicit false

namespace Countersign

/-! ## Targets -/

/-- An existing entity that an operation changes or acts on.  A topic and a token have several keys,
and it is said which of them is needed. -/
inductive Target where
  | account (a : Address)
  | contract (a : Address)
  | file (id : EntityId)
  | topic (id : EntityId) (key? : TopicRecord → Option Key)
  | token (id : EntityId) (key? : TokenRecord → Option Key)
  | schedule (id : EntityId)

/-- The key of a token that authorises an action on it. -/
def TokenRecord.keyFor (r : TokenRecord) : TokenAction → Option Key
  | .mint => r.supplyKey
  | .burn => r.supplyKey
  | .wipe => r.wipeKey
  | .freeze => r.freezeKey
  | .unfreeze => r.freezeKey
  | .grantKyc => r.kycKey
  | .revokeKyc => r.kycKey
  | .delete => r.adminKey
  | .pause => r.pauseKey
  | .unpause => r.pauseKey
  | .feeScheduleUpdate => r.feeScheduleKey

/-- The target of an operation.  An update that only extends the time of expiry changes nothing, and
neither does a transfer, an allowance, a call, or a signature for a schedule. -/
def Operation.target? : Operation → Option Target
  | cryptoUpdate target _ _ => some (.account target)
  | cryptoDelete target _ => some (.account target)
  | fileAppend target _ => some (.file target)
  | fileUpdate target _ _ => some (.file target)
  | fileDelete target => some (.file target)
  | contractUpdate u => if u.onlyExtendsExpiry then none else some (.contract u.contract)
  | contractDelete target _ _ => some (.contract target)
  | topicUpdate u => if u.onlyExtendsExpiry then none else some (.topic u.topic (·.adminKey))
  | topicDelete target => some (.topic target (·.adminKey))
  | topicSubmitMessage target _ => some (.topic target (·.submitKey))
  | tokenUpdate target _ _ _ => some (.token target (·.adminKey))
  | tokenManage target action _ => some (.token target (·.keyFor action))
  | tokenAssociate target _ => some (.account target)
  | tokenDissociate target _ => some (.account target)
  | scheduleDelete target => some (.schedule target)
  | cryptoCreate .. | cryptoTransfer .. | cryptoApproveAllowance .. | fileCreate ..
  | contractCreate .. | contractCall .. | topicCreate .. | tokenCreate .. | scheduleCreate ..
  | scheduleSign .. => none

/-- The key that controls a target at present, if the target exists and has one. -/
def Target.key? (v : View) : Target → Option Key
  | account a => (v.accountAt a).map (·.key)
  | contract a => (v.accountAt a).map (·.key)
  | file id => (v.file id).map (·.wacl)
  | topic id key? => (v.topic id).bind key?
  | token id key? => (v.token id).bind key?
  | schedule id => (v.schedule id).bind (·.adminKey)

/-- The key that an operation puts in the place of the one that controls its target.  Nobody signs for
the number of a contract. -/
def Operation.replacement? : Operation → Option Key
  | cryptoUpdate _ key _ => key
  | fileUpdate _ keys _ => keys
  | contractUpdate u => u.adminKey.filter fun k => !k.isContractId
  | topicUpdate u => u.adminKey
  | tokenUpdate _ _ admin _ => admin
  | _ => none

/-! ## The requirement for a target -/

namespace Requirement

/-- The requirement asks for the key of the target, and is passed over only for the payer's own
account. -/
structure Guards (r : Requirement) (target : Target) : Prop where
  asks : ∀ v key, r.Passes v → target.key? v = some key → key.isEmpty = false →
    r.contribution v = some key
  covered : ∀ payer, r.isCoveredBy payer = true → target = .account (.byId payer)

/-- It is enough to look at the key that is asked for before an empty one is left out. -/
theorem guards_of_ask {r : Requirement} {target : Target}
    (hask : ∀ v key?, r.ask v = .ok key? → target.key? v = key?)
    (hcovered : ∀ payer, r.isCoveredBy payer = true → target = .account (.byId payer)) :
    r.Guards target where
  asks v key hpass hkey hne := by
    obtain ⟨key?, hj⟩ := hpass
    rw [contribution_of_judge hj]
    rw [judge] at hj
    rcases ha : r.ask v with e | asked <;> rw [ha] at hj
    · cases hj
    · obtain rfl := Except.ok.inj hj
      obtain rfl := (hask v asked ha).symm.trans hkey
      exact Option.filter_eq_some_iff.2 ⟨rfl, by simp [hne]⟩
  covered := hcovered

theorem guards_account (a : Address) : (account .signer a).Guards (.account a) := by
  refine guards_of_ask (fun v key? h => ?_) fun payer h => ?_
  · rw [ask] at h
    rcases hm : v.accountMetadata a with e | m <;> rw [hm] at h
    · cases h
    · obtain ⟨r, hr, -, rfl⟩ := View.accountMetadata_eq_ok_iff.1 hm
      rw [AccountRole.judge] at h
      split at h
      · cases h
      · rw [Target.key?, hr]
        exact Except.ok.inj h
  · cases a with
    | byId id => simpa [isCoveredBy] using h
    | byAlias a => cases h

theorem guards_contract (a : Address) : (contract .changed a).Guards (.contract a) := by
  refine guards_of_ask (fun v key? h => ?_) fun payer h => by cases h
  rw [ask] at h
  rcases hm : v.contractMetadata a with e | m <;> rw [hm] at h
  · cases h
  rw [ContractRole.judge] at h
  split at h
  · cases h
  next hmutable =>
  obtain rfl := Except.ok.inj h
  rw [View.contractMetadata] at hm
  rcases hr : v.accountAt a with - | r <;> simp only [hr] at hm
  · cases hm
  split at hm
  · cases hm
  obtain rfl := Except.ok.inj hm
  -- a contract whose key can never sign is immutable
  rw [Target.key?, hr]
  split
  · next hkey => simp [ContractMetadata.isImmutable, hkey] at hmutable
  · rfl

theorem guards_file (id : EntityId) : (file id).Guards (.file id) := by
  refine guards_of_ask (fun v key? h => ?_) fun payer h => by cases h
  rw [ask, View.fileMetadata] at h
  rcases hr : v.file id with - | r <;> rw [hr] at h
  · cases h
  · rw [Target.key?, hr]
    exact Except.ok.inj h

theorem guards_topic {role : TopicRole} {key? : TopicRecord → Option Key} (id : EntityId)
    (hrole : ∀ r : TopicRecord, key? r = (TopicMetadata.mk r.adminKey r.submitKey).keyOf role) :
    (topic id (some role)).Guards (.topic id key?) := by
  refine guards_of_ask (fun v asked h => ?_) fun payer h => by cases h
  rw [ask, View.topicMetadata] at h
  rcases hr : v.topic id with - | r <;> simp only [hr] at h
  · cases h
  split at h
  · cases h
  · rw [Target.key?, hr, Option.bind_some, hrole]
    exact Except.ok.inj h

theorem guards_token {role : TokenRole} {key? : TokenRecord → Option Key} (id : EntityId)
    (hrole : ∀ r : TokenRecord, key? r =
      (TokenMetadata.mk r.treasury r.adminKey r.kycKey r.wipeKey r.freezeKey r.supplyKey
        r.feeScheduleKey r.pauseKey).keyOf role) :
    (token id (some role)).Guards (.token id key?) := by
  refine guards_of_ask (fun v asked h => ?_) fun payer h => by cases h
  rw [ask, View.tokenMetadata] at h
  rcases hr : v.token id with - | r <;> rw [hr] at h
  · cases h
  · rw [Target.key?, hr, Option.bind_some, hrole]
    exact Except.ok.inj h

theorem guards_schedule (id : EntityId) : (schedule id true).Guards (.schedule id) := by
  refine guards_of_ask (fun v key? h => ?_) fun payer h => by cases h
  rw [ask, View.scheduleMetadata] at h
  rcases hr : v.schedule id with - | r <;> rw [hr] at h
  · cases h
  · rw [Target.key?, hr]
    exact Except.ok.inj h

end Requirement

open Requirement in
/-- **The first requirement of an operation guards its target.** -/
theorem Operation.exists_guard {op : Operation} {target : Target} (h : op.target? = some target) :
    ∃ r rs, op.requirements = r :: rs ∧ r.Guards target := by
  cases op with
  | cryptoUpdate | cryptoDelete | tokenAssociate | tokenDissociate =>
    obtain rfl := Option.some.inj h
    exact ⟨_, _, rfl, guards_account _⟩
  | fileAppend | fileUpdate | fileDelete =>
    obtain rfl := Option.some.inj h
    exact ⟨_, _, rfl, guards_file _⟩
  | contractUpdate u =>
    rw [target?] at h
    split at h
    · cases h
    · next hext =>
      obtain rfl := Option.some.inj h
      exact ⟨_, _, by rw [requirements, ContractUpdate.requirements, if_neg hext], guards_contract _⟩
  | contractDelete =>
    obtain rfl := Option.some.inj h
    exact ⟨_, _, rfl, guards_contract _⟩
  | topicUpdate u =>
    rw [target?] at h
    split at h
    · cases h
    · next hext =>
      obtain rfl := Option.some.inj h
      exact ⟨_, _, by rw [requirements, TopicUpdate.requirements, if_neg hext],
        guards_topic _ fun _ => rfl⟩
  | topicDelete | topicSubmitMessage =>
    obtain rfl := Option.some.inj h
    exact ⟨_, _, rfl, guards_topic _ fun _ => rfl⟩
  | tokenUpdate =>
    obtain rfl := Option.some.inj h
    exact ⟨_, _, rfl, guards_token _ fun _ => rfl⟩
  | tokenManage target action =>
    obtain rfl := Option.some.inj h
    exact ⟨_, _, rfl, guards_token _ fun _ => by cases action <;> rfl⟩
  | scheduleDelete =>
    obtain rfl := Option.some.inj h
    exact ⟨_, _, rfl, guards_schedule _⟩
  | _ => cases h

/-- A replacement is required as a key that the transaction brings along. -/
theorem Operation.supplied_mem_requirements {op : Operation} {key : Key}
    (h : op.replacement? = some key) : .supplied key ∈ op.requirements := by
  cases op with
  | cryptoUpdate target key? =>
    rw [requirements]
    simp [show key? = some key from h]
  | fileUpdate target keys =>
    rw [requirements]
    simp [show keys = some key from h]
  | contractUpdate u =>
    have hkey : u.adminKey.filter (fun k => !k.isContractId) = some key := h
    have hext : ¬ u.onlyExtendsExpiry = true := fun hext => by
      simp_all [ContractUpdate.onlyExtendsExpiry]
    rw [requirements, ContractUpdate.requirements, if_neg hext]
    simp [Requirement.newAdminKey, hkey]
  | topicUpdate u =>
    have hkey : u.adminKey = some key := h
    have hext : ¬ u.onlyExtendsExpiry = true := by simp [TopicUpdate.onlyExtendsExpiry, hkey]
    rw [requirements, TopicUpdate.requirements, if_neg hext]
    simp [hkey]
  | tokenUpdate target treasury admin =>
    rw [requirements]
    simp [show admin = some key from h]
  | _ => cases h

/-! ## The pass -/

section pass

variable {v : View} {b : Body} {keys : List Key}

/-- The key that controls the target is found first. -/
theorem head?_otherKeys (h : otherKeys v b = .ok keys) {target : Target} {key : Key}
    (htarget : b.operation.target? = some target) (hpayer : target ≠ .account (.byId b.payer))
    (hkey : target.key? v = some key) (hne : key.isEmpty = false) : keys.head? = some key := by
  obtain ⟨r, rs, hop, hguards⟩ := Operation.exists_guard htarget
  have hnot : r.isCoveredBy b.payer = false := by
    rw [Bool.eq_false_iff]
    exact fun hcov => hpayer (hguards.covered _ hcov)
  have hb : b.requirements = r :: rs.filter fun q => !q.isCoveredBy b.payer := by
    rw [Body.requirements, hop, List.filter_cons_of_pos (by simp [hnot])]
  rw [otherKeys, hb] at h
  have hpass := (View.keysOf_eq_ok_iff.1 h).1 r List.mem_cons_self
  exact View.head?_keysOf h (hguards.asks v key hpass hkey hne)

/-- The key that takes its place is found too. -/
theorem replacement_mem_otherKeys (h : otherKeys v b = .ok keys) {key : Key}
    (hkey : b.operation.replacement? = some key) (hne : key.isEmpty = false) : key ∈ keys := by
  have hmem : .supplied key ∈ b.requirements :=
    Body.mem_requirements_iff.2 ⟨Operation.supplied_mem_requirements hkey, rfl⟩
  have hjudge : (Requirement.supplied key).judge v = .ok (some key) := by
    simp [Requirement.judge, Requirement.ask, Except.map, hne]
  exact View.mem_keysOf h hmem (Requirement.contribution_of_judge hjudge)

/-- **Changing an entity takes the key that controls it, and changing that key takes both.**  Unless
the target is the payer's own account, named by number, the key that controls it at present is the
first that a successful pass finds, provided that there is one and it is not empty.  A replacement that
is not empty is among the keys that are found, whatever the target.  No key that a pass hands on is
empty, and a pass that fails hands on none. -/
theorem othersPass_of_target (src : Source) (b : Body) (t : Trail) :
    let pass := (othersPass src b t).1
    (∀ keys, pass = .finished (.ok keys) →
      (∀ target key, b.operation.target? = some target → target ≠ .account (.byId b.payer) →
        target.key? src.view = some key → key.isEmpty = false → keys.head? = some key) ∧
      ∀ key, b.operation.replacement? = some key → key.isEmpty = false → key ∈ keys) ∧
    (∀ key ∈ pass.keys, key.isEmpty = false) ∧
    ∀ e, pass = .finished (.error e) → pass.keys = [] := by
  intro pass
  refine ⟨fun keys h => ?_, fun key hkey => ?_, fun e h => ?_⟩
  · have hkeys := otherKeys_of_othersPass h
    exact ⟨fun _ _ htarget hpayer hkey hne => head?_otherKeys hkeys htarget hpayer hkey hne,
      fun _ hkey hne => replacement_mem_otherKeys hkeys hkey hne⟩
  · rcases hpass : pass with (e | keys) | -
    · rw [hpass] at hkey
      cases hkey
    · rw [hpass] at hkey
      exact View.not_isEmpty_of_mem_keysOf (otherKeys_of_othersPass hpass) hkey
    · rw [hpass] at hkey
      cases hkey
  · rw [h]
    rfl

/-- A contract that is held by one key passes to another, and is renewed by an account. -/
theorem othersPass_of_target_of_handover :
    let old : Key := .ed25519 (.replicate 32 7)
    let new : Key := .threshold 1 [.contractId ⟨0, 0, 9⟩, .ed25519 (.replicate 32 8)]
    let renewer : Key := .ecdsaSecp256k1 (.replicate 33 2)
    let store := Store.fresh.run
      [.putAccount ⟨0, 0, 50⟩ (.contract (some old)), .bindAlias ⟨[5]⟩ ⟨0, 0, 50⟩,
        .putAccount ⟨0, 0, 1002⟩ { key := renewer }]
    let src : Source := { view := store.view fun _ => false }
    let b : Body :=
      { payer := ⟨0, 0, 1001⟩, validStart := 1000, nodeAccount := ⟨0, 0, 3⟩, memo := ""
        operation := .contractUpdate
          { contract := .byAlias ⟨[5]⟩, adminKey := some new
            autoRenewAccount := some (.byId ⟨0, 0, 1002⟩), memo := none, expirationTime := none } }
    (othersPass src b {}).1 = .finished (.ok [old, new, renewer]) ∧
      b.operation.target? = some (.contract (.byAlias ⟨[5]⟩)) ∧
      (Target.contract (.byAlias ⟨[5]⟩)).key? src.view = some old ∧
      [old, new, renewer].head? = some old ∧
      b.operation.replacement? = some new ∧ new ∈ [old, new, renewer] := by
  intro old new renewer store src b
  have hpass : (othersPass src b {}).1 = .finished (.ok [old, new, renewer]) := rfl
  obtain ⟨hkeys, -, -⟩ := othersPass_of_target src b {}
  obtain ⟨hfirst, hnew⟩ := hkeys _ hpass
  exact ⟨hpass, rfl, rfl, hfirst _ old rfl (by simp) rfl rfl, rfl, hnew new rfl rfl⟩

end pass

end Countersign
