import Countersign.Proofs.Precedence
import Countersign.Proofs.Resolving

/-!
# Who signs for a transfer

A transfer is a walk through its parts.  Taking from an account needs the account's key, giving to
it needs the key only if the account has said so, and what rests on an allowance or moves nothing
needs no key.  The walk ends at the first part whose account or token is not in order.

## What is here

* `TransferStep`, `Operation.transferSteps` — the steps of a transfer, in order.
* `TransferStep.failure?`, `TransferStep.keys`, `TransferStep.subject?` — why a step fails, the keys
  that it asks for, and what it looks up, all in terms of the ledger's records.
* `View.keysOf_append_of_ok`, `View.keysOf_append_of_error` — requirements, and then more of them.
* `keysOf_asked`, `itinerary_asked` — the requirements of a step.
* `TransferStep.Walks`, `keysOf_of_walks` — the walk over the steps, with its result and the steps
  that it has taken.
* `Operation.Debited`, `Operation.Credited` — what is taken from an account or given to it.
* `othersPass_transfer` — the pass over a transfer is the walk over its steps, and the keys required
  are those of accounts that something is taken from or that insist on signing for what they are
  given.
-/

set_option autoImplicit false

namespace Countersign

/-! ## The steps of a transfer -/

/-- A step of a transfer: something is taken from an account or given to it, a token is looked at,
or nobody is asked. -/
inductive TransferStep where
  | debit (a : Address)
  | credit (a : Address)
  | token (id : EntityId)
  | idle
deriving DecidableEq

/-- An allowance takes the place of the owner's signature. -/
def AccountAmount.step (a : AccountAmount) : TransferStep :=
  if a.amount < 0 then if a.isApproval then .idle else .debit a.account
  else if 0 < a.amount then .credit a.account
  else .idle

def NftTransfer.steps (t : NftTransfer) : List TransferStep :=
  [if t.isApproval then .idle else .debit t.sender, .credit t.receiver]

def TokenTransfers.steps (t : TokenTransfers) : List TransferStep :=
  .token t.token :: (t.transfers.map AccountAmount.step ++ t.nftTransfers.flatMap NftTransfer.steps)

/-- The steps of a transfer: first those of the native currency, then those of each token. -/
def Operation.transferSteps (hbar : List AccountAmount) (tokens : List TokenTransfers) :
    List TransferStep :=
  hbar.map AccountAmount.step ++ tokens.flatMap TokenTransfers.steps

namespace TransferStep

/-- Why a step fails.  The payer, if named by number, is passed over. -/
def failure? (v : View) (payer : EntityId) : TransferStep → Option OrderingFailure
  | debit a =>
    if a = .byId payer then none
    else
      match v.accountAt a with
      | none => some .missingAccount
      | some r =>
        if r.deleted then some .invalidAccount
        else if r.key.isEmpty then some .immutableAccount
        else none
  | credit a =>
    if a = .byId payer then none
    else
      match v.accountAt a with
      | none => if a.isAlias then none else some .missingAccount
      | some r => if r.deleted then some .invalidAccount else none
  | token id => if (v.token id).isSome then none else some .missingToken
  | idle => none

/-- The keys that a step asks for, provided that it does not fail. -/
def keys (v : View) (payer : EntityId) : TransferStep → List Key
  | debit a => if a = .byId payer then [] else ((v.accountAt a).map (·.key)).toList
  | credit a =>
    if a = .byId payer then []
    else
      (((v.accountAt a).filter (·.receiverSigRequired)).map (·.key)).toList.filter
        fun k => !k.isEmpty
  | token _ => []
  | idle => []

/-- The entity that a step looks up. -/
def subject? (payer : EntityId) : TransferStep → Option EntityRef
  | debit a => if a = .byId payer then none else some (.account a)
  | credit a => if a = .byId payer then none else some (.account a)
  | token id => some (.token id)
  | idle => none

/-- The trail after the lookups of steps. -/
def trailOf (v : View) (payer : EntityId) (steps : List TransferStep) (t : Trail) : Trail where
  linked := t.linked.linkEach v ((steps.filterMap (subject? payer)).flatMap v.sightings)
  calls := t.calls ++ (steps.filterMap (subject? payer)).map EntityRef.kind

/-! ## Steps as requirements -/

/-- The requirements of a step. -/
def requirements : TransferStep → List Requirement
  | debit a => [.account .signer a]
  | credit a => [.account .receiver a]
  | token id => [.token id none]
  | idle => []

/-- The requirements of a step, apart from one on the payer. -/
def asked (payer : EntityId) (x : TransferStep) : List Requirement :=
  x.requirements.filter fun r => !r.isCoveredBy payer

end TransferStep

theorem AccountAmount.step_eq_debit_iff {x : AccountAmount} {a : Address} :
    x.step = .debit a ↔ x.amount < 0 ∧ x.isApproval = false ∧ x.account = a := by
  rw [step]
  by_cases hneg : x.amount < 0
  · cases x.isApproval <;> simp [hneg]
  · by_cases hpos : 0 < x.amount <;> simp [hneg, hpos]

theorem AccountAmount.step_eq_credit_iff {x : AccountAmount} {a : Address} :
    x.step = .credit a ↔ 0 < x.amount ∧ x.account = a := by
  rw [step]
  by_cases hneg : x.amount < 0
  · have hnot : ¬ 0 < x.amount := by grind
    cases x.isApproval <;> simp [hneg, hnot]
  · by_cases hpos : 0 < x.amount <;> simp [hneg, hpos]

theorem NftTransfer.debit_mem_steps_iff {x : NftTransfer} {a : Address} :
    .debit a ∈ x.steps ↔ x.isApproval = false ∧ x.sender = a := by
  rw [steps]
  cases x.isApproval <;> simp [eq_comm]

theorem NftTransfer.credit_mem_steps_iff {x : NftTransfer} {a : Address} :
    .credit a ∈ x.steps ↔ x.receiver = a := by
  rw [steps]
  cases x.isApproval <;> simp [eq_comm]

theorem AccountAmount.requirements_eq_step (a : AccountAmount) :
    a.requirements = a.step.requirements := by
  rw [requirements, step, isDebit, isCredit]
  by_cases hneg : a.amount < 0
  · cases a.isApproval <;> simp [hneg, TransferStep.requirements]
  · by_cases hpos : 0 < a.amount <;> simp [hneg, hpos, TransferStep.requirements]

theorem NftTransfer.requirements_eq_steps (t : NftTransfer) :
    t.requirements = t.steps.flatMap TransferStep.requirements := by
  rw [requirements, steps]
  cases t.isApproval <;> rfl

theorem TokenTransfers.requirements_eq_steps (t : TokenTransfers) :
    t.requirements = t.steps.flatMap TransferStep.requirements := by
  rw [requirements, steps, List.flatMap_cons, List.flatMap_append, List.flatMap_map,
    List.flatMap_assoc]
  simp only [← AccountAmount.requirements_eq_step, ← NftTransfer.requirements_eq_steps]
  rfl

/-- **The requirements of a transfer are those of its steps.** -/
theorem Operation.requirements_of_transfer (hbar : List AccountAmount)
    (tokens : List TokenTransfers) :
    (cryptoTransfer hbar tokens).requirements =
      (transferSteps hbar tokens).flatMap TransferStep.requirements := by
  have hamount := funext AccountAmount.requirements_eq_step
  have htoken := funext TokenTransfers.requirements_eq_steps
  rw [requirements, transferSteps, List.flatMap_append, List.flatMap_map, List.flatMap_assoc,
    hamount, htoken]

theorem Body.requirements_of_transfer {b : Body} {hbar : List AccountAmount}
    {tokens : List TokenTransfers} (hop : b.operation = .cryptoTransfer hbar tokens) :
    b.requirements =
      (Operation.transferSteps hbar tokens).flatMap (TransferStep.asked b.payer) := by
  rw [requirements, hop, Operation.requirements_of_transfer, List.filter_flatMap]
  rfl

/-! ## One list of requirements after another -/

namespace View

variable {v : View} {rs : List Requirement}

theorem keysOf_append_of_ok {ks : List Key} (h : v.keysOf rs = .ok ks) (rs' : List Requirement) :
    v.keysOf (rs ++ rs') = (v.keysOf rs').map (ks ++ ·) ∧
      v.itinerary (rs ++ rs') = v.itinerary rs ++ v.itinerary rs' := by
  induction rs generalizing ks with
  | nil =>
    obtain rfl := Except.ok.inj h
    rw [List.nil_append]
    refine ⟨?_, rfl⟩
    cases v.keysOf rs' <;> rfl
  | cons r rs ih =>
    rw [keysOf] at h
    rcases hj : r.judge v with e | key? <;> rw [hj] at h
    · cases h
    rcases hks : v.keysOf rs with e | more <;> rw [hks] at h
    · cases h
    obtain rfl := Except.ok.inj h
    obtain ⟨hkeys, hway⟩ := ih hks
    rw [List.cons_append, keysOf, itinerary, itinerary, hj, hkeys, hway]
    refine ⟨?_, by simp⟩
    rcases v.keysOf rs' with e | rest <;> simp [Except.map]

theorem keysOf_append_of_error {e : OrderingFailure} (h : v.keysOf rs = .error e)
    (rs' : List Requirement) :
    v.keysOf (rs ++ rs') = .error e ∧ v.itinerary (rs ++ rs') = v.itinerary rs := by
  induction rs with
  | nil => cases h
  | cons r rs ih =>
    rw [keysOf] at h
    rw [List.cons_append, keysOf, itinerary, itinerary]
    rcases hj : r.judge v with e' | key? <;> rw [hj] at h
    · obtain rfl := Except.error.inj h
      exact ⟨rfl, rfl⟩
    · rcases hks : v.keysOf rs with e' | more <;> rw [hks] at h
      · obtain rfl := Except.error.inj h
        obtain ⟨hkeys, hway⟩ := ih hks
        rw [hkeys, hway]
        exact ⟨rfl, rfl⟩
      · cases h

end View

/-! ## The requirements of a step -/

namespace TransferStep

variable {v : View} {payer : EntityId} {x : TransferStep} {steps : List TransferStep}

theorem asked_account_of_ne {role : AccountRole} {a : Address} (h : a ≠ .byId payer) :
    [Requirement.account role a].filter (fun r => !r.isCoveredBy payer) = [.account role a] := by
  refine List.filter_cons_of_pos ?_
  rwa [Bool.not_eq_true', Bool.eq_false_iff, ne_eq, Requirement.isCoveredBy_account_iff]

theorem asked_payer (role : AccountRole) :
    [Requirement.account role (.byId payer)].filter (fun r => !r.isCoveredBy payer) = [] :=
  List.filter_cons_of_neg (by simp [Requirement.isCoveredBy_account_iff])

/-- **What the requirements of a step ask for** can be read off the records. -/
theorem keysOf_asked (v : View) (payer : EntityId) (x : TransferStep) :
    v.keysOf (x.asked payer) =
      match x.failure? v payer with
      | some e => .error e
      | none => .ok (x.keys v payer) := by
  cases x with
  | debit a =>
    by_cases ha : a = .byId payer
    · subst ha
      simp [asked, requirements, asked_payer, failure?, keys, View.keysOf]
    · rw [asked, requirements, asked_account_of_ne ha]
      rcases hr : v.accountAt a with - | r
      · simp [View.keysOf, Requirement.judge, Requirement.ask, AccountRole.judge,
          View.accountMetadata, failure?, ha, hr, Except.map]
      · cases hdel : r.deleted <;> cases hkey : r.key.isEmpty <;>
          simp [View.keysOf, Requirement.judge, Requirement.ask, AccountRole.judge,
            View.accountMetadata, failure?, keys, ha, hr, hdel, hkey, Except.map]
  | credit a =>
    by_cases ha : a = .byId payer
    · subst ha
      simp [asked, requirements, asked_payer, failure?, keys, View.keysOf]
    · rw [asked, requirements, asked_account_of_ne ha]
      rcases hr : v.accountAt a with - | r
      · cases hal : a.isAlias <;>
          simp [View.keysOf, Requirement.judge, Requirement.ask, AccountRole.judge,
            View.accountMetadata, failure?, keys, ha, hr, hal, Except.map]
      · cases hdel : r.deleted with
        | true =>
          simp [View.keysOf, Requirement.judge, Requirement.ask, AccountRole.judge,
            View.accountMetadata, failure?, ha, hr, hdel, Except.map]
        | false =>
          cases hreq : r.receiverSigRequired <;> cases hkey : r.key.isEmpty <;>
            simp [View.keysOf, Requirement.judge, Requirement.ask, AccountRole.judge,
              View.accountMetadata, failure?, keys, ha, hr, hdel, hreq, hkey, Except.map,
              Option.filter]
  | token id =>
    rcases hr : v.token id with - | r <;>
      simp [asked, requirements, Requirement.isCoveredBy, View.keysOf, Requirement.judge,
        Requirement.ask, View.tokenMetadata, failure?, keys, hr, Except.map]
  | idle => rfl

/-- A step looks up its subject, whether or not it fails. -/
theorem itinerary_asked (v : View) (payer : EntityId) (x : TransferStep) :
    v.itinerary (x.asked payer) = (x.subject? payer).toList := by
  have single (r : Requirement) : v.itinerary [r] = r.subject?.toList := by
    rw [View.itinerary]
    rcases r.judge v with e | key? <;> simp [View.itinerary]
  cases x with
  | debit a | credit a =>
    by_cases ha : a = .byId payer
    · subst ha
      rw [asked, requirements, asked_payer, subject?, if_pos rfl]
      rfl
    · rw [asked, requirements, asked_account_of_ne ha, single, subject?, if_neg ha]
      rfl
  | token id => exact single _
  | idle => rfl

/-! ## The walk -/

/-- The walk over the steps has a result, and ends with the last of the steps that it has taken: at
the first step that fails, or with all of them. -/
inductive Walks (v : View) (payer : EntityId) (steps : List TransferStep) :
    Except OrderingFailure (List Key) → List TransferStep → Prop
  | failed {before after : List TransferStep} {x : TransferStep} {e : OrderingFailure}
      (hsteps : steps = before ++ x :: after) (hbefore : ∀ y ∈ before, y.failure? v payer = none)
      (hx : x.failure? v payer = some e) : Walks v payer steps (.error e) (before ++ [x])
  | done (h : ∀ x ∈ steps, x.failure? v payer = none) :
      Walks v payer steps (.ok (steps.flatMap (keys v payer))) steps

theorem exists_walks (v : View) (payer : EntityId) (steps : List TransferStep) :
    ∃ result taken, Walks v payer steps result taken := by
  cases hfind : steps.find? fun x => (x.failure? v payer).isSome with
  | none =>
    exact ⟨_, _, .done fun x hx => by simpa using List.find?_eq_none.1 hfind x hx⟩
  | some x =>
    obtain ⟨hx, before, after, hsteps, hbefore⟩ := List.find?_eq_some_iff_append.1 hfind
    obtain ⟨e, he⟩ := Option.isSome_iff_exists.1 hx
    exact ⟨_, _, .failed hsteps (fun y hy => by simpa using hbefore y hy) he⟩

/-- A walk fails exactly if one of its steps does. -/
theorem Walks.exists_error_iff {result : Except OrderingFailure (List Key)}
    {taken : List TransferStep} (h : Walks v payer steps result taken) :
    (∃ e, result = .error e) ↔ ∃ x ∈ steps, x.failure? v payer ≠ none := by
  cases h with
  | @failed before after x e hsteps hbefore hx =>
    exact iff_of_true ⟨e, rfl⟩ ⟨x, by simp [hsteps], by simp [hx]⟩
  | done h =>
    refine iff_of_false ?_ ?_
    · rintro ⟨e, he⟩
      cases he
    · rintro ⟨x, hx, hne⟩
      exact hne (h x hx)

/-- Steps that do not fail ask for their keys, one after the other, and look up their subjects. -/
theorem keysOf_of_passing (h : ∀ x ∈ steps, x.failure? v payer = none) :
    v.keysOf (steps.flatMap (asked payer)) = .ok (steps.flatMap (keys v payer)) ∧
      v.itinerary (steps.flatMap (asked payer)) = steps.filterMap (subject? payer) := by
  induction steps with
  | nil => exact ⟨rfl, rfl⟩
  | cons x steps ih =>
    obtain ⟨hx, hsteps⟩ := List.forall_mem_cons.1 h
    obtain ⟨hkeys, hway⟩ := ih hsteps
    have hhere : v.keysOf (x.asked payer) = .ok (x.keys v payer) := by rw [keysOf_asked, hx]
    obtain ⟨hboth, hways⟩ := View.keysOf_append_of_ok hhere (steps.flatMap (asked payer))
    rw [List.flatMap_cons, List.flatMap_cons, hboth, hways, hkeys, hway, itinerary_asked]
    refine ⟨rfl, ?_⟩
    rcases hs : x.subject? payer with - | ref <;> simp [hs]

/-- **What the requirements of a transfer ask for** is the result of the walk over its steps, and
what they look up is what the steps taken look up. -/
theorem keysOf_of_walks {result : Except OrderingFailure (List Key)} {taken : List TransferStep}
    (h : Walks v payer steps result taken) :
    v.keysOf (steps.flatMap (asked payer)) = result ∧
      v.itinerary (steps.flatMap (asked payer)) = taken.filterMap (subject? payer) := by
  cases h with
  | done h => exact keysOf_of_passing h
  | @failed before after x e hsteps hbefore hx =>
    obtain ⟨hkeys, hway⟩ := keysOf_of_passing hbefore
    have hhere : v.keysOf (x.asked payer) = .error e := by rw [keysOf_asked, hx]
    obtain ⟨hrest, hways⟩ := View.keysOf_append_of_error hhere (after.flatMap (asked payer))
    obtain ⟨hall, hallways⟩ :=
      View.keysOf_append_of_ok hkeys ((x :: after).flatMap (asked payer))
    rw [hsteps, List.flatMap_append, hall, hallways, List.flatMap_cons, hrest, hways, hway,
      itinerary_asked, List.filterMap_append]
    refine ⟨rfl, ?_⟩
    rcases hs : x.subject? payer with - | ref <;> simp [hs]

/-! ## Whose keys are required -/

/-- An account that something is taken from has a key, unless the step fails. -/
theorem keys_debit {a : Address} (h : (debit a).failure? v payer = none) (ha : a ≠ .byId payer) :
    ∃ r, v.accountAt a = some r ∧ r.key.isEmpty = false ∧ (debit a).keys v payer = [r.key] := by
  rw [failure?, if_neg ha] at h
  rcases hr : v.accountAt a with - | r
  · simp [hr] at h
  · refine ⟨r, rfl, ?_, by rw [keys, if_neg ha, hr]; rfl⟩
    cases hempty : r.key.isEmpty with
    | false => rfl
    | true => cases hdel : r.deleted <;> simp [hr, hdel, hempty] at h

/-- A key is asked for since something is taken from its account, or since the account insists on
signing for what it is given. -/
theorem of_mem_keys {k : Key} (hk : k ∈ x.keys v payer) (h : x.failure? v payer = none) :
    k.isEmpty = false ∧ ∃ a r, a ≠ .byId payer ∧ v.accountAt a = some r ∧ r.key = k ∧
      (x = .debit a ∨ x = .credit a ∧ r.receiverSigRequired = true) := by
  cases x with
  | debit a =>
    have ha : a ≠ .byId payer := by
      rintro rfl
      simp [keys] at hk
    obtain ⟨r, hr, hne, hkeys⟩ := keys_debit h ha
    rw [hkeys, List.mem_singleton] at hk
    subst hk
    exact ⟨hne, a, r, ha, hr, rfl, .inl rfl⟩
  | credit a =>
    have ha : a ≠ .byId payer := by
      rintro rfl
      simp [keys] at hk
    rw [keys, if_neg ha, List.mem_filter] at hk
    obtain ⟨hmem, hne⟩ := hk
    obtain ⟨r, hr, rfl⟩ := Option.map_eq_some_iff.1 (Option.mem_toList.1 hmem)
    obtain ⟨hr, hreq⟩ := Option.filter_eq_some_iff.1 hr
    exact ⟨by simpa using hne, a, r, ha, hr, rfl, .inr ⟨rfl, hreq⟩⟩
  | token id | idle => cases hk

end TransferStep

/-! ## What is taken and given -/

namespace Operation

/-- What a transfer moves of the native currency and of fungible tokens. -/
def amounts (hbar : List AccountAmount) (tokens : List TokenTransfers) : List AccountAmount :=
  hbar ++ tokens.flatMap (·.transfers)

variable {hbar : List AccountAmount} {tokens : List TokenTransfers} {a : Address}

/-- Something is taken from the account, and not on an allowance. -/
inductive Debited (hbar : List AccountAmount) (tokens : List TokenTransfers) : Address → Prop
  | amount {x : AccountAmount} (h : x ∈ amounts hbar tokens) (hneg : x.amount < 0)
      (hown : x.isApproval = false) : Debited hbar tokens x.account
  | nft {x : NftTransfer} (h : x ∈ tokens.flatMap (·.nftTransfers)) (hown : x.isApproval = false) :
      Debited hbar tokens x.sender

/-- Something is given to the account. -/
inductive Credited (hbar : List AccountAmount) (tokens : List TokenTransfers) : Address → Prop
  | amount {x : AccountAmount} (h : x ∈ amounts hbar tokens) (hpos : 0 < x.amount) :
      Credited hbar tokens x.account
  | nft {x : NftTransfer} (h : x ∈ tokens.flatMap (·.nftTransfers)) :
      Credited hbar tokens x.receiver

theorem mem_transferSteps_iff {x : TransferStep} :
    x ∈ transferSteps hbar tokens ↔
      (∃ y ∈ amounts hbar tokens, y.step = x) ∨
        (∃ y ∈ tokens.flatMap (·.nftTransfers), x ∈ y.steps) ∨
          ∃ l ∈ tokens, x = .token l.token := by
  simp only [transferSteps, TokenTransfers.steps, amounts, List.mem_append, List.mem_map,
    List.mem_flatMap, List.mem_cons]
  constructor
  · rintro (⟨y, hy, hx⟩ | ⟨l, hl, hx | ⟨y, hy, hx⟩ | ⟨y, hy, hx⟩⟩)
    · exact .inl ⟨y, .inl hy, hx⟩
    · exact .inr (.inr ⟨l, hl, hx⟩)
    · exact .inl ⟨y, .inr ⟨l, hl, hy⟩, hx⟩
    · exact .inr (.inl ⟨y, ⟨l, hl, hy⟩, hx⟩)
  · rintro (⟨y, hy | ⟨l, hl, hy⟩, hx⟩ | ⟨y, ⟨l, hl, hy⟩, hx⟩ | ⟨l, hl, hx⟩)
    · exact .inl ⟨y, hy, hx⟩
    · exact .inr ⟨l, hl, .inr (.inl ⟨y, hy, hx⟩)⟩
    · exact .inr ⟨l, hl, .inr (.inr ⟨y, hy, hx⟩)⟩
    · exact .inr ⟨l, hl, .inl hx⟩

theorem debit_mem_transferSteps_iff :
    .debit a ∈ transferSteps hbar tokens ↔ Debited hbar tokens a := by
  rw [mem_transferSteps_iff]
  constructor
  · rintro (⟨x, hx, hstep⟩ | ⟨x, hx, hstep⟩ | ⟨l, -, htoken⟩)
    · obtain ⟨hneg, hown, rfl⟩ := AccountAmount.step_eq_debit_iff.1 hstep
      exact .amount hx hneg hown
    · obtain ⟨hown, rfl⟩ := NftTransfer.debit_mem_steps_iff.1 hstep
      exact .nft hx hown
    · cases htoken
  · intro h
    cases h with
    | amount hx hneg hown =>
      exact .inl ⟨_, hx, AccountAmount.step_eq_debit_iff.2 ⟨hneg, hown, rfl⟩⟩
    | nft hx hown => exact .inr (.inl ⟨_, hx, NftTransfer.debit_mem_steps_iff.2 ⟨hown, rfl⟩⟩)

theorem credit_mem_transferSteps_iff :
    .credit a ∈ transferSteps hbar tokens ↔ Credited hbar tokens a := by
  rw [mem_transferSteps_iff]
  constructor
  · rintro (⟨x, hx, hstep⟩ | ⟨x, hx, hstep⟩ | ⟨l, -, htoken⟩)
    · obtain ⟨hpos, rfl⟩ := AccountAmount.step_eq_credit_iff.1 hstep
      exact .amount hx hpos
    · obtain rfl := NftTransfer.credit_mem_steps_iff.1 hstep
      exact .nft hx
    · cases htoken
  · intro h
    cases h with
    | amount hx hpos => exact .inl ⟨_, hx, AccountAmount.step_eq_credit_iff.2 ⟨hpos, rfl⟩⟩
    | nft hx => exact .inr (.inl ⟨_, hx, NftTransfer.credit_mem_steps_iff.2 rfl⟩)

end Operation

/-! ## The pass over a transfer -/

section othersPass

variable {hbar : List AccountAmount} {tokens : List TokenTransfers}

/-- Who is debited has a key, and it is among those that are found. -/
theorem TransferStep.Walks.debtor_signs {v : View} {payer : EntityId} {keys : List Key}
    {taken : List TransferStep}
    (h : Walks v payer (Operation.transferSteps hbar tokens) (.ok keys) taken) {a : Address}
    (ha : Operation.Debited hbar tokens a) (hne : a ≠ .byId payer) :
    ∃ r, v.accountAt a = some r ∧ r.key ∈ keys ∧ r.key.isEmpty = false := by
  have hmem := Operation.debit_mem_transferSteps_iff.2 ha
  cases h with
  | done hpassing =>
    obtain ⟨r, hr, hkey, hkeys⟩ := keys_debit (hpassing _ hmem) hne
    have hhere : r.key ∈ (debit a).keys v payer := by rw [hkeys]; exact List.mem_singleton_self _
    exact ⟨r, hr, List.mem_flatMap.2 ⟨_, hmem, hhere⟩, hkey⟩

/-- A key that is found is that of an account that is debited, or of one that insists on signing for
what it is given. -/
theorem TransferStep.Walks.signer_concerned {v : View} {payer : EntityId} {keys : List Key}
    {taken : List TransferStep}
    (h : Walks v payer (Operation.transferSteps hbar tokens) (.ok keys) taken) {k : Key}
    (hk : k ∈ keys) :
    k.isEmpty = false ∧ ∃ a r, a ≠ .byId payer ∧ v.accountAt a = some r ∧ r.key = k ∧
      (Operation.Debited hbar tokens a ∨
        Operation.Credited hbar tokens a ∧ r.receiverSigRequired = true) := by
  cases h with
  | done hpassing =>
    obtain ⟨x, hx, hk⟩ := List.mem_flatMap.1 hk
    obtain ⟨hne, a, r, ha, hr, hkey, hwhy⟩ := of_mem_keys hk (hpassing x hx)
    refine ⟨hne, a, r, ha, hr, hkey, ?_⟩
    rcases hwhy with rfl | ⟨rfl, hreq⟩
    · exact .inl (Operation.debit_mem_transferSteps_iff.1 hx)
    · exact .inr ⟨Operation.credit_mem_transferSteps_iff.1 hx, hreq⟩

/-- The pass that finds the other parties' keys is the walk over the transfer's steps. -/
theorem othersPass_eq_finished_iff_walks {src : Source} {b : Body}
    (hop : b.operation = .cryptoTransfer hbar tokens) {result : Except OrderingFailure (List Key)}
    {t t' : Trail} :
    othersPass src b t = (.finished result, t') ↔
      ∃ taken,
        TransferStep.Walks src.view b.payer (Operation.transferSteps hbar tokens) result taken ∧
          src.visitAll (taken.filterMap (TransferStep.subject? b.payer)) t = (true, t') := by
  rw [othersPass_eq_finished_iff, otherKeys, Body.requirements_of_transfer hop]
  constructor
  · rintro ⟨hvisit, hkeys⟩
    obtain ⟨_, taken, hw⟩ :=
      TransferStep.exists_walks src.view b.payer (Operation.transferSteps hbar tokens)
    obtain ⟨hresult, hway⟩ := TransferStep.keysOf_of_walks hw
    obtain rfl := hresult.symm.trans hkeys
    exact ⟨taken, hw, hway ▸ hvisit⟩
  · rintro ⟨taken, hw, hvisit⟩
    obtain ⟨hresult, hway⟩ := TransferStep.keysOf_of_walks hw
    exact ⟨hway ▸ hvisit, hresult⟩

/-- **Who signs for a transfer.**  The pass that finds the other parties' keys is the walk over the
transfer's steps.  It fails exactly if a step does, and then the first such step says why, and what
comes after it is not looked up.  Otherwise the keys are those of the steps, in order: each account
other than the payer that something is taken from has a key, which is among them, and all of them
belong to such accounts, or to accounts that insist on signing for what they are given. -/
theorem othersPass_transfer (src : Source) {b : Body}
    (hop : b.operation = .cryptoTransfer hbar tokens) (t : Trail) :
    let v := src.view
    let steps := Operation.transferSteps hbar tokens
    (∀ result t', othersPass src b t = (.finished result, t') ↔
      ∃ taken, TransferStep.Walks v b.payer steps result taken ∧
        src.visitAll (taken.filterMap (TransferStep.subject? b.payer)) t = (true, t')) ∧
    (src.Undisturbed → ∃ result taken, TransferStep.Walks v b.payer steps result taken ∧
      othersPass src b t = (.finished result, TransferStep.trailOf v b.payer taken t)) ∧
    (∀ result t', othersPass src b t = (.finished result, t') →
      ((∃ e, result = .error e) ↔ ∃ x ∈ steps, x.failure? v b.payer ≠ none)) ∧
    ∀ keys t', othersPass src b t = (.finished (.ok keys), t') →
      (∀ a, Operation.Debited hbar tokens a → a ≠ .byId b.payer →
        ∃ r, v.accountAt a = some r ∧ r.key ∈ keys ∧ r.key.isEmpty = false) ∧
      ∀ k ∈ keys, k.isEmpty = false ∧
        ∃ a r, a ≠ .byId b.payer ∧ v.accountAt a = some r ∧ r.key = k ∧
          (Operation.Debited hbar tokens a ∨
            Operation.Credited hbar tokens a ∧ r.receiverSigRequired = true) := by
  intro v steps
  refine ⟨fun result t' => othersPass_eq_finished_iff_walks hop, fun hsrc => ?_,
    fun result t' h => ?_, fun keys t' h => ?_⟩
  · obtain ⟨result, taken, hw⟩ := TransferStep.exists_walks v b.payer steps
    exact ⟨result, taken, hw,
      (othersPass_eq_finished_iff_walks hop).2 ⟨taken, hw, hsrc.visitAll_eq _ t⟩⟩
  · obtain ⟨taken, hw, -⟩ := (othersPass_eq_finished_iff_walks hop).1 h
    exact hw.exists_error_iff
  · obtain ⟨taken, hw, -⟩ := (othersPass_eq_finished_iff_walks hop).1 h
    exact ⟨fun a ha hne => hw.debtor_signs ha hne, fun k hk => hw.signer_concerned hk⟩

/-- The payer gives; one account gives and another, which insists on signing, is given; an allowance
is drawn on; a token goes to an alias that nobody holds. -/
theorem othersPass_transfer_of_mixed :
    let giver : Key := .ed25519 (.replicate 32 7)
    let taker : Key := .ed25519 (.replicate 32 8)
    let store := Store.fresh.run
      [.putAccount ⟨0, 0, 1002⟩ { key := giver },
        .putAccount ⟨0, 0, 1003⟩ { key := taker, receiverSigRequired := true },
        .putToken ⟨0, 0, 5001⟩ { treasury := ⟨0, 0, 1002⟩ }]
    let src : Source := { view := store.view fun _ => false }
    let hbar : List AccountAmount :=
      [⟨.byId ⟨0, 0, 1001⟩, -5, false⟩, ⟨.byId ⟨0, 0, 1003⟩, 8, false⟩,
        ⟨.byId ⟨0, 0, 1002⟩, -3, false⟩]
    let tokens : List TokenTransfers :=
      [⟨⟨0, 0, 5001⟩, [⟨.byId ⟨0, 0, 1003⟩, -1, true⟩],
        [⟨.byId ⟨0, 0, 1002⟩, .byAlias ⟨[1]⟩, 1, false⟩]⟩]
    let b : Body :=
      { payer := ⟨0, 0, 1001⟩, validStart := 1000, nodeAccount := ⟨0, 0, 3⟩, memo := ""
        operation := .cryptoTransfer hbar tokens }
    b.operation = .cryptoTransfer hbar tokens ∧
      (othersPass src b {}).1 = .finished (.ok [taker, giver, giver]) ∧
      ∀ a, Operation.Debited hbar tokens a → a ≠ .byId b.payer →
        ∃ r, src.view.accountAt a = some r ∧ r.key ∈ [taker, giver, giver] ∧
          r.key.isEmpty = false := by
  intro giver taker store src hbar tokens b
  have hpass : othersPass src b {} =
      (.finished (.ok [taker, giver, giver]), (othersPass src b {}).2) := rfl
  have hop : b.operation = .cryptoTransfer hbar tokens := rfl
  obtain ⟨-, -, -, hkeys⟩ := othersPass_transfer src hop {}
  exact ⟨hop, congrArg Prod.fst hpass, (hkeys _ _ hpass).1⟩

end othersPass

end Countersign
