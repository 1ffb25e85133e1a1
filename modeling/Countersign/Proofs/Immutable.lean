import Countersign.Ledger.Store
import Countersign.Proofs.Deciding
import Countersign.Proofs.Parties

/-!
# Accounts that can never sign

A key none of whose leaves could ever be satisfied signs nothing, so that an account with such a key is
immutable: it can neither pay nor be made to sign.  The leaves that can be satisfied are public keys
with octets, for which there may be a signature, and the numbers of contracts, which are authorised by
the contract's own execution.

## What is here

* `Key.NamesContract` — the number of a contract is among the leaves.
* `Key.Mute`, `Key.isEmpty_iff` — a key is empty exactly if none of its leaves could be satisfied.
* `SignatureMap.exists_finds` — for every public key with octets there may be a signature.
* `Expansion.payerKey_of_stage` — an expansion that gets past its payer has found a key.
* `immutable_of_mute` — what becomes of an account whose key is mute.
* `not_forall_immutable_of_unsigned` — an account that a contract controls can pay, although nobody
  signs for it.
-/

set_option autoImplicit false

namespace Countersign

/-! ## Keys without a voice -/

namespace Key

/-- The number of a contract is among the leaves, at any depth. -/
inductive NamesContract : Key → Prop
  | contractId (id : EntityId) : NamesContract (contractId id)
  | delegatableContractId (id : EntityId) : NamesContract (delegatableContractId id)
  | threshold {required : UInt32} {ks : List Key} {k : Key} (hk : k ∈ ks) (h : NamesContract k) :
      NamesContract (threshold required ks)
  | keyList {ks : List Key} {k : Key} (hk : k ∈ ks) (h : NamesContract k) :
      NamesContract (keyList ks)

/-- None of the leaves could ever be satisfied: the public keys among them have no octets, and the
others are not the numbers of contracts. -/
structure Mute (k : Key) : Prop where
  silent : ∀ p ∈ k.primitives, p.2 = []
  uncontrolled : ¬ k.NamesContract

/-- A key that has no leaves apart from those of its children is mute if all of these are. -/
theorem mute_iff_forall_mute {k : Key} {ks : List Key} (hprim : k.primitives = primitivesOfAll ks)
    (hnames : k.NamesContract ↔ ∃ c ∈ ks, c.NamesContract) : k.Mute ↔ ∀ c ∈ ks, c.Mute := by
  constructor
  · intro h c hc
    refine ⟨fun p hp => h.silent p ?_, fun hn => h.uncontrolled (hnames.2 ⟨c, hc, hn⟩)⟩
    exact hprim ▸ primitives_subset_of_mem hc hp
  · intro h
    refine ⟨fun p hp => ?_, fun hn => ?_⟩
    · obtain ⟨c, hc, hp⟩ := mem_primitivesOfAll_iff.1 (hprim ▸ hp)
      exact (h c hc).silent p hp
    · obtain ⟨c, hc, hn⟩ := hnames.1 hn
      exact (h c hc).uncontrolled hn

theorem mute_threshold_iff {required : UInt32} {ks : List Key} :
    (threshold required ks).Mute ↔ ∀ k ∈ ks, k.Mute := by
  refine mute_iff_forall_mute rfl ⟨?_, fun ⟨_, hk, hc⟩ => .threshold hk hc⟩
  rintro (_ | _ | ⟨hk, hc⟩)
  exact ⟨_, hk, hc⟩

theorem mute_keyList_iff {ks : List Key} : (keyList ks).Mute ↔ ∀ k ∈ ks, k.Mute := by
  refine mute_iff_forall_mute rfl ⟨?_, fun ⟨_, hk, hc⟩ => .keyList hk hc⟩
  rintro (_ | _ | _ | ⟨hk, hc⟩)
  exact ⟨_, hk, hc⟩

mutual

/-- **A key is empty exactly if none of its leaves could ever be satisfied.** -/
theorem isEmpty_iff : ∀ {k : Key}, k.isEmpty = true ↔ k.Mute
  | ed25519 pk => by
    rw [isEmpty, List.isEmpty_iff]
    exact ⟨fun h => ⟨by simp [primitives, h], by rintro ⟨⟩⟩,
      fun h => h.silent (.ed25519, pk) List.mem_cons_self⟩
  | ecdsaSecp256k1 pk => by
    rw [isEmpty, List.isEmpty_iff]
    exact ⟨fun h => ⟨by simp [primitives, h], by rintro ⟨⟩⟩,
      fun h => h.silent (.ecdsaSecp256k1, pk) List.mem_cons_self⟩
  | contractId id => by
    rw [isEmpty]
    exact iff_of_false (by simp) fun h => h.uncontrolled (.contractId id)
  | delegatableContractId id => by
    rw [isEmpty]
    exact iff_of_false (by simp) fun h => h.uncontrolled (.delegatableContractId id)
  | threshold _ ks => by rw [isEmpty, mute_threshold_iff, allEmpty_iff]
  | keyList ks => by rw [isEmpty, mute_keyList_iff, allEmpty_iff]

theorem allEmpty_iff : ∀ {ks : List Key}, allEmpty ks = true ↔ ∀ k ∈ ks, k.Mute
  | [] => by simp [allEmpty]
  | k :: ks => by rw [allEmpty, Bool.and_eq_true, isEmpty_iff, allEmpty_iff, List.forall_mem_cons]

end

/-- A key that is not empty has a public key with octets or the number of a contract. -/
theorem not_isEmpty_iff {k : Key} :
    k.isEmpty = false ↔ (∃ p ∈ k.primitives, p.2 ≠ []) ∨ k.NamesContract := by
  rw [Bool.eq_false_iff, ne_eq, isEmpty_iff]
  constructor
  · intro h
    by_cases hc : k.NamesContract
    · exact .inr hc
    · have hnot : ¬ ∀ p ∈ k.primitives, p.2 = [] := fun hsilent => h ⟨hsilent, hc⟩
      exact .inl (by simpa using hnot)
  · rintro (⟨p, hp, hne⟩ | hc) h
    · exact hne (h.silent p hp)
    · exact h.uncontrolled hc

end Key

/-- For every public key with octets there may be a signature. -/
theorem SignatureMap.exists_finds (scheme : Scheme) {pk : Bytes} (h : pk ≠ []) :
    ∃ m : SignatureMap, m.Finds scheme pk := by
  cases pk with
  | nil => exact absurd rfl h
  | cons x pk =>
    -- its first octet is enough
    refine ⟨[⟨[x], scheme, []⟩], ⟨0, []⟩, ?_⟩
    cases scheme <;>
      simp [find, longest?, SignaturePair.names, SignaturePair.hints, SignaturePair.hasFullPrefix,
        Scheme.publicKeyLength]

/-! ## The payer -/

/-- An expansion that gets past its payer has found the payer's key. -/
theorem Expansion.payerKey_of_stage {x : Expansion} {s : Supply}
    (h : (x.executeGuarded s).stage ≠ .failedAtPayer) :
    ∃ key, payerKey x.source.view x.body.payer = .ok key := by
  have hr := x.runs_run s
  rw [executeGuarded] at h
  generalize x.run s = r at h hr
  cases hr with
  | payerInterrupted | payerUnordered | payerUnmatched => exact absurd rfl h
  | othersInterrupted hp | othersUnordered hp | othersUnmatched hp | finalized hp =>
    exact ⟨_, (payerPass_eq_finished_iff.1 hp).2⟩

/-! ## Immutable accounts -/

/-- A signer whose key is mute fails its step. -/
theorem Requirement.judge_signer_of_mute {v : View} {a : Address} {r : AccountRecord}
    (hr : v.accountAt a = some r) (hdel : r.deleted = false) (hmute : r.key.Mute) :
    (account .signer a).judge v = .error .immutableAccount := by
  have hempty : r.key.isEmpty = true := Key.isEmpty_iff.2 hmute
  rw [judge, ask, View.accountMetadata_of_some hr hdel, AccountRole.judge, if_pos hempty]
  rfl

theorem payerKey_of_mute {v : View} {payer : EntityId} {r : AccountRecord}
    (hr : v.account payer = some r) (hdel : r.deleted = false) (hmute : r.key.Mute) :
    payerKey v payer = .error .immutableAccount := by
  have hm := View.accountMetadata_of_some (a := .byId payer) hr hdel
  simp [payerKey, hm, Key.isEmpty_iff.2 hmute]

/-- **An account whose key is mute is immutable.**  If it is the payer then the payer's pass fails for
this reason.  If it is another account that has to sign then the pass over the other parties fails for
this reason, unless one of the steps before it fails first.  So an expansion gets past its payer only
if the payer's key has a leaf that could be satisfied: a public key for which there may be a signature,
or the number of a contract. -/
theorem immutable_of_mute {src : Source} (hsrc : src.Undisturbed) (b : Body) (t : Trail)
    {a : Address} {r : AccountRecord} (hr : src.view.accountAt a = some r)
    (hdel : r.deleted = false) (hmute : r.key.Mute) :
    (a = .byId b.payer → (payerPass src b t).1 = .finished (.error .immutableAccount)) ∧
    (b.operation.Obliges a → a ≠ .byId b.payer →
      .account .signer a ∈ b.requirements ∧
      ∀ before after, b.requirements = before ++ .account .signer a :: after →
        (othersPass src b t).1 = .finished (.error .immutableAccount) ∨
          ∃ e, FailsFirst (Requirement.judge src.view) before e ∧
            (othersPass src b t).1 = .finished (.error e)) ∧
    ∀ (x : Expansion) (s : Supply), (x.executeGuarded s).stage ≠ .failedAtPayer →
      ∃ key, payerKey x.source.view x.body.payer = .ok key ∧
        ((∃ p ∈ key.primitives, p.2 ≠ [] ∧ ∃ m : SignatureMap, m.Finds p.1 p.2) ∨
          key.NamesContract) := by
  refine ⟨fun ha => ?_, fun hsigns ha => ⟨?_, fun before after hsplit => ?_⟩, fun x s hstage => ?_⟩
  · subst ha
    rw [hsrc.payerPass_fst, payerKey_of_mute hr hdel hmute]
  · exact Body.account_mem_requirements_iff.2 ⟨Operation.signer_mem_requirements_iff.2 hsigns, ha⟩
  · rcases View.passes_or_failsFirst src.view before with hpassed | ⟨e, he⟩
    · have hreach : b.Reaches src.view before (.account .signer a) after := ⟨hsplit, hpassed⟩
      have hjudge := Requirement.judge_signer_of_mute hr hdel hmute
      exact .inl (hreach.othersPass_of_error hsrc hjudge t)
    · refine .inr ⟨e, he, ?_⟩
      rw [hsrc.othersPass_fst, otherKeys, hsplit, View.keysOf_of_not_reached he]
  · obtain ⟨key, hkey⟩ := Expansion.payerKey_of_stage hstage
    obtain ⟨-, -, -, hne⟩ := accountMetadata_of_payerKey hkey
    refine ⟨key, hkey, (Key.not_isEmpty_iff.1 hne).imp_left ?_⟩
    rintro ⟨p, hp, hoctets⟩
    exact ⟨p, hp, hoctets, SignatureMap.exists_finds p.1 hoctets⟩

/-- An account with a threshold over public keys without octets is to be dissociated from a token. -/
theorem immutable_of_mute_of_hollow_threshold :
    let hollow : Key := .threshold 0 [.ed25519 [], .keyList []]
    let store := Store.fresh.run
      [.putAccount ⟨0, 0, 1001⟩ { key := .ed25519 (.replicate 32 7) },
        .putAccount ⟨0, 0, 2002⟩ { key := hollow }]
    let src : Source := { view := store.view fun _ => false }
    let b : Body :=
      { payer := ⟨0, 0, 1001⟩, validStart := 1000, nodeAccount := ⟨0, 0, 3⟩, memo := ""
        operation := .tokenDissociate (.byId ⟨0, 0, 2002⟩) [⟨0, 0, 70⟩] }
    src.Undisturbed ∧ src.view.accountAt (.byId ⟨0, 0, 2002⟩) = some { key := hollow, version := ⟨2⟩ } ∧
      hollow.Mute ∧ b.operation.Obliges (.byId ⟨0, 0, 2002⟩) ∧
      .account .signer (.byId ⟨0, 0, 2002⟩) ∈ b.requirements ∧
      (othersPass src b {}).1 = .finished (.error .immutableAccount) := by
  intro hollow store src b
  have hsrc : src.Undisturbed := ⟨fun _ => rfl, fun _ _ => rfl⟩
  have hr : src.view.accountAt (.byId ⟨0, 0, 2002⟩) = some { key := hollow, version := ⟨2⟩ } := rfl
  have hmute : hollow.Mute := Key.isEmpty_iff.1 rfl
  obtain ⟨-, hothers, -⟩ := immutable_of_mute hsrc b {} hr rfl hmute
  obtain ⟨hmem, hfails⟩ := hothers .dissociate (by decide)
  refine ⟨hsrc, hr, hmute, .dissociate, hmem, ?_⟩
  rcases hfails [] [] rfl with h | ⟨e, he, -⟩
  · exact h
  · exact absurd he not_failsFirst_nil

/-- It is not so that every account without a public key is immutable: one that a contract controls can
pay, since the number of a contract needs no signature. -/
theorem not_forall_immutable_of_unsigned :
    ¬ ∀ (src : Source) (b : Body) (t : Trail) (r : AccountRecord), src.Undisturbed →
      src.view.accountAt (.byId b.payer) = some r → r.deleted = false →
      (∀ p ∈ r.key.primitives, p.2 = []) →
      (payerPass src b t).1 = .finished (.error .immutableAccount) := by
  intro hall
  let store := Store.fresh.run [.putAccount ⟨0, 0, 1001⟩ { key := .contractId ⟨0, 0, 500⟩ }]
  let b : Body :=
    { payer := ⟨0, 0, 1001⟩, validStart := 1000, nodeAccount := ⟨0, 0, 3⟩, memo := ""
      operation := .tokenAssociate (.byId ⟨0, 0, 1001⟩) [⟨0, 0, 70⟩] }
  have hpass := hall { view := store.view fun _ => false } b {}
    { key := .contractId ⟨0, 0, 500⟩, version := ⟨1⟩ } ⟨fun _ => rfl, fun _ _ => rfl⟩ rfl rfl
    (by simp [Key.primitives])
  cases hpass

end Countersign
