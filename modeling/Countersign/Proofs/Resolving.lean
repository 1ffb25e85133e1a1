import Countersign.Ledger.Store
import Countersign.Proofs.Addresses
import Countersign.Proofs.Guarding
import Countersign.Proofs.Repeats

/-!
# Aliases and numbers

It makes no difference whether a transaction names an account by a number or by an alias that is bound
to it.  Only the number of the payer is recognised as such, so an alias of the payer lets the payer's
key be required once more; but by then the signatures found for that key have been used.

## What is here

* `View.resolve` — an address with the alias replaced by the number, if there is a record under it.
  `View.replaces` tells which references this does away with.
* `Requirement.judge_resolve`, `View.sightings_resolve` — a resolved requirement asks for the same key,
  and its subject is looked up along the same way without the alias.
* `View.keysOf_resolveAll`, `View.itinerary_resolveAll` — the keys that a list of requirements asks
  for, and what is looked up for them.
* `Expansion.resolved` — the expansion with every address of its body resolved.
* `Expansion.executeGuarded_resolved` — what it has in common with the expansion it comes from.
-/

set_option autoImplicit false

namespace Countersign

/-! ## Resolving an address -/

namespace View

/-- The number that an alias is bound to, if there is a record under it. -/
def target? (v : View) (a : Alias) : Option EntityId :=
  ((v.binding a).map (·.id)).filter fun id => (v.account id).isSome

/-- The address with an alias replaced by the number that it is bound to, if there is a record under
it. -/
def resolve (v : View) : Address → Address
  | .byId id => .byId id
  | .byAlias a => (v.target? a).elim (.byAlias a) .byId

/-- Whether the reference is by an alias that is replaced. -/
def replaces (v : View) : EntityRef → Bool
  | .account (.byAlias a) => (v.target? a).isSome
  | .contract (.byAlias a) => (v.target? a).isSome
  | _ => false

variable {v : View}

theorem target?_eq_some_iff {a : Alias} {id : EntityId} :
    v.target? a = some id ↔ ∃ b r, v.binding a = some b ∧ b.id = id ∧ v.account id = some r := by
  rw [target?, Option.filter_eq_some_iff, Option.map_eq_some_iff, Option.isSome_iff_exists]
  constructor
  · rintro ⟨⟨b, hb, hid⟩, r, hr⟩
    exact ⟨b, r, hb, hid, hr⟩
  · rintro ⟨b, r, hb, hid, hr⟩
    exact ⟨⟨b, hb, hid⟩, r, hr⟩

/-- An address is left as it is, or is an alias of a number with a record. -/
theorem resolve_cases (v : View) (address : Address) :
    v.resolve address = address ∨
      ∃ r id, v.resolve address = .byId id ∧ v.account id = some r ∧ v.accountAt address = some r := by
  cases address with
  | byId id => exact .inl rfl
  | byAlias a =>
    cases ht : v.target? a with
    | none => exact .inl (by rw [resolve, ht]; rfl)
    | some id =>
      obtain ⟨b, r, hb, rfl, hr⟩ := target?_eq_some_iff.1 ht
      exact .inr ⟨r, b.id, by rw [resolve, ht]; rfl, hr, by rw [accountAt, hb]; exact hr⟩

theorem accountAt_resolve (v : View) (address : Address) :
    v.accountAt (v.resolve address) = v.accountAt address := by
  rcases v.resolve_cases address with h | ⟨r, id, h, hr, hat⟩
  · rw [h]
  · rw [h, hat]
    exact hr

theorem accountMetadata_resolve (v : View) (address : Address) :
    v.accountMetadata (v.resolve address) = v.accountMetadata address := by
  rw [accountMetadata, accountMetadata, accountAt_resolve]

theorem contractMetadata_resolve (v : View) (address : Address) :
    v.contractMetadata (v.resolve address) = v.contractMetadata address := by
  rw [contractMetadata, contractMetadata, accountAt_resolve]

/-- **The way of a lookup** is that of the unresolved reference, without the alias that is
replaced. -/
theorem sightings_resolve (v : View) (ref : EntityRef) :
    v.sightings (ref.mapAddress v.resolve) = (v.sightings ref).filter fun s => !v.replaces s := by
  rcases ref with (id | a) | (id | a) | id | id | id | id
  case account.byAlias | contract.byAlias =>
    cases ht : v.target? a with
    | none =>
      cases hb : v.binding a <;>
        simp [EntityRef.mapAddress, sightings, addressPath, resolve, replaces, ht, hb]
    | some id =>
      obtain ⟨b, r, hb, rfl, hr⟩ := target?_eq_some_iff.1 ht
      simp [EntityRef.mapAddress, sightings, addressPath, resolve, replaces, ht, hb]
  all_goals rfl

end View

/-! ## Resolving a requirement -/

/-- The payer's key is that of its account, and is not empty. -/
theorem accountMetadata_of_payerKey {v : View} {payer : EntityId} {key : Key}
    (h : payerKey v payer = .ok key) :
    ∃ m, v.accountMetadata (.byId payer) = .ok m ∧ m.key = key ∧ key.isEmpty = false := by
  rw [payerKey] at h
  split at h
  · cases h
  · next m hm =>
    split at h
    · cases h
    · next hne =>
      obtain rfl := Except.ok.inj h
      exact ⟨m, hm, rfl, by simpa using hne⟩

/-- Only receiving at an alias that leads nowhere is treated by the address, and such an alias is not
resolved. -/
theorem AccountRole.judge_resolve (role : AccountRole) (v : View) (address : Address) :
    role.judge (v.resolve address) (v.accountMetadata address) =
      role.judge address (v.accountMetadata address) := by
  rcases v.resolve_cases address with h | ⟨r, id, -, -, hat⟩
  · rw [h]
  · have hnot : v.accountMetadata address ≠ .error .missingAccount := by
      rw [View.accountMetadata, hat]
      simp only
      split <;> simp
    cases hm : v.accountMetadata address with
    | ok m => cases role <;> rfl
    | error f =>
      have hf : f ≠ .missingAccount := fun heq => hnot (heq ▸ hm)
      cases role with
      | receiver => simp [judge, hf]
      | signer | autoRenew | treasury => rfl

/-- Whether an account has to sign in the role, by whether it signs for what it receives. -/
def AccountRole.asks (role : AccountRole) (receiverSigRequired : Bool) : Bool :=
  role != .receiver || receiverSigRequired

namespace Requirement

/-- **A resolved requirement asks for the same key.** -/
theorem judge_resolve (v : View) (r : Requirement) :
    (r.mapAddress v.resolve).judge v = r.judge v := by
  cases r with
  | account role address =>
    rw [mapAddress, judge, judge, ask, ask, View.accountMetadata_resolve, AccountRole.judge_resolve]
  | contract role address =>
    rw [mapAddress, judge, judge, ask, ask, View.contractMetadata_resolve]
  | _ => rfl

theorem isCoveredBy_iff {payer : EntityId} {r : Requirement} :
    r.isCoveredBy payer = true ↔ ∃ role, r = .account role (.byId payer) := by
  rcases r with - | ⟨role, id | a⟩ | - | - | - | - | - <;> simp [isCoveredBy]

theorem isCoveredBy_account_iff {payer : EntityId} {role : AccountRole} {a : Address} :
    (account role a).isCoveredBy payer = true ↔ a = .byId payer := by
  cases a <;> simp [isCoveredBy]

theorem isCoveredBy_mapAddress_resolve (v : View) {payer : EntityId} {r : Requirement}
    (h : r.isCoveredBy payer = true) : (r.mapAddress v.resolve).isCoveredBy payer = true := by
  obtain ⟨role, rfl⟩ := isCoveredBy_iff.1 h
  exact isCoveredBy_iff.2 ⟨role, rfl⟩

/-- What the payer's account is asked for under its number. -/
theorem judge_of_payer {v : View} {payer : EntityId} {m : AccountMetadata}
    (hm : v.accountMetadata (.byId payer) = .ok m) (hne : m.key.isEmpty = false)
    (role : AccountRole) :
    (account role (.byId payer)).judge v =
      .ok (if role.asks m.receiverSigRequired then some m.key else none) := by
  rw [judge, ask, hm]
  cases role with
  | receiver => cases hreq : m.receiverSigRequired <;>
      simp [AccountRole.judge, AccountRole.asks, hreq, hne, Except.map]
  | signer | autoRenew | treasury => simp [AccountRole.judge, AccountRole.asks, hne, Except.map]

/-- A requirement that turns out to be about the payer asks for the payer's key at most. -/
theorem judge_of_covered {v : View} {payer : EntityId} {key : Key} {r : Requirement}
    (hp : payerKey v payer = .ok key) (h : (r.mapAddress v.resolve).isCoveredBy payer = true) :
    r.judge v = .ok none ∨ r.judge v = .ok (some key) := by
  obtain ⟨role, hr⟩ := isCoveredBy_iff.1 h
  obtain ⟨m, hm, rfl, hempty⟩ := accountMetadata_of_payerKey hp
  rw [← judge_resolve, hr, judge_of_payer hm hempty]
  cases role.asks m.receiverSigRequired with
  | false => exact .inl rfl
  | true => exact .inr rfl

end Requirement

/-! ## Resolving a list of requirements -/

namespace View

/-- A list of requirements with all addresses resolved, apart from those that are then about the
payer. -/
def resolveAll (v : View) (payer : EntityId) (rs : List Requirement) : List Requirement :=
  (rs.map (Requirement.mapAddress v.resolve)).filter fun r => !r.isCoveredBy payer

variable {v : View} {payer : EntityId} {key : Key} {r : Requirement} {rs : List Requirement}

theorem resolveAll_cons_of_covered (h : (r.mapAddress v.resolve).isCoveredBy payer = true) :
    v.resolveAll payer (r :: rs) = v.resolveAll payer rs := by
  simp [resolveAll, h]

theorem resolveAll_cons_of_not_covered (h : (r.mapAddress v.resolve).isCoveredBy payer = false) :
    v.resolveAll payer (r :: rs) = r.mapAddress v.resolve :: v.resolveAll payer rs := by
  simp [resolveAll, h]

/-- Requirements that ask for one key at most can be left out, except that the key is then not asked
for as often. -/
theorem keysOf_filter {p : Requirement → Bool}
    (h : ∀ r ∈ rs, p r = false → r.judge v = .ok none ∨ r.judge v = .ok (some key)) :
    Except.Agree (Drops key) (v.keysOf rs) (v.keysOf (rs.filter p)) := by
  induction rs with
  | nil => exact .ok .nil
  | cons r rs ih =>
    rw [List.forall_mem_cons] at h
    specialize ih h.2
    cases hp : p r with
    | false =>
      rw [List.filter_cons_of_neg (by simp [hp]), keysOf]
      generalize v.keysOf rs = result at ih ⊢
      generalize v.keysOf (rs.filter p) = result' at ih ⊢
      rcases h.1 hp with hj | hj
      · rw [hj]
        cases ih with
        | error f => exact .error f
        | ok h => exact .ok h
      · rw [hj]
        cases ih with
        | error f => exact .error f
        | ok h => exact .ok (.drop h)
    | true =>
      rw [List.filter_cons_of_pos hp, keysOf, keysOf]
      generalize v.keysOf rs = result at ih ⊢
      generalize v.keysOf (rs.filter p) = result' at ih ⊢
      cases r.judge v with
      | error f => exact .error f
      | ok key? =>
        cases ih with
        | error f => exact .error f
        | ok h => exact .ok (h.append_left _)

theorem keysOf_map_resolve (rs : List Requirement) :
    v.keysOf (rs.map (Requirement.mapAddress v.resolve)) = v.keysOf rs := by
  induction rs with
  | nil => rfl
  | cons r rs ih => rw [List.map_cons, keysOf, keysOf, Requirement.judge_resolve, ih]

/-- **The keys that are asked for** are the same, apart from the payer's own. -/
theorem keysOf_resolveAll (hp : payerKey v payer = .ok key) (rs : List Requirement) :
    Except.Agree (Drops key) (v.keysOf rs) (v.keysOf (v.resolveAll payer rs)) := by
  rw [resolveAll, List.filter_map, keysOf_map_resolve]
  exact keysOf_filter fun r _ hcov => Requirement.judge_of_covered hp (by simpa using hcov)

/-- **What is looked up** is the same, apart from the aliases that are replaced and from the payer. -/
theorem itinerary_resolveAll (hp : payerKey v payer = .ok key) (rs : List Requirement) :
    Drops (.account (.byId payer))
      (((v.itinerary rs).flatMap v.sightings).filter fun s => !v.replaces s)
      ((v.itinerary (v.resolveAll payer rs)).flatMap v.sightings) := by
  induction rs with
  | nil => exact .nil
  | cons r rs ih =>
    -- the way to the subject of `r`, before and after
    have hway : (r.subject?.toList.flatMap v.sightings).filter (fun s => !v.replaces s) =
        (r.mapAddress v.resolve).subject?.toList.flatMap v.sightings := by
      rw [Requirement.subject?_mapAddress]
      cases r.subject? with
      | none => rfl
      | some ref => simp [sightings_resolve]
    rw [itinerary, List.flatMap_append, List.filter_append, hway]
    cases hc : (r.mapAddress v.resolve).isCoveredBy payer with
    | true =>
      obtain ⟨role, hr⟩ := Requirement.isCoveredBy_iff.1 hc
      obtain ⟨key?, hj⟩ : ∃ key?, r.judge v = .ok key? := by
        rcases Requirement.judge_of_covered hp hc with hj | hj <;> exact ⟨_, hj⟩
      rw [resolveAll_cons_of_covered hc, hr, hj]
      exact .drop ih
    | false =>
      rw [resolveAll_cons_of_not_covered hc, itinerary, List.flatMap_append,
        Requirement.judge_resolve]
      cases r.judge v with
      | error f => exact .refl _
      | ok key? => exact ih.append_left _

end View

theorem Body.requirements_resolve (b : Body) (v : View) :
    (b.mapAddresses v.resolve).requirements = v.resolveAll b.payer b.requirements := by
  rw [requirements, requirements, View.resolveAll]
  change ((b.operation.mapAddresses v.resolve).requirements.filter _) = _
  rw [Operation.requirements_mapAddresses, List.filter_map, List.filter_map, List.filter_filter]
  refine congrArg _ (List.filter_congr fun r _ => ?_)
  -- a requirement that is about the payer stays so
  cases hc : r.isCoveredBy b.payer with
  | false => simp
  | true => simp [Requirement.isCoveredBy_mapAddress_resolve v hc]

/-! ## An expansion -/

/-- The second metadata is the first with some occurrences of the payer's key dropped from the keys of
the other parties. -/
inductive SigMeta.DropsPayer : SigMeta → SigMeta → Prop
  | refl (m : SigMeta) : DropsPayer m m
  | complete {key : Key} {keys keys' : List Key} (h : Drops key keys keys')
      (sigs : List PlatformSignature) : DropsPayer (.complete key keys sigs) (.complete key keys' sigs)

namespace Expansion

/-- The same expansion with every address of its body resolved. -/
def resolved (x : Expansion) : Expansion :=
  { x with body := x.body.mapAddresses x.source.view.resolve }

variable {x : Expansion}

theorem requirements_resolved (x : Expansion) :
    x.resolved.body.requirements = x.source.view.resolveAll x.body.payer x.body.requirements :=
  x.body.requirements_resolve x.source.view

/-- **What is linked** is the same, apart from the aliases that are replaced. -/
theorem linked_resolved (hx : x.source.Undisturbed) (s : Supply) :
    (x.resolved.run s).trail.linked =
      (x.run s).trail.linked.only fun ref => !x.source.view.replaces ref := by
  rw [(run_of_undisturbed (x := x.resolved) hx s).2, (run_of_undisturbed hx s).2,
    LinkedRefs.only_linkEach]
  by_cases h : ∃ key found, payerKey x.source.view x.body.payer = .ok key ∧
      s.map.satisfy key = .ok found
  · obtain ⟨key, found, hp, hm⟩ := h
    rw [lookups_of_others hp hm, lookups_of_others (x := x.resolved) hp hm, requirements_resolved]
    -- the payer has been linked by then
    exact (LinkedRefs.linkEach_of_drops (View.itinerary_resolveAll hp _)
      (LinkedRefs.mem_entities_link {} _ _)).symm
  · have hpayer : ∀ key, payerKey x.source.view x.body.payer = .ok key →
        ∃ e, s.map.satisfy key = .error e := by
      intro key hp
      rcases hm : s.map.satisfy key with e | found
      · exact ⟨e, rfl⟩
      · exact absurd ⟨key, found, hp, hm⟩ h
    rw [lookups_of_payer hpayer, lookups_of_payer (x := x.resolved) hpayer]
    rfl

/-- The other parties' pass ends in the same way. -/
theorem othersPass_resolved (hx : x.source.Undisturbed) {key : Key}
    (hkey : payerKey x.source.view x.body.payer = .ok key) {t t' : Trail}
    {result : Except OrderingFailure (List Key)}
    (ho : othersPass x.source x.body t = (.finished result, t')) :
    ∃ result' t'', othersPass x.resolved.source x.resolved.body t = (.finished result', t'') ∧
      Except.Agree (Drops key) result result' := by
  obtain ⟨-, rfl⟩ := othersPass_eq_finished_iff.1 ho
  refine ⟨_, _, othersPass_eq_finished_iff.2 ⟨Source.Undisturbed.visitAll_eq hx _ _, rfl⟩, ?_⟩
  rw [otherKeys, otherKeys, requirements_resolved]
  exact View.keysOf_resolveAll hkey _

/-- **Both expansions take the same course**, and hand on the same apart from the payer's key. -/
theorem ending_resolved (hx : x.source.Undisturbed) (s : Supply) :
    ∃ m m' status stage, (x.run s).ending = .finished m status stage ∧
      (x.resolved.run s).ending = .finished m' status stage ∧ m.DropsPayer m' := by
  have hr := x.runs_run s
  have hdone := (run_of_undisturbed hx s).1
  generalize x.run s = r at hr hdone ⊢
  cases hr with
  | payerInterrupted | othersInterrupted => cases hdone
  | payerUnordered hp =>
    have hy : x.resolved.Runs s _ := .payerUnordered hp
    rw [hy.run_eq]
    exact ⟨_, _, _, _, rfl, rfl, .refl _⟩
  | payerUnmatched hp hm =>
    have hy : x.resolved.Runs s _ := .payerUnmatched hp hm
    rw [hy.run_eq]
    exact ⟨_, _, _, _, rfl, rfl, .refl _⟩
  | othersUnordered hp hm ho =>
    obtain ⟨_, _, ho', hagree⟩ := othersPass_resolved hx (payerPass_eq_finished_iff.1 hp).2 ho
    cases hagree
    have hy : x.resolved.Runs s _ := .othersUnordered hp hm ho'
    rw [hy.run_eq]
    exact ⟨_, _, _, _, rfl, rfl, .refl _⟩
  | othersUnmatched hp hm ho hk =>
    obtain ⟨_, _, ho', hagree⟩ := othersPass_resolved hx (payerPass_eq_finished_iff.1 hp).2 ho
    cases hagree with
    | ok h =>
      rw [matchKeys_eq_of_drops h (spent_of_matchKeys hm)] at hk
      have hy : x.resolved.Runs s _ := .othersUnmatched hp hm ho' hk
      rw [hy.run_eq]
      exact ⟨_, _, _, _, rfl, rfl, .refl _⟩
  | finalized hp hm ho hk =>
    obtain ⟨_, _, ho', hagree⟩ := othersPass_resolved hx (payerPass_eq_finished_iff.1 hp).2 ho
    cases hagree with
    | ok h =>
      rw [matchKeys_eq_of_drops h (spent_of_matchKeys hm)] at hk
      have hy : x.resolved.Runs s _ := .finalized hp hm ho' hk
      rw [hy.run_eq]
      exact ⟨_, _, _, _, rfl, rfl, .complete h _⟩

/-- **It makes no difference whether accounts and contracts are addressed by alias or by number.**
With every alias replaced that is bound to a number with a record, an expansion has the same status and
final stage; it has linked the same references apart from the aliases that are replaced; and it hands
on the same, apart from some occurrences of the payer's key among those of the other parties.  It is
only supposed that neither is interrupted, as none is whose source is undisturbed. -/
theorem executeGuarded_resolved {x : Expansion} {s : Supply}
    (hx : (x.executeGuarded s).interrupted = false)
    (hx' : (x.resolved.executeGuarded s).interrupted = false) :
    (x.resolved.executeGuarded s).status = (x.executeGuarded s).status ∧
      (x.resolved.executeGuarded s).stage = (x.executeGuarded s).stage ∧
      (x.resolved.executeGuarded s).linked =
        (x.executeGuarded s).linked.only (fun ref => !x.source.view.replaces ref) ∧
      (x.executeGuarded s).sigMeta.DropsPayer (x.resolved.executeGuarded s).sigMeta := by
  have of_ending {r : Ran} {m : SigMeta} {status : Status} {stage : Stage}
      (h : r.ending = .finished m status stage) :
      r.outcome = { sigMeta := m, status, stage, linked := r.trail.linked } := by
    rw [Ran.outcome, h]
  -- what is not interrupted comes out as if nothing could interrupt it
  have hclear : x.cleared.source.Undisturbed := x.source.undisturbed_cleared
  have hrun : x.cleared.run s = x.run s := run_cleared hx
  have hrun' : x.cleared.resolved.run s = x.resolved.run s := run_cleared (x := x.resolved) hx'
  obtain ⟨m, m', status, stage, hm, hm', hmeta⟩ := ending_resolved hclear s
  have hlinked := linked_resolved hclear s
  rw [hrun] at hm hlinked
  rw [hrun'] at hm' hlinked
  rw [executeGuarded, executeGuarded, of_ending hm, of_ending hm']
  exact ⟨rfl, rfl, hlinked, hmeta⟩

/-- The payer pays under an alias to another account under an alias, and to an alias of a number
without a record. -/
theorem executeGuarded_resolved_of_payer_alias :
    let key : Key := .ed25519 (.replicate 32 7)
    let other : Key := .ed25519 (.replicate 32 8)
    let store := Store.fresh.run
      [.putAccount ⟨0, 0, 1001⟩ { key }, .bindAlias ⟨[1]⟩ ⟨0, 0, 1001⟩,
        .putAccount ⟨0, 0, 1002⟩ { key := other, receiverSigRequired := true },
        .bindAlias ⟨[2]⟩ ⟨0, 0, 1002⟩, .bindAlias ⟨[3]⟩ ⟨0, 0, 1003⟩]
    let x : Expansion :=
      { source := { view := store.view fun _ => false }
        body :=
          { payer := ⟨0, 0, 1001⟩, validStart := 1000, nodeAccount := ⟨0, 0, 3⟩, memo := ""
            operation := .cryptoTransfer
              [⟨.byAlias ⟨[1]⟩, -5, false⟩, ⟨.byAlias ⟨[2]⟩, 3, false⟩, ⟨.byAlias ⟨[3]⟩, 2, false⟩]
              [] }
        make := .over [] }
    let s : Supply := .ofMap [⟨.replicate 32 7, .ed25519, [9]⟩, ⟨.replicate 32 8, .ed25519, [8]⟩]
    (x.executeGuarded s).interrupted = false ∧ (x.resolved.executeGuarded s).interrupted = false ∧
      (x.executeGuarded s).sigMeta.otherKeys? = some [key, other] ∧
      (x.resolved.executeGuarded s).sigMeta.otherKeys? = some [other] ∧
      (x.resolved.executeGuarded s).status = (x.executeGuarded s).status ∧
      (x.resolved.executeGuarded s).linked =
        (x.executeGuarded s).linked.only fun ref => !x.source.view.replaces ref := by
  intro key other store x s
  have hx : (x.executeGuarded s).interrupted = false := by decide
  have hx' : (x.resolved.executeGuarded s).interrupted = false := by decide
  obtain ⟨hstatus, -, hlinked, -⟩ := executeGuarded_resolved hx hx'
  exact ⟨hx, hx', by decide, by decide, hstatus, hlinked⟩

end Expansion

end Countersign
