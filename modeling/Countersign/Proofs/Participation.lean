import Countersign.Proofs.Parties

/-!
# The payer among the parties

The payer can be one of the parties to its own transaction, under its number or under an alias that is
bound to it.  Under the number it is passed over, since its key is required anyway.  Under an alias it
is not recognised, and its key is required once more.

## What is here

* `View.denotes`, `Requirement.isOn` — an address denotes an account, and a requirement is on it;
  `View.denotes_iff` says so by resolving the address.
* `Body.foreignRequirements` — what is required of others than the payer, however it is named.
* `Requirement.judge_of_denotes` — what the payer is asked for as one of the parties.
* `Body.agree_keysOf_foreignRequirements`, `Body.keysOf_foreignRequirements_eq_iff` — what is found
  without the payer, and when it is the same.
* `othersPass_of_payer` — the keys that the pass finds, by those that it finds without the payer.
* `not_forall_foreign_of_othersPass` — they are not always the same.
-/

set_option autoImplicit false

namespace Countersign

/-! ## Naming an account -/

/-- The address denotes the account: it is the account's number, or an alias that is bound to it. -/
def View.denotes (v : View) (id : EntityId) : Address → Bool
  | .byId id' => id' == id
  | .byAlias name => (v.binding name).any (·.id == id)

/-- The requirement is on the account. -/
def Requirement.isOn (v : View) (id : EntityId) : Requirement → Bool
  | .account _ a => v.denotes id a
  | _ => false

/-- The requirements of a transaction apart from those on its payer. -/
def Body.foreignRequirements (b : Body) (v : View) : List Requirement :=
  b.operation.requirements.filter fun r => !r.isOn v b.payer

/-- An address that denotes an account with a record is resolved to its number. -/
theorem View.denotes_iff {v : View} {id : EntityId} {r : AccountRecord} (hr : v.account id = some r)
    {a : Address} : v.denotes id a = true ↔ v.resolve a = .byId id := by
  cases a with
  | byId id' => simp [denotes, resolve]
  | byAlias name =>
    have hbound : v.denotes id (.byAlias name) = true ↔ v.target? name = some id := by
      rw [denotes, Option.any_eq_true, target?_eq_some_iff]
      constructor
      · rintro ⟨binding, hb, hid⟩
        exact ⟨binding, r, hb, by simpa using hid, hr⟩
      · rintro ⟨binding, -, hb, hid, -⟩
        exact ⟨binding, hb, by simpa using hid⟩
    rw [hbound, resolve]
    cases v.target? name <;> simp

/-! ## What the payer is asked for -/

namespace Requirement

variable {v : View} {payer : EntityId} {m : AccountMetadata} {r : Requirement}

/-- **What the payer is asked for as one of the parties**: its key, unless it receives something and
does not sign for that. -/
theorem judge_of_denotes (hm : v.accountMetadata (.byId payer) = .ok m)
    (hne : m.key.isEmpty = false) {a : Address} (ha : v.denotes payer a = true)
    (role : AccountRole) :
    (account role a).judge v =
      .ok (if role.asks m.receiverSigRequired then some m.key else none) := by
  obtain ⟨_, hr, -, -⟩ := View.accountMetadata_eq_ok_iff.1 hm
  rw [← judge_resolve, mapAddress, (View.denotes_iff hr).1 ha, judge_of_payer hm hne]

theorem contribution_eq_none_iff_of_denotes (hm : v.accountMetadata (.byId payer) = .ok m)
    (hne : m.key.isEmpty = false) {a : Address} (ha : v.denotes payer a = true)
    {role : AccountRole} :
    (account role a).contribution v = none ↔ role.asks m.receiverSigRequired = false := by
  rw [contribution_of_judge (judge_of_denotes hm hne ha role)]
  cases role.asks m.receiverSigRequired <;> simp

/-- A requirement is on the payer if it turns out to be covered once the address is resolved. -/
theorem isOn_iff_covered {record : AccountRecord} (hr : v.account payer = some record) :
    r.isOn v payer = true ↔ (r.mapAddress v.resolve).isCoveredBy payer = true := by
  cases r with
  | account role a => rw [isOn, mapAddress, isCoveredBy_account_iff, View.denotes_iff hr]
  | _ => simp [isOn, mapAddress, isCoveredBy]

/-- A requirement that is passed over is on the payer. -/
theorem isOn_of_isCoveredBy (h : r.isCoveredBy payer = true) : r.isOn v payer = true := by
  obtain ⟨role, rfl⟩ := isCoveredBy_iff.1 h
  simp [isOn, View.denotes]

/-- A filter loses nothing of what is contributed exactly if what it leaves out contributes nothing. -/
theorem filterMap_filter_eq_iff {p : Requirement → Bool} {rs : List Requirement} :
    (rs.filter p).filterMap (contribution v) = rs.filterMap (contribution v) ↔
      ∀ r ∈ rs, p r = false → r.contribution v = none := by
  induction rs with
  | nil => simp
  | cons r rs ih =>
    rw [List.forall_mem_cons, ← ih]
    cases hp : p r with
    | true =>
      rw [List.filter_cons_of_pos hp]
      cases hr : r.contribution v with
      | none => simp [List.filterMap_cons_none hr]
      | some key => simp [List.filterMap_cons_some hr]
    | false =>
      rw [List.filter_cons_of_neg (by simp [hp])]
      cases hr : r.contribution v with
      | none => simp [List.filterMap_cons_none hr]
      | some key =>
        -- what is left is shorter than what would have to come out
        have hle := ((List.filter_sublist (p := p) (l := rs)).filterMap (contribution v)).length_le
        have hne : (rs.filter p).filterMap (contribution v) ≠ key :: rs.filterMap (contribution v) := by
          intro heq
          rw [heq, List.length_cons] at hle
          omega
        simp [List.filterMap_cons_some hr, hne]

end Requirement

/-! ## What is found without the payer -/

namespace Body

variable {v : View} {b : Body} {key : Key} {keys : List Key}

/-- The requirements on the payer that are not passed over are left out. -/
theorem filter_requirements (b : Body) (v : View) :
    b.requirements.filter (fun r => !r.isOn v b.payer) = b.foreignRequirements v := by
  rw [requirements, List.filter_filter, foreignRequirements]
  refine List.filter_congr fun r _ => ?_
  cases hcov : r.isCoveredBy b.payer with
  | false => simp
  | true => simp [Requirement.isOn_of_isCoveredBy hcov]

/-- Without the payer the same is found apart from the payer's key, or the same failure. -/
theorem agree_keysOf_foreignRequirements (hp : payerKey v b.payer = .ok key) :
    Except.Agree (Drops key) (otherKeys v b) (v.keysOf (b.foreignRequirements v)) := by
  obtain ⟨m, hm, -, -⟩ := accountMetadata_of_payerKey hp
  obtain ⟨_, hr, -, -⟩ := View.accountMetadata_eq_ok_iff.1 hm
  rw [otherKeys, ← b.filter_requirements v]
  refine View.keysOf_filter fun r _ hon => Requirement.judge_of_covered hp ?_
  exact (Requirement.isOn_iff_covered hr).1 (by simpa using hon)

/-- Without the payer the same keys are found exactly if it contributes none. -/
theorem keysOf_foreignRequirements_eq_iff (h : otherKeys v b = .ok keys) :
    v.keysOf (b.foreignRequirements v) = .ok keys ↔
      ∀ r ∈ b.requirements, r.isOn v b.payer = true → r.contribution v = none := by
  obtain ⟨hpass, rfl⟩ := View.keysOf_eq_ok_iff.1 h
  have hforeign : ∀ r ∈ b.requirements.filter fun r => !r.isOn v b.payer, r.Passes v :=
    fun r hr => hpass r (List.mem_filter.1 hr).1
  rw [← b.filter_requirements v, View.keysOf_eq_ok_iff, and_iff_right hforeign,
    Requirement.filterMap_filter_eq_iff]
  simp

end Body

/-- **The payer as one of the parties to its own transaction.**  Under its number it is passed over.
Under an alias that is bound to the number it is asked for its key, unless it receives something and
does not sign for that.  So the pass fails as it does for the other parties alone, and otherwise it
finds their keys with some occurrences of the payer's key in between: none exactly if every alias of
the payer is one that receives something, and the payer does not sign for that. -/
theorem othersPass_of_payer {src : Source} (hsrc : src.Undisturbed) {b : Body} {t : Trail} {key : Key}
    (hp : (payerPass src b t).1 = .finished (.ok key)) (t' : Trail) :
    let v := src.view
    ∃ m, v.accountMetadata (.byId b.payer) = .ok m ∧ m.key = key ∧
      (∀ role, .account role (.byId b.payer) ∉ b.requirements) ∧
      (∀ role name, v.denotes b.payer (.byAlias name) = true →
        (Requirement.account role (.byAlias name)).judge v =
          .ok (if role.asks m.receiverSigRequired then some key else none)) ∧
      ∃ result, (othersPass src b t').1 = .finished result ∧
        Except.Agree (Drops key) result (v.keysOf (b.foreignRequirements v)) ∧
        ∀ keys, result = .ok keys →
          (v.keysOf (b.foreignRequirements v) = .ok keys ↔
            ∀ role name, .account role (.byAlias name) ∈ b.requirements →
              v.denotes b.payer (.byAlias name) = true →
              role.asks m.receiverSigRequired = false) := by
  intro v
  have hkey : payerKey v b.payer = .ok key := (payerPass_eq_finished_iff.1 (Prod.ext hp rfl)).2
  obtain ⟨m, hm, rfl, hne⟩ := accountMetadata_of_payerKey hkey
  have hnot : ∀ role, .account role (.byId b.payer) ∉ b.requirements :=
    fun role hmem => (Body.account_mem_requirements_iff.1 hmem).2 rfl
  refine ⟨m, hm, rfl, hnot, fun role name ha => Requirement.judge_of_denotes hm hne ha role,
    otherKeys v b, hsrc.othersPass_fst b t', Body.agree_keysOf_foreignRequirements hkey,
    fun keys hkeys => ?_⟩
  rw [Body.keysOf_foreignRequirements_eq_iff hkeys]
  constructor
  · intro hnone role name hmem ha
    exact (Requirement.contribution_eq_none_iff_of_denotes hm hne ha).1 (hnone _ hmem ha)
  · intro hasks r hr hon
    cases r with
    | account role a =>
      refine (Requirement.contribution_eq_none_iff_of_denotes hm hne hon).2 ?_
      cases a with
      | byId id =>
        obtain rfl : id = b.payer := by simpa [Requirement.isOn, View.denotes] using hon
        exact absurd hr (hnot role)
      | byAlias name => exact hasks role name hr hon
    | _ => cases hon

/-- The payer holds the treasury of a token under an alias, and pays for its renewal under its
number. -/
theorem othersPass_of_payer_of_treasury :
    let key : Key := .ed25519 (.replicate 32 7)
    let admin : Key := .ed25519 (.replicate 32 8)
    let store := Store.fresh.run
      [.putAccount ⟨0, 0, 1001⟩ { key }, .bindAlias ⟨[1]⟩ ⟨0, 0, 1001⟩]
    let src : Source := { view := store.view fun _ => false }
    let b : Body :=
      { payer := ⟨0, 0, 1001⟩, validStart := 1000, nodeAccount := ⟨0, 0, 3⟩, memo := ""
        operation := .tokenCreate "GOLD" (.byAlias ⟨[1]⟩) (some admin) (some (.byId ⟨0, 0, 1001⟩)) }
    src.Undisturbed ∧ (payerPass src b {}).1 = .finished (.ok key) ∧
      (othersPass src b {}).1 = .finished (.ok [key, admin]) ∧
      Except.Agree (Drops key) (.ok [key, admin])
        (src.view.keysOf (b.foreignRequirements src.view)) ∧
      src.view.keysOf (b.foreignRequirements src.view) ≠ .ok [key, admin] := by
  intro key admin store src b
  have hsrc : src.Undisturbed := ⟨fun _ => rfl, fun _ _ => rfl⟩
  have hp : (payerPass src b {}).1 = .finished (.ok key) := rfl
  obtain ⟨m, -, -, -, -, result, hpass, hagree, hsame⟩ := othersPass_of_payer hsrc hp {}
  obtain rfl : result = .ok [key, admin] := (Pass.finished.inj hpass).symm
  refine ⟨hsrc, hp, hpass, hagree, fun heq => ?_⟩
  have hidle := (hsame _ rfl).1 heq .treasury ⟨[1]⟩ (by decide) rfl
  cases hidle

/-- It is not so that the pass finds only what others than the payer have to sign with: a payer that
changes its own account under an alias of it is one of the other parties. -/
theorem not_forall_foreign_of_othersPass :
    ¬ ∀ (mutations : List Mutation) (b : Body) (t t' : Trail) (key : Key),
      let src : Source := { view := (Store.fresh.run mutations).view fun _ => false }
      (payerPass src b t).1 = .finished (.ok key) →
      (othersPass src b t').1 = .finished (src.view.keysOf (b.foreignRequirements src.view)) := by
  intro hall
  let key : Key := .ed25519 (.replicate 32 7)
  let b : Body :=
    { payer := ⟨0, 0, 1001⟩, validStart := 1000, nodeAccount := ⟨0, 0, 3⟩, memo := ""
      operation := .cryptoUpdate (.byAlias ⟨[1]⟩) none none }
  have hpass := hall [.putAccount ⟨0, 0, 1001⟩ { key }, .bindAlias ⟨[1]⟩ ⟨0, 0, 1001⟩] b {} {} key rfl
  cases hpass

end Countersign
