import Countersign.Ledger.Store
import Countersign.Proofs.Parties

/-!
# Who can be given something

To give something to an account the account has to be there, with one exception: an alias under which
no account is found is let through, since giving to an alias that nobody holds creates the account.
The exception goes by the form of the address and by what is found.  So it takes in an alias that has
no binding, but also one that is bound to the number of an account that is not there any more, or not
yet, whereas the number itself is refused.

## What is here

* `View.Holds`, `View.Dangles` — there is an account at an address; an alias is bound to a number
  without one.
* `Requirement.judge_receiver_of_missing` and its siblings — the step for a receiver, by what is found.
* `othersPass_of_receiver` — when the step passes, and how the pass goes on.
* `not_forall_missing_of_receiver` — the pass does not always fail when the account is missing that a
  bound alias leads to.
-/

set_option autoImplicit false

namespace Countersign

namespace View

variable {v : View} {a : Address}

/-- There is an account at the address, and it is not deleted. -/
def Holds (v : View) (a : Address) : Prop :=
  ∃ r, v.accountAt a = some r ∧ r.deleted = false

/-- The alias is bound to a number under which there is no account. -/
def Dangles (v : View) (name : Alias) : Prop :=
  ∃ binding, v.binding name = some binding ∧ v.account binding.id = none

/-- Nothing is found at an alias that has no binding, and at one that dangles. -/
theorem accountAt_byAlias_eq_none_iff {name : Alias} :
    v.accountAt (.byAlias name) = none ↔ v.binding name = none ∨ v.Dangles name := by
  rw [accountAt, Dangles]
  cases v.binding name <;> simp

end View

/-! ## The step for a receiver -/

namespace Requirement

variable {v : View} {a : Address} {r : AccountRecord}

theorem judge_receiver_of_missing {id : EntityId} (h : v.account id = none) :
    (account .receiver (.byId id)).judge v = .error .missingAccount := by
  rw [judge, ask, View.accountMetadata_of_none (a := .byId id) h]
  rfl

theorem judge_receiver_of_vacant {name : Alias} (h : v.accountAt (.byAlias name) = none) :
    (account .receiver (.byAlias name)).judge v = .ok none := by
  rw [judge, ask, View.accountMetadata_of_none h]
  rfl

theorem judge_receiver_of_deleted (hr : v.accountAt a = some r) (hdel : r.deleted = true) :
    (account .receiver a).judge v = .error .invalidAccount := by
  rw [judge, ask, View.accountMetadata_of_deleted hr hdel]
  rfl

theorem passes_receiver_of_holds (h : v.Holds a) : (account .receiver a).Passes v := by
  obtain ⟨r, hr, hdel⟩ := h
  rw [Passes, judge, ask, View.accountMetadata_of_some hr hdel]
  exact ⟨_, rfl⟩

/-- **When the step for a receiver passes.** -/
theorem passes_receiver_iff :
    (account .receiver a).Passes v ↔
      v.Holds a ∨ ∃ name, a = .byAlias name ∧ (v.binding name = none ∨ v.Dangles name) := by
  constructor
  · rintro ⟨key?, hj⟩
    rcases hr : v.accountAt a with - | r
    · cases a with
      | byId id =>
        rw [judge_receiver_of_missing hr] at hj
        cases hj
      | byAlias name => exact .inr ⟨name, rfl, View.accountAt_byAlias_eq_none_iff.1 hr⟩
    · cases hdel : r.deleted with
      | true =>
        rw [judge_receiver_of_deleted hr hdel] at hj
        cases hj
      | false => exact .inl ⟨r, hr, hdel⟩
  · rintro (h | ⟨name, rfl, h⟩)
    · exact passes_receiver_of_holds h
    · exact ⟨none, judge_receiver_of_vacant (View.accountAt_byAlias_eq_none_iff.2 h)⟩

end Requirement

/-! ## The pass -/

/-- A step that passes and asks for no key can be left out. -/
theorem View.keysOf_of_idle {v : View} {before after : List Requirement} {r : Requirement}
    (hr : r.judge v = .ok none) : v.keysOf (before ++ r :: after) = v.keysOf (before ++ after) := by
  induction before with
  | nil =>
    rw [List.nil_append, List.nil_append, keysOf, hr]
    cases v.keysOf after <;> rfl
  | cons q before ih => rw [List.cons_append, List.cons_append, keysOf, keysOf, ih]

/-- **Who can be given something.**  The receivers of an operation other than the payer are required as
such.  The step for one passes if there is an account at the address, and otherwise only if the address
is an alias which has no binding or dangles; then it contributes no key, and the pass goes on as if it
were not there.  The pass fails at a number without an account, since the account is missing, and at an
account that is deleted. -/
theorem othersPass_of_receiver {src : Source} (hsrc : src.Undisturbed) (b : Body) (t : Trail) :
    let v := src.view
    let pass := (othersPass src b t).1
    (∀ a, .account .receiver a ∈ b.requirements ↔ b.operation.Favours a ∧ a ≠ .byId b.payer) ∧
    ∀ a before after, b.Reaches v before (.account .receiver a) after →
      ((Requirement.account .receiver a).Passes v ↔
        v.Holds a ∨ ∃ name, a = .byAlias name ∧ (v.binding name = none ∨ v.Dangles name)) ∧
      (∀ name, a = .byAlias name → v.accountAt a = none →
        pass = .finished (v.keysOf (before ++ after))) ∧
      (∀ id, a = .byId id → v.account id = none → pass = .finished (.error .missingAccount)) ∧
      ∀ r, v.accountAt a = some r → r.deleted = true → pass = .finished (.error .invalidAccount) := by
  intro v pass
  refine ⟨fun a => ?_, fun a before after h => ⟨Requirement.passes_receiver_iff, ?_, ?_, ?_⟩⟩
  · rw [Body.account_mem_requirements_iff, Operation.receiver_mem_requirements_iff]
  · rintro name rfl hvacant
    change (othersPass src b t).1 = _
    rw [hsrc.othersPass_fst, otherKeys, h.split,
      View.keysOf_of_idle (Requirement.judge_receiver_of_vacant hvacant)]
  · rintro id rfl hmissing
    exact h.othersPass_of_error hsrc (Requirement.judge_receiver_of_missing hmissing) t
  · intro r hr hdel
    exact h.othersPass_of_error hsrc (Requirement.judge_receiver_of_deleted hr hdel) t

/-- The heir of an account is named by an alias of an account that has been removed. -/
theorem othersPass_of_receiver_of_removed :
    let owner : Key := .ed25519 (.replicate 32 7)
    let store := Store.fresh.run
      [.putAccount ⟨0, 0, 1002⟩ { key := owner }, .putAccount ⟨0, 0, 1003⟩ { key := owner },
        .bindAlias ⟨[3]⟩ ⟨0, 0, 1003⟩, .removeAccount ⟨0, 0, 1003⟩]
    let src : Source := { view := store.view fun _ => false }
    let b : Body :=
      { payer := ⟨0, 0, 1001⟩, validStart := 1000, nodeAccount := ⟨0, 0, 3⟩, memo := ""
        operation := .cryptoDelete (.byId ⟨0, 0, 1002⟩) (.byAlias ⟨[3]⟩) }
    src.Undisturbed ∧ b.operation.Favours (.byAlias ⟨[3]⟩) ∧ src.view.Dangles ⟨[3]⟩ ∧
      b.Reaches src.view [.account .signer (.byId ⟨0, 0, 1002⟩)]
        (.account .receiver (.byAlias ⟨[3]⟩)) [] ∧
      (Requirement.account .receiver (.byAlias ⟨[3]⟩)).Passes src.view ∧
      (othersPass src b {}).1 = .finished (.ok [owner]) := by
  intro owner store src b
  have hsrc : src.Undisturbed := ⟨fun _ => rfl, fun _ _ => rfl⟩
  have hdangles : src.view.Dangles ⟨[3]⟩ := ⟨⟨⟨0, 0, 1003⟩, ⟨3⟩⟩, rfl, rfl⟩
  have hreach : b.Reaches src.view [.account .signer (.byId ⟨0, 0, 1002⟩)]
      (.account .receiver (.byAlias ⟨[3]⟩)) [] := by
    refine ⟨rfl, fun q hq => ?_⟩
    obtain rfl := List.mem_singleton.1 hq
    exact ⟨some owner, rfl⟩
  obtain ⟨-, hsteps⟩ := othersPass_of_receiver hsrc b {}
  obtain ⟨hpasses, hgoes, -, -⟩ := hsteps _ _ _ hreach
  exact ⟨hsrc, .heir, hdangles, hreach, hpasses.2 (.inr ⟨_, rfl, .inr hdangles⟩), hgoes _ rfl rfl⟩

/-- It is not so that the pass fails whenever the account of a receiver is missing that a number or a
bound alias leads to: an alias whose account has been removed is credited like one that nobody
holds. -/
theorem not_forall_missing_of_receiver :
    ¬ ∀ (mutations : List Mutation) (b : Body) (t : Trail) (a : Address)
      (before after : List Requirement),
      let src : Source := { view := (Store.fresh.run mutations).view fun _ => false }
      b.Reaches src.view before (.account .receiver a) after → src.view.accountAt a = none →
      (∀ name, a = .byAlias name → src.view.binding name ≠ none) →
      (othersPass src b t).1 = .finished (.error .missingAccount) := by
  intro hall
  let b : Body :=
    { payer := ⟨0, 0, 1001⟩, validStart := 1000, nodeAccount := ⟨0, 0, 3⟩, memo := ""
      operation := .cryptoTransfer
        [⟨.byId ⟨0, 0, 1001⟩, -5, false⟩, ⟨.byAlias ⟨[3]⟩, 5, false⟩] [] }
  have hpass := hall
    [.putAccount ⟨0, 0, 1001⟩ { key := .ed25519 (.replicate 32 7) },
      .putAccount ⟨0, 0, 1003⟩ { key := .ed25519 (.replicate 32 8) },
      .bindAlias ⟨[3]⟩ ⟨0, 0, 1003⟩, .removeAccount ⟨0, 0, 1003⟩]
    b {} (.byAlias ⟨[3]⟩) [] [] ⟨rfl, by simp⟩ rfl (by
      rintro name ⟨⟩ h
      cases h)
  cases hpass

end Countersign
