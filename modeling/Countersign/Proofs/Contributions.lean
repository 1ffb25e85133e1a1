import Countersign.Proofs.Precedence

/-!
# What each requirement contributes

A list of requirements is gone through step by step.  A step fails, and then the pass ends with its
failure, or it passes and contributes at most one key.  So the keys that are found are the
contributions of the requirements one after the other, and they are found only if every step passes.

## What is here

* `View.accountMetadata_eq_ok_iff` and its siblings — what a view says of an account, by its record.
* `Requirement.Passes`, `Requirement.contribution` — a step passes, and the key that it contributes.
* `View.keysOf_eq_ok_iff` — the keys found are the contributions; `View.mem_keysOf`,
  `View.head?_keysOf` and `View.not_isEmpty_of_mem_keysOf` are consequences.
* `View.keysOf_of_reached` — a step that is reached and fails ends the pass.
* `Pass.keys` — the keys that a pass hands on.
* `Source.Undisturbed.payerPass_fst`, `Source.Undisturbed.othersPass_fst` — a pass that nothing
  disturbs comes to its end.
* `Requirement.mem_suppliedIfAny`, `Requirement.mem_accountIfAny`, `Body.mem_requirements_iff` — what
  is among the requirements.
-/

set_option autoImplicit false

namespace Countersign

/-! ## The record of an account -/

namespace View

variable {v : View} {a : Address} {r : AccountRecord}

theorem accountMetadata_of_none (h : v.accountAt a = none) :
    v.accountMetadata a = .error .missingAccount := by
  rw [accountMetadata, h]

theorem accountMetadata_of_deleted (h : v.accountAt a = some r) (hdel : r.deleted = true) :
    v.accountMetadata a = .error .invalidAccount := by
  rw [accountMetadata, h]
  exact if_pos hdel

theorem accountMetadata_of_some (h : v.accountAt a = some r) (hdel : r.deleted = false) :
    v.accountMetadata a = .ok { key := r.key, receiverSigRequired := r.receiverSigRequired } := by
  rw [accountMetadata, h]
  exact if_neg (by simp [hdel])

theorem accountMetadata_eq_ok_iff {m : AccountMetadata} :
    v.accountMetadata a = .ok m ↔
      ∃ r, v.accountAt a = some r ∧ r.deleted = false ∧
        { key := r.key, receiverSigRequired := r.receiverSigRequired } = m := by
  constructor
  · intro h
    rcases hr : v.accountAt a with - | r
    · rw [accountMetadata_of_none hr] at h
      cases h
    cases hdel : r.deleted with
    | true =>
      rw [accountMetadata_of_deleted hr hdel] at h
      cases h
    | false =>
      rw [accountMetadata_of_some hr hdel] at h
      exact ⟨r, rfl, hdel, Except.ok.inj h⟩
  · rintro ⟨r, hr, hdel, rfl⟩
    exact accountMetadata_of_some hr hdel

end View

/-! ## One step -/

namespace Requirement

/-- The step does not fail. -/
def Passes (v : View) (r : Requirement) : Prop :=
  ∃ key?, r.judge v = .ok key?

/-- The key that a step contributes. -/
def contribution (v : View) (r : Requirement) : Option Key :=
  match r.judge v with
  | .ok key? => key?
  | .error _ => none

variable {v : View} {r : Requirement}

theorem contribution_of_judge {key? : Option Key} (h : r.judge v = .ok key?) :
    r.contribution v = key? := by
  rw [contribution, h]

/-- A key that can never sign is not contributed. -/
theorem not_isEmpty_of_contribution {key : Key} (h : r.contribution v = some key) :
    key.isEmpty = false := by
  rw [contribution, judge] at h
  rcases hask : r.ask v with e | key? <;> rw [hask] at h
  · cases h
  · have hfilter : key?.filter (fun k => !k.isEmpty) = some key := h
    simpa using (Option.filter_eq_some_iff.1 hfilter).2

end Requirement

/-! ## One step after another -/

namespace View

variable {v : View} {rs : List Requirement} {keys : List Key}

/-- **The keys that are found are the contributions of the steps**, all of which pass. -/
theorem keysOf_eq_ok_iff :
    v.keysOf rs = .ok keys ↔
      (∀ r ∈ rs, r.Passes v) ∧ rs.filterMap (Requirement.contribution v) = keys := by
  induction rs generalizing keys with
  | nil => simp [keysOf]
  | cons r rs ih =>
    rw [keysOf, List.forall_mem_cons]
    rcases hj : r.judge v with e | key?
    · simp [Requirement.Passes, hj]
    · have hpass : r.Passes v := ⟨key?, hj⟩
      have hhere := Requirement.contribution_of_judge hj
      rcases hks : v.keysOf rs with e | more
      · have hnot : ¬ ∀ r ∈ rs, r.Passes v := fun hall => by
          rw [ih.2 ⟨hall, rfl⟩] at hks
          cases hks
        simp [hnot]
      · obtain ⟨hall, rfl⟩ := ih.1 hks
        rw [and_iff_right ⟨hpass, hall⟩]
        cases key? with
        | none => simp [List.filterMap_cons_none hhere]
        | some key => simp [List.filterMap_cons_some hhere]

theorem mem_keysOf (h : v.keysOf rs = .ok keys) {r : Requirement} (hr : r ∈ rs) {key : Key}
    (hkey : r.contribution v = some key) : key ∈ keys := by
  obtain ⟨-, rfl⟩ := keysOf_eq_ok_iff.1 h
  exact List.mem_filterMap.2 ⟨r, hr, hkey⟩

/-- What the first step contributes is the first key. -/
theorem head?_keysOf {r : Requirement} (h : v.keysOf (r :: rs) = .ok keys) {key : Key}
    (hkey : r.contribution v = some key) : keys.head? = some key := by
  obtain ⟨-, rfl⟩ := keysOf_eq_ok_iff.1 h
  rw [List.filterMap_cons_some hkey, List.head?_cons]

theorem not_isEmpty_of_mem_keysOf (h : v.keysOf rs = .ok keys) {key : Key} (hkey : key ∈ keys) :
    key.isEmpty = false := by
  obtain ⟨-, rfl⟩ := keysOf_eq_ok_iff.1 h
  obtain ⟨r, -, hr⟩ := List.mem_filterMap.1 hkey
  exact Requirement.not_isEmpty_of_contribution hr

/-- **A step that is reached and fails ends the pass** with its failure. -/
theorem keysOf_of_reached {before after : List Requirement} {r : Requirement} {e : OrderingFailure}
    (hbefore : ∀ q ∈ before, q.Passes v) (hr : r.judge v = .error e) :
    v.keysOf (before ++ r :: after) = .error e :=
  keysOf_eq_error_iff.2 ⟨before, r, after, rfl, hbefore, hr⟩

/-- A step that is not reached leaves it at the failure of an earlier one. -/
theorem keysOf_of_not_reached {before : List Requirement} {e : OrderingFailure}
    (hbefore : FailsFirst (Requirement.judge v) before e) (after : List Requirement) :
    v.keysOf (before ++ after) = .error e := by
  obtain ⟨earlier, q, later, rfl, hearlier, hq⟩ := hbefore
  exact keysOf_eq_error_iff.2 ⟨earlier, q, later ++ after, by simp, hearlier, hq⟩

/-- The steps of a list pass, or one of them is the first that fails. -/
theorem passes_or_failsFirst (v : View) (rs : List Requirement) :
    (∀ r ∈ rs, r.Passes v) ∨ ∃ e, FailsFirst (Requirement.judge v) rs e := by
  rcases hks : v.keysOf rs with e | keys
  · exact .inr ⟨e, keysOf_eq_error_iff.1 hks⟩
  · exact .inl (keysOf_eq_ok_iff.1 hks).1

end View

/-! ## The two passes -/

/-- The keys that a pass hands on: those that it has found, unless it fails or is cut short. -/
def Pass.keys : Pass (List Key) → List Key
  | .finished (.ok keys) => keys
  | .finished (.error _) => []
  | .interrupted => []

section passes

variable {src : Source} {b : Body} {t : Trail}

theorem otherKeys_of_othersPass {result : Except OrderingFailure (List Key)}
    (h : (othersPass src b t).1 = .finished result) : otherKeys src.view b = result :=
  (othersPass_eq_finished_iff.1 (Prod.ext h rfl)).2

theorem Source.Undisturbed.payerPass_fst (h : src.Undisturbed) (b : Body) (t : Trail) :
    (payerPass src b t).1 = .finished (payerKey src.view b.payer) := by
  have hvisit := Source.visit_of_completes (h.completes t.calls (.account (.byId b.payer)))
  exact congrArg Prod.fst (payerPass_eq_finished_iff.2 ⟨hvisit, rfl⟩)

theorem Source.Undisturbed.othersPass_fst (h : src.Undisturbed) (b : Body) (t : Trail) :
    (othersPass src b t).1 = .finished (otherKeys src.view b) :=
  congrArg Prod.fst (othersPass_eq_finished_iff.2 ⟨h.visitAll_eq _ t, rfl⟩)

end passes

/-! ## What is required -/

namespace Requirement

variable {r : Requirement}

@[simp] theorem mem_suppliedIfAny {key? : Option Key} :
    r ∈ suppliedIfAny key? ↔ ∃ key, key? = some key ∧ supplied key = r := by
  simp [suppliedIfAny]

@[simp] theorem mem_accountIfAny {role : AccountRole} {address? : Option Address} :
    r ∈ accountIfAny role address? ↔ ∃ a, address? = some a ∧ account role a = r := by
  simp [accountIfAny]

end Requirement

namespace Body

variable {b : Body} {r : Requirement}

theorem mem_requirements_iff :
    r ∈ b.requirements ↔ r ∈ b.operation.requirements ∧ r.isCoveredBy b.payer = false := by
  simp [requirements]

end Body

end Countersign
