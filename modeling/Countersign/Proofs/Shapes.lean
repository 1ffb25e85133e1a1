import Countersign.Proofs.History
import Countersign.Proofs.Lookups

/-!
# The shapes of an outcome

An outcome consists of a status, a final stage, metadata, and a flag that tells whether it was cut
short.  These go together in a few ways only: nothing is handed on when the payer's part fails, the
payer's part alone when that of the others does, and everything at the end.

## What is here

* `Outcome.WellShaped` — the ways in which the parts of an outcome go together.
* `Outcome.WellShaped.mapSignatures` — stamping the signatures does not matter.
* `Expansion.PayerEmits`, `Setting.PayerEmits` — the payer's key, and the signatures made for it.
* `Expansion.wellShaped_executeGuarded` — one expansion.
* `rationalize_wellShaped` — an earlier outcome, or an expansion in place of it.
* `Outcome.wellShaped_of_expansion` — every way in which an outcome comes about.
-/

set_option autoImplicit false

namespace Countersign

namespace Outcome

/-- The parts of the outcome go together.  Which key and signatures the payer's part may leave is
said by `emits`. -/
structure WellShaped (emits : Key → List PlatformSignature → Prop) (o : Outcome) : Prop where
  terminal : o.stage = .finalized ∨ o.stage = .failedAtPayer ∨ o.stage = .failedAtOthers
  finalized_iff : o.stage = .finalized ↔ o.status = .ok
  ok_iff : o.status = .ok ↔ o.sigMeta.couldRationalizeOthers = true
  finalized : o.stage = .finalized →
    o.interrupted = false ∧ ∃ key others sigs, o.sigMeta = .complete key others sigs
  failedAtPayer : o.stage = .failedAtPayer → o.sigMeta = .noneAvailable ∧ o.status ≠ .ok
  failedAtOthers : o.stage = .failedAtOthers → o.interrupted = false →
    ∃ key sigs, emits key sigs ∧ o.sigMeta = .payerOnly key sigs
  cutShort : o.interrupted = true →
    o.sigMeta = .noneAvailable ∧ o.status = .unresolvableRequiredSigners

variable {emits emits' : Key → List PlatformSignature → Prop} {o : Outcome}

theorem WellShaped.imp (h : o.WellShaped emits) (himp : ∀ key sigs, emits key sigs → emits' key sigs) :
    o.WellShaped emits' := by
  refine { h with failedAtOthers := fun hstage hint => ?_ }
  obtain ⟨key, sigs, hemits, hmeta⟩ := h.failedAtOthers hstage hint
  exact ⟨key, sigs, himp key sigs hemits, hmeta⟩

/-- Stamping the signatures leaves the shape as it is. -/
theorem WellShaped.mapSignatures (h : o.WellShaped emits)
    (f : List PlatformSignature → List PlatformSignature) :
    (o.mapSignatures f).WellShaped fun key sigs => ∃ emitted, emits key emitted ∧ sigs = f emitted where
  terminal := h.terminal
  finalized_iff := h.finalized_iff
  ok_iff := h.ok_iff
  finalized hstage := by
    obtain ⟨hint, key, others, sigs, hmeta⟩ := h.finalized hstage
    exact ⟨hint, key, others, f sigs, by rw [Outcome.mapSignatures, hmeta]; rfl⟩
  failedAtPayer hstage := by
    obtain ⟨hmeta, hstatus⟩ := h.failedAtPayer hstage
    exact ⟨by rw [Outcome.mapSignatures, hmeta]; rfl, hstatus⟩
  failedAtOthers hstage hint := by
    obtain ⟨key, sigs, hemits, hmeta⟩ := h.failedAtOthers hstage hint
    exact ⟨key, f sigs, ⟨sigs, hemits, rfl⟩, by rw [Outcome.mapSignatures, hmeta]; rfl⟩
  cutShort hint := by
    obtain ⟨hmeta, hstatus⟩ := h.cutShort hint
    exact ⟨by rw [Outcome.mapSignatures, hmeta]; rfl, hstatus⟩

/-! ## The shapes, one by one -/

theorem wellShaped_ofInterruption (emits : Key → List PlatformSignature → Prop) {stage : Stage}
    (linked : LinkedRefs) : (Outcome.ofInterruption stage linked).WellShaped emits := by
  constructor <;> cases stage <;>
    simp [ofInterruption, Stage.interruptedEnd, OrderingFailure.status, SigMeta.noneAvailable,
      SigMeta.couldRationalizeOthers]

/-- The payer's part has failed. -/
theorem wellShaped_failedAtPayer (emits : Key → List PlatformSignature → Prop) {status : Status}
    (hne : status ≠ .ok) (linked : LinkedRefs) :
    ({ sigMeta := .noneAvailable, status, linked, stage := .failedAtPayer } : Outcome).WellShaped
      emits := by
  constructor <;> simp [hne, SigMeta.noneAvailable, SigMeta.couldRationalizeOthers]

/-- The part of the others has failed. -/
theorem wellShaped_failedAtOthers {key : Key} {sigs : List PlatformSignature}
    (hemits : emits key sigs) {status : Status} (hne : status ≠ .ok) (linked : LinkedRefs) :
    ({ sigMeta := .payerOnly key sigs, status, linked, stage := .failedAtOthers } :
      Outcome).WellShaped emits where
  terminal := .inr (.inr rfl)
  finalized_iff := by simp [hne]
  ok_iff := by simp [hne, SigMeta.payerOnly, SigMeta.couldRationalizeOthers]
  finalized := by simp
  failedAtPayer := by simp
  failedAtOthers _ _ := ⟨key, sigs, hemits, rfl⟩
  cutShort := by simp

theorem wellShaped_finalized (emits : Key → List PlatformSignature → Prop) (key : Key)
    (others : List Key) (sigs : List PlatformSignature) (linked : LinkedRefs) :
    ({ sigMeta := .complete key others sigs, status := .ok, linked, stage := .finalized } :
      Outcome).WellShaped emits where
  terminal := .inl rfl
  finalized_iff := by simp
  ok_iff := by simp [SigMeta.complete, SigMeta.couldRationalizeOthers]
  finalized _ := ⟨rfl, key, others, sigs, rfl⟩
  failedAtPayer := by simp
  failedAtOthers := by simp
  cutShort := by simp

end Outcome

/-! ## One expansion -/

namespace Expansion

/-- The payer's part of an expansion ends well with this key, and makes these signatures for it. -/
def PayerEmits (x : Expansion) (s : Supply) (key : Key) (sigs : List PlatformSignature) : Prop :=
  payerKey x.source.view x.body.payer = .ok key ∧ (matchKeys x.make [key] s).1 = .ok sigs

/-- **Every expansion has a well-shaped outcome**, interrupted or not. -/
theorem wellShaped_executeGuarded (x : Expansion) (s : Supply) :
    (x.executeGuarded s).WellShaped (x.PayerEmits s) := by
  have emits {key : Key} {sigs : List PlatformSignature} {s' : Supply} {t : Trail}
      (hp : payerPass x.source x.body {} = (.finished (.ok key), t))
      (hm : matchKeys x.make [key] s = (.ok sigs, s')) : x.PayerEmits s key sigs :=
    ⟨(payerPass_eq_finished_iff.1 hp).2, by rw [hm]⟩
  have hr := x.runs_run s
  rw [executeGuarded]
  generalize x.run s = r at hr
  cases hr with
  | payerInterrupted | othersInterrupted => exact Outcome.wellShaped_ofInterruption _ _
  | payerUnordered => exact Outcome.wellShaped_failedAtPayer _ (OrderingFailure.status_ne_ok _) _
  | payerUnmatched => exact Outcome.wellShaped_failedAtPayer _ (MatchError.status_ne_ok _) _
  | othersUnordered hp hm =>
    exact Outcome.wellShaped_failedAtOthers (emits hp hm) (OrderingFailure.status_ne_ok _) _
  | othersUnmatched hp hm =>
    exact Outcome.wellShaped_failedAtOthers (emits hp hm) (MatchError.status_ne_ok _) _
  | finalized => exact Outcome.wellShaped_finalized _ _ _ _ _

end Expansion

/-! ## Rationalization -/

namespace Setting

/-- The expansion of a transaction. -/
def expansion (g : Setting) (t : ParsedTransaction) : Expansion where
  source := g.source
  body := t.body
  make := .over t.bodyBytes
  sweep := g.sweep

/-- The payer's part of the expansion of a transaction ends well with this key, and these are the
signatures made for it, stamped by the verifier. -/
def PayerEmits (g : Setting) (t : ParsedTransaction) (s : Supply) (key : Key)
    (sigs : List PlatformSignature) : Prop :=
  ∃ emitted, (g.expansion t).PayerEmits s key emitted ∧ sigs = g.verifier.verify emitted

theorem wellShaped_expandAndVerify (g : Setting) (t : ParsedTransaction) (s : Supply) :
    (g.expandAndVerify t s).outcome.WellShaped (g.PayerEmits t s) :=
  ((g.expansion t).wellShaped_executeGuarded s).mapSignatures g.verifier.verify

end Setting

/-- A rationalization yields the earlier outcome, or that of an expansion of unused signatures. -/
theorem rationalize_wellShaped {g : Setting} {t : ParsedTransaction} {earlier : Option Outcome}
    {s : Supply} {r : Rationalized} {emits : Key → List PlatformSignature → Prop}
    (hearlier : ∀ o, earlier = some o → o.WellShaped emits)
    (h : rationalize g t earlier s = .ok r) :
    r.span.outcome.WellShaped fun key sigs => emits key sigs ∨ g.PayerEmits t s.reset key sigs := by
  rcases hsource : spanSource g.source.view earlier with e | source
  · rw [rationalize_of_error hsource] at h
    cases h
  · by_cases hreused : source = .reused
    · subst hreused
      obtain ⟨o, rfl, -⟩ := spanSource_eq_reused_iff.1 hsource
      rw [rationalize_of_reused hsource] at h
      obtain rfl := Except.ok.inj h
      exact (hearlier o rfl).imp fun _ _ => .inl
    · rw [rationalize_of_ne hsource hreused] at h
      obtain rfl := Except.ok.inj h
      exact (g.wellShaped_expandAndVerify t s.reset).imp fun _ _ => .inr

/-! ## Everywhere -/

/-- **Every outcome is well-shaped**: that of an expansion, guarded or not, that of a rationalization
if the earlier outcome is, and that with which a node answers, which goes back to a moment in its
history. -/
theorem Outcome.wellShaped_of_expansion :
    (∀ (x : Expansion) (s : Supply), (x.executeGuarded s).WellShaped (x.PayerEmits s) ∧
        ∀ o, x.execute? s = some o → o.interrupted = false ∧ o.WellShaped (x.PayerEmits s)) ∧
      (∀ (g : Setting) (t : ParsedTransaction) (earlier : Option Outcome) (s : Supply)
          (r : Rationalized) (emits : Key → List PlatformSignature → Prop),
        (∀ o, earlier = some o → o.WellShaped emits) → rationalize g t earlier s = .ok r →
        r.span.outcome.WellShaped fun key sigs =>
          emits key sigs ∨ g.PayerEmits t s.reset key sigs) ∧
      ∀ (config : ServiceConfig) (verifier : Verifier) (events : List Event) (contents : Bytes)
        (a : Handled),
        (((Node.new config verifier).run events).step (.handle contents)).1 = .handled (.ok a) →
        ∃ past n, past <+: events ∧ n = (Node.new config verifier).run past ∧
          a.span.outcome.WellShaped
            ((n.service.setting n.view).PayerEmits a.transaction
              (.ofMap a.transaction.signatures)) := by
  refine ⟨fun x s => ⟨x.wellShaped_executeGuarded s, fun o ho => ?_⟩,
    fun g t earlier s r emits => rationalize_wellShaped,
    fun config verifier events contents a h => ?_⟩
  · rw [Expansion.execute?, Ran.finished?_eq] at ho
    split at ho
    · cases ho
    · next hint =>
      obtain rfl := Option.some.inj ho
      exact ⟨by simpa using hint, x.wellShaped_executeGuarded s⟩
  · obtain ⟨past, carried, hpast, -, -, hout⟩ := Node.exists_past_of_handle (Reply.handled.inj h)
    refine ⟨past, _, hpast, rfl, ?_⟩
    rw [hout]
    exact Setting.wellShaped_expandAndVerify _ _ _

/-- An account is deleted whose heir does not exist, after an expansion that was interrupted. -/
theorem Outcome.wellShaped_of_expansion_of_missing_heir :
    let g : Setting :=
      { source :=
          { view := (Store.fresh.run
              [.putAccount ⟨0, 0, 1001⟩ { key := .ed25519 [7, 8] }]).view fun _ => false }
        verifier := .ofStatus (fun _ => .valid) true }
    let t : ParsedTransaction :=
      { ref := .ofContents [], bodyBytes := [5], signatures := [⟨[7], .ed25519, [1]⟩]
        body :=
          { payer := ⟨0, 0, 1001⟩, validStart := 1000, nodeAccount := ⟨0, 0, 3⟩, memo := ""
            operation := .cryptoDelete (.byId ⟨0, 0, 1001⟩) (.byId ⟨0, 0, 2002⟩) } }
    let earlier : Outcome := .ofInterruption .start {}
    earlier.WellShaped (fun _ _ => False) ∧
      ∃ r, rationalize g t (some earlier) (.ofMap t.signatures) = .ok r ∧
        r.span.source = .reexpanded none ∧ r.span.outcome.stage = .failedAtOthers ∧
        ∃ key sigs, r.span.outcome.sigMeta = .payerOnly key sigs := by
  intro g t earlier
  have hearlier : earlier.WellShaped fun _ _ => False := wellShaped_ofInterruption _ _
  have hsource : spanSource g.source.view (some earlier) = .ok (.reexpanded none) := rfl
  have hr := rationalize_of_ne (t := t) (s := .ofMap t.signatures) hsource (by decide)
  have hstage : (g.expandAndVerify t (Supply.ofMap t.signatures).reset).outcome.stage =
      .failedAtOthers := rfl
  have hshape := wellShaped_of_expansion.2.1 g t (some earlier) _ _ (fun _ _ => False)
    (fun o ho => Option.some.inj ho ▸ hearlier) hr
  obtain ⟨key, sigs, -, hmeta⟩ := hshape.failedAtOthers hstage rfl
  exact ⟨hearlier, _, hr, rfl, hstage, key, sigs, hmeta⟩

end Countersign
