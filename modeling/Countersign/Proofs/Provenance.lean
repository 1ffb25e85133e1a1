import Countersign.Proofs.Drawing
import Countersign.Proofs.History

/-!
# Where the signatures of an answer come from

Whether an answer is that of an expansion made when the transaction arrived, or of a new one, its
platform signatures are drawn from the pairs that the transaction carries, each from a pair of its
own, and stamped by the verifier.

## What is here

* `Verifier.StampsOnly` — the verifier changes nothing but statuses.
* `Setting.provenance` — the signatures of one expansion with verification.
* `Node.provenance_of_handle` — the signatures of an answer, after any history.
-/

set_option autoImplicit false

namespace Countersign

namespace PlatformSignature

/-- The platform signature before it is verified. -/
def unverified (s : PlatformSignature) : PlatformSignature :=
  { s with status := .unknown }

theorem unverified_of_unknown {s : PlatformSignature} (h : s.status = .unknown) :
    s.unverified = s := by
  rw [unverified, ← h]

/-- What a signature is made of does not depend on its status. -/
theorem DrawnFrom.of_unverified {s : PlatformSignature} {message : Bytes} {p : SignaturePair}
    (h : s.unverified.DrawnFrom message p) : s.DrawnFrom message p :=
  ⟨h.fits, h.signature_eq, h.message_eq⟩

end PlatformSignature

/-! ## Verifiers that stamp -/

namespace Verifier

/-- The verifier takes a batch as it is and changes nothing but the statuses. -/
def StampsOnly (f : Verifier) : Prop :=
  ∀ batch, (f.verify batch).map PlatformSignature.unverified =
    batch.map PlatformSignature.unverified

theorem stampsOnly_ofStatus (statusOf : PlatformSignature → VerificationStatus) (counted : Bool) :
    (ofStatus statusOf counted).StampsOnly := by
  intro batch
  rw [ofStatus, List.map_map]
  rfl

theorem stampsOnly_crypto : crypto.StampsOnly :=
  stampsOnly_ofStatus _ true

end Verifier

/-! ## One expansion -/

/-- Every signature is drawn from a pair of its own among those that the transaction carries, and the
statuses are what the verifier makes of the batch. -/
structure Provenance (verifier : Verifier) (t : ParsedTransaction)
    (sigs : List PlatformSignature) : Prop where
  drawn : ∃ f : Fin sigs.length → Fin t.signatures.length, Function.Injective f ∧
    ∀ i, (sigs.get i).DrawnFrom t.bodyBytes (t.signatures.get (f i))
  stamped : sigs = verifier.verify (sigs.map PlatformSignature.unverified)

theorem Setting.provenance {g : Setting} (hstamps : g.verifier.StampsOnly) {t : ParsedTransaction}
    {sigs : List PlatformSignature}
    (h : (g.expandAndVerify t (.ofMap t.signatures)).outcome.sigMeta.signatures? = some sigs) :
    Provenance g.verifier t sigs := by
  obtain ⟨batch, hbatch, rfl⟩ := Option.map_eq_some_iff.1 h
  obtain ⟨s', drawn, hdraws⟩ := Expansion.exists_draws_run t.bodyBytes rfl hbatch
  have hbare : (g.verifier.verify batch).map PlatformSignature.unverified = batch := by
    rw [hstamps batch]
    exact (List.map_congr_left fun sig hsig =>
      PlatformSignature.unverified_of_unknown (hdraws.status sig hsig)).trans (List.map_id _)
  have hsource := hdraws.source
  rw [← hbare, List.forall₂_map_left_iff, Supply.map_ofMap] at hsource
  refine ⟨exists_injective_of_drawn hdraws.nodup (hsource.imp ?_), by rw [hbare]⟩
  rintro sig i ⟨p, hp, hfrom⟩
  exact ⟨p, hp, hfrom.of_unverified⟩

/-! ## An answer -/

/-- **Where the signatures of an answer come from.**  Whatever has happened to a node, a successful
answer goes back to contents with the identity asked for, which are being handled or have arrived.
Its signatures come from the pairs which these contents carry, no two from the same pair, and cover
the body which they carry.  The statuses are those that the verifier gives. -/
theorem Node.provenance_of_handle {config : ServiceConfig} {verifier : Verifier}
    (hstamps : verifier.StampsOnly) {events : List Event} {contents : Bytes} {a : Handled}
    (h : (((new config verifier).run events).step (.handle contents)).1 = .handled (.ok a))
    {sigs : List PlatformSignature} (hsigs : a.span.outcome.sigMeta.signatures? = some sigs) :
    ∃ carried,
      (carried = contents ∨
        .track carried ∈ events ∧ TxnRef.ofContents carried = .ofContents contents) ∧
      ParsedTransaction.ofContents carried = .ok a.transaction ∧
      Provenance verifier a.transaction sigs ∧
      ((∀ batch, ∀ s ∈ verifier.verify batch, s.status ≠ .unknown) →
        ∀ s ∈ sigs, s.status ≠ .unknown) := by
  obtain ⟨n, carried, -, hverifier, hcarried, hparse, hout⟩ :=
    exists_expanded_of_handle (Reply.handled.inj h)
  rw [hout] at hsigs
  have hprov : Provenance verifier a.transaction sigs := by
    have hn : (n.service.setting n.view).verifier = verifier := hverifier
    rw [← hn] at hstamps ⊢
    exact Setting.provenance hstamps hsigs
  refine ⟨carried, hcarried, hparse, hprov, fun hverdict s hs => ?_⟩
  rw [hprov.stamped] at hs
  exact hverdict _ s hs

/-! ## A specimen -/

namespace Specimen

/-- The body of a transaction that its payer alone has to sign. -/
def body : Body where
  payer := ⟨0, 0, 1001⟩
  validStart := 1000
  nodeAccount := ⟨0, 0, 3⟩
  memo := ""
  operation := .tokenAssociate (.byId ⟨0, 0, 1001⟩) []

/-- Its contents carry one signature, with the first octet of a public key. -/
def contents : Bytes :=
  (SignedTransaction.ofBody body [⟨[7], .ed25519, [1]⟩]).toBytes

def transaction : ParsedTransaction where
  ref := .ofContents contents
  bodyBytes := body.toBytes
  body := body
  signatures := [⟨[7], .ed25519, [1]⟩]

theorem ofContents_contents : ParsedTransaction.ofContents contents = .ok transaction := by
  rfl

def verifier : Verifier := .ofStatus (fun _ => .valid) true

/-- The payer comes to hold a key that the signature may belong to. -/
def events : List Event :=
  [.mutate (.putAccount ⟨0, 0, 1001⟩ { key := .ed25519 [7, 8] })]

def node : Node := (Node.new {} verifier).run events

theorem signatures_expanded :
    (node.expanded transaction).sigMeta.signatures? = some
      [{ scheme := .ed25519, publicKey := [7, 8], signature := [1], message := body.toBytes
         status := .valid }] := by
  rfl

end Specimen

open Specimen in
/-- The specimen is handled without having arrived before. -/
theorem Node.provenance_of_handle_specimen :
    verifier.StampsOnly ∧
      ∃ a sigs, (node.step (.handle contents)).1 = .handled (.ok a) ∧
        a.span.outcome.sigMeta.signatures? = some sigs ∧ sigs.length = 1 ∧
        Provenance verifier a.transaction sigs := by
  have hstamps : verifier.StampsOnly := Verifier.stampsOnly_ofStatus _ true
  have hanswer : (node.step (.handle contents)).1 = .handled (.ok
      { transaction
        span :=
          { outcome := node.expanded transaction, usedSyncVerification := true
            source := .uncached } }) := by
    have hwait : node.service.cache.spans.find? (.ofContents contents) = none := rfl
    rw [step_handle_fst, answer_eq, hwait, ofContents_contents]
    rfl
  obtain ⟨-, -, -, hprov, -⟩ := provenance_of_handle hstamps hanswer signatures_expanded
  exact ⟨hstamps, _, _, hanswer, signatures_expanded, rfl, hprov⟩

end Countersign
