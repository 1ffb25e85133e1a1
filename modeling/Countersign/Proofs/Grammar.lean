import Countersign.Proofs.Lawful
import Countersign.Transaction.Parsed

/-!
# The grammar of transactions

Transaction bodies and signed transactions are read exactly from their encodings.  A key is a tree of
any depth; it is read within a bound for the depth, and a key within the bound is read as one of six
forms whose children are within a smaller bound.

## What is here

* `Key.depth`, `Key.codecWithin` — the keys within a bound for the depth.
* `Key.forms` — the six forms, and `Key.decodeWithin_succ`, which says that a key is one of them.
* `Operation.choice` — the operations stand in their positions.
* `Codec.Exact` — bytes are accepted just when they begin with an encoding.
* `ParsedTransaction.exact_ofContents` — bodies, signed transactions, and the contents of a
  transaction.
-/

set_option autoImplicit false

namespace Countersign

open Codec

/-! ## Entities -/

instance EntityId.lawful_codec : Lawful EntityId.codec := .iso (fun _ _ => rfl) fun _ => rfl

instance EntityId.roomy_codec : Roomy EntityId.codec := .iso _ _

theorem EntityId.fits_codec (id : EntityId) : EntityId.codec.fits id :=
  ⟨fits_uint64 _, fits_uint64 _, fits_uint64 _⟩

instance Alias.lawful_codec : Lawful Alias.codec := .iso (fun _ _ => rfl) fun _ => rfl

instance Alias.roomy_codec : Roomy Alias.codec := .iso _ _

instance Address.lawful_codec : Lawful Address.codec := by
  refine Choice.lawful ?_ (show 2 ≤ UInt32.size by decide)
  iterate 2
    refine .cons (fun _ => rfl) (fun x p h => ?_) (fun _ => rfl) ?_
    · split at h <;> cases h
      rfl
  exact .nil

instance Address.roomy_codec : Roomy Address.codec :=
  .variant fun x => by cases x <;> exact ⟨_, rfl, fits_alternative rfl⟩

/-! ## Keys -/

namespace Key

mutual

/-- The height of the tree. -/
def depth : Key → Nat
  | ed25519 _ => 1
  | ecdsaSecp256k1 _ => 1
  | contractId _ => 1
  | delegatableContractId _ => 1
  | threshold _ ks => depthOfAll ks + 1
  | keyList ks => depthOfAll ks + 1

def depthOfAll : List Key → Nat
  | [] => 0
  | k :: ks => max (depth k) (depthOfAll ks)

end

theorem depth_pos (k : Key) : 0 < k.depth := by
  cases k <;> simp [depth]

theorem depthOfAll_le_iff {ks : List Key} {d : Nat} :
    depthOfAll ks ≤ d ↔ ∀ k ∈ ks, k.depth ≤ d := by
  induction ks with
  | nil => simp [depthOfAll]
  | cons k ks ih => rw [depthOfAll, List.forall_mem_cons, ← ih, Nat.max_le]

theorem allFit_iff {ks : List Key} : allFit ks ↔ ∀ k ∈ ks, k.fits := by
  induction ks with
  | nil => simp [allFit]
  | cons k ks ih => rw [allFit, ih, List.forall_mem_cons]

theorem encodeAll_eq (ks : List Key) : encodeAll ks = ks.flatMap encode := by
  induction ks with
  | nil => rfl
  | cons k ks ih => rw [encodeAll, ih, List.flatMap_cons]

/-- The keys of at most the given depth. -/
def codecWithin (d : Nat) : Codec Key where
  encode := encode
  decode := decodeWithin d
  fits k := k.fits ∧ k.depth ≤ d

/-- The forms of a key, given a bound for the depth of its children. -/
def forms (d : Nat) : List (Codec Key) :=
  [alternative octets ed25519 fun | ed25519 pk => some pk | _ => none,
    alternative octets ecdsaSecp256k1 fun | ecdsaSecp256k1 pk => some pk | _ => none,
    alternative EntityId.codec contractId fun | contractId id => some id | _ => none,
    alternative EntityId.codec delegatableContractId fun
      | delegatableContractId id => some id
      | _ => none,
    alternative (pair uint32 (list (codecWithin d))) (fun (n, ks) => threshold n ks) fun
      | threshold n ks => some (n, ks)
      | _ => none,
    alternative (list (codecWithin d)) keyList fun | keyList ks => some ks | _ => none]

theorem encode_eq_forms (d : Nat) (k : Key) : encode k = (variant (forms d) position).encode k := by
  cases k with
  | ed25519 | ecdsaSecp256k1 | contractId | delegatableContractId => rfl
  | threshold n ks =>
    rw [encode, encodeAll_eq, List.append_assoc, List.append_assoc]
    rfl
  | keyList ks =>
    rw [encode, encodeAll_eq, List.append_assoc]
    rfl

theorem fits_list_iff {d : Nat} {ks : List Key} :
    (list (codecWithin d)).fits ks ↔ (length.fits ks.length ∧ allFit ks) ∧ depthOfAll ks ≤ d := by
  rw [allFit_iff, depthOfAll_le_iff, and_assoc, ← forall₂_and]
  rfl

theorem fits_forms_iff {d : Nat} {k : Key} :
    (variant (forms d) position).fits k ↔ k.fits ∧ k.depth ≤ d + 1 := by
  have hleaf : 1 ≤ d + 1 := Nat.succ_pos d
  cases k with
  | ed25519 pk | ecdsaSecp256k1 pk =>
    rw [fits_variant_iff rfl, depth]
    exact Iff.trans (fits_alternative_iff rfl) (and_iff_left hleaf).symm
  | contractId id | delegatableContractId id =>
    rw [fits_variant_iff rfl, depth]
    exact Iff.trans (fits_alternative_iff rfl) (iff_of_true id.fits_codec ⟨trivial, hleaf⟩)
  | threshold n ks =>
    have hpair : (pair uint32 (list (codecWithin d))).fits (n, ks) ↔
        (list (codecWithin d)).fits ks := and_iff_right (fits_uint32 n)
    rw [fits_variant_iff rfl, fits, depth, Nat.add_le_add_iff_right, ← fits_list_iff, ← hpair]
    exact fits_alternative_iff rfl
  | keyList ks =>
    rw [fits_variant_iff rfl, fits, depth, Nat.add_le_add_iff_right, ← fits_list_iff]
    exact fits_alternative_iff rfl

/-- **A key within a bound is one of six forms**, with its children within a smaller bound. -/
theorem decodeWithin_succ (d : Nat) (bs : Bytes) :
    decodeWithin (d + 1) bs = (variant (forms d) position).decode bs := by
  have hlist (rest : Bytes) : (list (codecWithin d)).decode rest =
      length.decode rest >>= fun p => decodeMany (decodeWithin d) p.1 p.2 := rfl
  rw [decodeWithin, decode_variant]
  rcases (word 4).decode bs with e | ⟨form, rest⟩
  · rfl
  match form with
  | 0 | 1 | 2 | 3 => rfl
  | 4 =>
    change (uint32.decode rest >>= fun n => length.decode n.2 >>= fun p =>
        decodeMany (decodeWithin d) p.1 p.2 >>= fun q => pure (threshold n.1 q.1, q.2)) =
      ((uint32.decode rest >>= fun n => (list (codecWithin d)).decode n.2 >>= fun q =>
        pure ((n.1, q.1), q.2)) >>= fun r => pure (threshold r.1.1 r.1.2, r.2))
    simp only [hlist, bind_assoc, pure_bind]
  | 5 =>
    change (length.decode rest >>= fun p =>
        decodeMany (decodeWithin d) p.1 p.2 >>= fun q => pure (keyList q.1, q.2)) =
      ((list (codecWithin d)).decode rest >>= fun q => pure (keyList q.1, q.2))
    simp only [hlist, bind_assoc]
  | n + 6 => rfl

/-- The forms of a key are lawful if the keys of a smaller depth are. -/
theorem choice_forms (d : Nat) [Lawful (codecWithin d)] : Choice position 0 (forms d) := by
  iterate 6
    refine .cons (fun _ => rfl) (fun k p h => ?_) (fun _ => rfl) ?_
    · split at h <;> cases h
      rfl
  exact .nil

instance lawful_codecWithin (d : Nat) : Lawful (codecWithin d) := by
  induction d with
  | zero =>
    constructor
    intro bs k rest
    have hdepth : ¬ (codecWithin 0).fits k := fun h => Nat.not_lt.2 h.2 k.depth_pos
    constructor
    · intro h
      cases h
    · rintro ⟨hk, -⟩
      exact absurd hk hdepth
  | succ d ih =>
    have hforms : Lawful (variant (forms d) position) :=
      (choice_forms d).lawful (show 6 ≤ UInt32.size by decide)
    constructor
    intro bs k rest
    change decodeWithin (d + 1) bs = _ ↔ (k.fits ∧ k.depth ≤ d + 1) ∧ bs = encode k ++ rest
    rw [decodeWithin_succ, hforms.decode_eq_ok_iff, fits_forms_iff, encode_eq_forms d]

mutual

/-- A key takes as many octets as its depth or more, so that a bound for the depth is never reached
before the end of the input. -/
theorem depth_le_length_encode : ∀ k : Key, k.depth ≤ (encode k).length
  | ed25519 _ => Nat.succ_pos _
  | ecdsaSecp256k1 _ => Nat.succ_pos _
  | contractId _ => Nat.succ_pos _
  | delegatableContractId _ => Nat.succ_pos _
  | threshold n ks => by
    have hks := depthOfAll_le_length_encodeAll ks
    have hform : ((word 4).encode 4).length = 4 := rfl
    simp only [depth, encode, List.length_append, hform]
    omega
  | keyList ks => by
    have hks := depthOfAll_le_length_encodeAll ks
    have hform : ((word 4).encode 5).length = 4 := rfl
    simp only [depth, encode, List.length_append, hform]
    omega

theorem depthOfAll_le_length_encodeAll : ∀ ks : List Key, depthOfAll ks ≤ (encodeAll ks).length
  | [] => Nat.zero_le _
  | k :: ks => by
    have hk := depth_le_length_encode k
    have hks := depthOfAll_le_length_encodeAll ks
    rw [depthOfAll, encodeAll, List.length_append]
    omega

end

instance lawful_codec : Lawful codec where
  decode_eq_ok_iff {bs k rest} := by
    change (codecWithin bs.length).decode bs = _ ↔ k.fits ∧ bs = encode k ++ rest
    rw [decode_eq_ok_iff]
    constructor
    · rintro ⟨⟨hfits, -⟩, hbs⟩
      exact ⟨hfits, hbs⟩
    · rintro ⟨hfits, hbs⟩
      have hlength : (encode k).length ≤ bs.length := by rw [hbs]; simp
      exact ⟨⟨hfits, Nat.le_trans k.depth_le_length_encode hlength⟩, hbs⟩

theorem encode_ne_nil (k : Key) : encode k ≠ [] :=
  List.length_pos_iff.1 (Nat.lt_of_lt_of_le k.depth_pos k.depth_le_length_encode)

theorem length_le_length_encodeAll (ks : List Key) : ks.length ≤ (encodeAll ks).length := by
  rw [encodeAll_eq]
  exact length_le_length_flatMap encode_ne_nil ks

mutual

theorem fits_of_length_lt : ∀ {k : Key}, (encode k).length < Bytes.room 8 → k.fits
  | ed25519 pk, h => by
    rw [encode, List.length_append] at h
    exact Roomy.fits_of_length_lt (c := octets) (Nat.lt_of_le_of_lt (Nat.le_add_left _ _) h)
  | ecdsaSecp256k1 pk, h => by
    rw [encode, List.length_append] at h
    exact Roomy.fits_of_length_lt (c := octets) (Nat.lt_of_le_of_lt (Nat.le_add_left _ _) h)
  | contractId _, _ => trivial
  | delegatableContractId _, _ => trivial
  | threshold _ ks, h => by
    rw [encode, List.length_append] at h
    have hks := Nat.lt_of_le_of_lt (Nat.le_add_left _ _) h
    exact ⟨Nat.lt_of_le_of_lt (length_le_length_encodeAll ks) hks, allFit_of_length_lt hks⟩
  | keyList ks, h => by
    rw [encode, List.length_append] at h
    have hks := Nat.lt_of_le_of_lt (Nat.le_add_left _ _) h
    exact ⟨Nat.lt_of_le_of_lt (length_le_length_encodeAll ks) hks, allFit_of_length_lt hks⟩

theorem allFit_of_length_lt : ∀ {ks : List Key}, (encodeAll ks).length < Bytes.room 8 → allFit ks
  | [], _ => trivial
  | k :: ks, h => by
    rw [encodeAll, List.length_append] at h
    exact ⟨fits_of_length_lt (by omega), allFit_of_length_lt (by omega)⟩

end

instance roomy_codec : Roomy codec where
  encode_ne_nil := encode_ne_nil
  fits_of_length_lt := fits_of_length_lt

end Key

/-! ## Operations -/

instance AccountAmount.lawful_codec : Lawful AccountAmount.codec := .iso (fun _ _ => rfl) fun _ => rfl

instance AccountAmount.roomy_codec : Roomy AccountAmount.codec := .iso _ _

instance NftTransfer.lawful_codec : Lawful NftTransfer.codec := .iso (fun _ _ => rfl) fun _ => rfl

instance NftTransfer.roomy_codec : Roomy NftTransfer.codec := .iso _ _

instance TokenTransfers.lawful_codec : Lawful TokenTransfers.codec :=
  .iso (fun _ _ => rfl) fun _ => rfl

instance TokenTransfers.roomy_codec : Roomy TokenTransfers.codec := .iso _ _

instance AllowanceGrant.lawful_codec : Lawful AllowanceGrant.codec :=
  .iso (fun _ _ => rfl) fun _ => rfl

instance AllowanceGrant.roomy_codec : Roomy AllowanceGrant.codec := .iso _ _

instance ContractUpdate.lawful_codec : Lawful ContractUpdate.codec :=
  .iso (fun _ _ => rfl) fun _ => rfl

instance ContractUpdate.roomy_codec : Roomy ContractUpdate.codec := .iso _ _

instance TopicUpdate.lawful_codec : Lawful TopicUpdate.codec := .iso (fun _ _ => rfl) fun _ => rfl

instance TopicUpdate.roomy_codec : Roomy TopicUpdate.codec := .iso _ _

instance TokenAction.lawful_codec : Lawful TokenAction.codec :=
  lawful_enumeration (by decide) (show 11 ≤ UInt32.size by decide)

instance TokenAction.roomy_codec : Roomy TokenAction.codec :=
  roomy_enumeration fun x => by cases x <;> decide

/-- **The operations stand in their positions**, and each is taken apart as it is built. -/
theorem Operation.choice_alternatives : Choice position 0 alternatives := by
  iterate 25
    refine .cons (fun _ => rfl) (fun op p h => ?_) (fun _ => rfl) ?_
    · split at h <;> cases h
      rfl
  exact .nil

instance Operation.lawful_codec : Lawful Operation.codec :=
  choice_alternatives.lawful (show 25 ≤ UInt32.size by decide)

instance Operation.roomy_codec : Roomy Operation.codec :=
  .variant fun op => by cases op <;> exact ⟨_, rfl, fits_alternative rfl⟩

/-! ## Bodies and signed transactions -/

instance Body.lawful_codec : Lawful Body.codec := .iso (fun _ _ => rfl) fun _ => rfl

instance Body.roomy_codec : Roomy Body.codec := .iso _ _

instance Scheme.lawful_enumeration : Lawful (enumeration Scheme.all) :=
  Codec.lawful_enumeration (by decide) (show 2 ≤ UInt32.size by decide)

instance Scheme.roomy_enumeration : Roomy (enumeration Scheme.all) :=
  Codec.roomy_enumeration fun x => by cases x <;> decide

instance SignaturePair.lawful_codec : Lawful SignaturePair.codec :=
  .iso (fun _ _ => rfl) fun _ => rfl

instance SignaturePair.roomy_codec : Roomy SignaturePair.codec := .iso _ _

instance SignedTransaction.lawful_codec : Lawful SignedTransaction.codec :=
  .iso (fun _ _ => rfl) fun _ => rfl

instance SignedTransaction.roomy_codec : Roomy SignedTransaction.codec := .iso _ _

/-! ## Whole encodings -/

/-- Values are read from exactly the byte strings that begin with their encodings.  All lengths below
`UInt64.size` can be written, so that every value fits whose encoding is shorter. -/
structure Codec.Exact {α : Type} (fits : α → Prop) (toBytes : α → Bytes)
    (ofBytes : Bytes → Except WireError α) : Prop where
  accepts_iff : ∀ bs x, ofBytes bs = .ok x ↔ fits x ∧ ∃ tail, bs = toBytes x ++ tail
  fits_of_short : ∀ x, (toBytes x).length < UInt64.size → fits x
  accepts_short_iff : ∀ bs x, bs.length < UInt64.size →
    (ofBytes bs = .ok x ↔ ∃ tail, bs = toBytes x ++ tail)
  round_trip : ∀ x, (toBytes x).length < UInt64.size → ofBytes (toBytes x) = .ok x
  eq_of_prefix : ∀ x y, (toBytes y).length < UInt64.size → toBytes x <+: toBytes y → x = y
  rejects : ∀ x bs, (toBytes x).length < UInt64.size → bs <+: toBytes x → bs ≠ toBytes x →
    ∃ e, ofBytes bs = .error e

theorem Codec.exact_of_lawful {α : Type} (c : Codec α) [Lawful c] [Roomy c] :
    Exact c.fits c.encode fun bs => (c.decode bs).map Prod.fst := by
  have accepts_iff (bs : Bytes) (x : α) :
      (c.decode bs).map Prod.fst = .ok x ↔ c.fits x ∧ ∃ tail, bs = c.encode x ++ tail := by
    simp only [map_eq_ok_iff, Prod.exists, exists_and_right, exists_eq_right, decode_eq_ok_iff,
      exists_and_left]
  have fits_of_short (x : α) (h : (c.encode x).length < UInt64.size) : c.fits x :=
    fits_of_length_lt h
  have fits_of_begins {x : α} {bs : Bytes} (hbs : bs.length < UInt64.size) (h : c.encode x <+: bs) :
      c.fits x := fits_of_short x (Nat.lt_of_le_of_lt h.length_le hbs)
  have round_trip (x : α) (h : (c.encode x).length < UInt64.size) :
      (c.decode (c.encode x)).map Prod.fst = .ok x :=
    (accepts_iff _ x).2 ⟨fits_of_short x h, [], (List.append_nil _).symm⟩
  have eq_of_prefix (x y : α) (h : (c.encode y).length < UInt64.size)
      (hxy : c.encode x <+: c.encode y) : x = y := by
    obtain ⟨tail, htail⟩ := id hxy
    have hx := (accepts_iff (c.encode y) x).2 ⟨fits_of_begins h hxy, tail, htail.symm⟩
    exact Except.ok.inj (hx.symm.trans (round_trip y h))
  refine ⟨accepts_iff, fits_of_short, fun bs x hbs => ?_, round_trip, eq_of_prefix,
    fun x bs h hcut hne => ?_⟩
  · rw [accepts_iff]
    refine and_iff_right_of_imp ?_
    rintro ⟨tail, htail⟩
    exact fits_of_begins hbs ⟨tail, htail.symm⟩
  · -- what is accepted begins with an encoding, which would be a proper prefix of that of `x`
    rcases hbs : (c.decode bs).map Prod.fst with e | y
    · exact ⟨e, rfl⟩
    · obtain ⟨-, tail, htail⟩ := (accepts_iff bs y).1 hbs
      have hy : c.encode y <+: bs := ⟨tail, htail.symm⟩
      obtain rfl := eq_of_prefix y x h (hy.trans hcut)
      exact absurd (hcut.eq_of_length_le hy.length_le) hne

theorem ParsedTransaction.ofContents_eq_ok_iff {contents : Bytes} {t : ParsedTransaction} :
    ParsedTransaction.ofContents contents = .ok t ↔
      t.ref = .ofContents contents ∧
        SignedTransaction.ofBytes contents = .ok ⟨t.bodyBytes, t.signatures⟩ ∧
        Body.ofBytes t.bodyBytes = .ok t.body := by
  simp only [ofContents, bind_eq_ok_iff]
  constructor
  · rintro ⟨signed, hsigned, body, hbody, h⟩
    obtain rfl := Except.ok.inj h
    exact ⟨rfl, hsigned, hbody⟩
  · rintro ⟨href, hsigned, hbody⟩
    refine ⟨_, hsigned, t.body, hbody, ?_⟩
    rw [← href]
    rfl

/-- **The wire format of transactions accepts exactly its grammar**, for bodies and for signed
transactions.  The contents of a transaction are accepted just when they begin with a signed
transaction whose octets begin with a body, and these octets are kept as they are. -/
theorem ParsedTransaction.exact_ofContents :
    Codec.Exact Body.codec.fits Body.toBytes Body.ofBytes ∧
      Codec.Exact SignedTransaction.codec.fits SignedTransaction.toBytes
        SignedTransaction.ofBytes ∧
      ∀ (contents : Bytes) (t : ParsedTransaction), contents.length < UInt64.size →
        (ParsedTransaction.ofContents contents = .ok t ↔
          t.ref = .ofContents contents ∧
            ∃ tail rest,
              contents = SignedTransaction.toBytes ⟨t.bodyBytes, t.signatures⟩ ++ tail ∧
                t.bodyBytes = t.body.toBytes ++ rest) := by
  have hbody : Codec.Exact Body.codec.fits Body.toBytes Body.ofBytes := exact_of_lawful Body.codec
  have hsigned : Codec.Exact SignedTransaction.codec.fits SignedTransaction.toBytes
      SignedTransaction.ofBytes := exact_of_lawful SignedTransaction.codec
  refine ⟨hbody, hsigned, fun contents t hcontents => ?_⟩
  rw [ofContents_eq_ok_iff, hsigned.accepts_short_iff contents _ hcontents]
  refine and_congr_right fun _ => ?_
  constructor
  · rintro ⟨⟨tail, htail⟩, h⟩
    obtain ⟨-, rest, hrest⟩ := (hbody.accepts_iff _ _).1 h
    exact ⟨tail, rest, htail, hrest⟩
  · rintro ⟨tail, rest, htail, hrest⟩
    -- the octets of the body are a part of the contents
    have hlength : t.bodyBytes.length < UInt64.size := by
      have haccepted := (hsigned.accepts_short_iff contents _ hcontents).2 ⟨tail, htail⟩
      exact ((hsigned.accepts_iff contents _).1 haccepted).1.1
    exact ⟨⟨tail, htail⟩, (hbody.accepts_short_iff _ _ hlength).2 ⟨rest, hrest⟩⟩

/-- A body with a key of three public keys is read back, whatever follows it. -/
theorem ParsedTransaction.exact_ofContents_fileCreate :
    let body : Body :=
      { payer := ⟨0, 0, 1001⟩, validStart := 1000, nodeAccount := ⟨0, 0, 3⟩, memo := ""
        operation := .fileCreate
          (.threshold 1 [.keyList [.ed25519 [1], .ecdsaSecp256k1 [2]], .ed25519 [3]]) [4] }
    let signed : SignedTransaction := ⟨body.toBytes ++ [5], []⟩
    body.toBytes.length < UInt64.size ∧ Body.ofBytes body.toBytes = .ok body ∧
      (signed.toBytes ++ [6]).length < UInt64.size ∧
      ParsedTransaction.ofContents (signed.toBytes ++ [6]) = .ok
        { ref := .ofContents (signed.toBytes ++ [6]), bodyBytes := body.toBytes ++ [5], body
          signatures := [] } := by
  intro body signed
  have hbody : body.toBytes.length < UInt64.size := by decide +kernel
  have hsigned : (signed.toBytes ++ [6]).length < UInt64.size := by decide +kernel
  exact ⟨hbody, exact_ofContents.1.round_trip body hbody, hsigned,
    (exact_ofContents.2.2 _ _ hsigned).2 ⟨rfl, [6], [5], rfl, rfl⟩⟩

end Countersign
