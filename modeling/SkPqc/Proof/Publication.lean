import SkPqc.Proof.Fanout
import SkPqc.Proof.SuiteGate

/-!
# Prekeys in a directory

A peer publishes the dictionary view of its bundle, and whoever wants to write to it reads a record of it. On the way
the record may be printed, parsed, reordered and extended; the bundle that is read is the one that was published
(`fromDict_of_publishes`), and it serves both formats. A directory may also answer with another record. Then what is
sealed goes to the key of that record, and its owner alone.
-/

namespace SkPqc
namespace Pqdm

open Wire Pqkem

/-! ### Records of a bundle -/

/-- The bundle of a hybrid peer: `PrekeyBundle(HYBRID_SUITE, hybrid_public_hex, signature, key_id)`. -/
def offer (hybridPublicHex : Str) (signature keyId : Option Str) : PrekeyBundle :=
  { suite := .str hybridSuite, hybridPublicHex := .str hybridPublicHex, signature := optional signature,
    keyId := optional keyId }

/-- A record with every field of the bundle's dictionary view. Its members may stand in any order, with others. -/
def Publishes (record : List (Str × Json)) (bundle : PrekeyBundle) : Prop := Json.SameMembers bundle.toDict record

theorem eq_of_same_str {s : Str} {v : Json} (h : Json.Same (.str s) v) : v = .str s := by
  cases v with
  | str s' => exact congrArg Json.str (Eq.symm h)
  | _ => exact h.elim

theorem eq_of_same_optional {o : Option Str} {v : Json} (h : Json.Same (optional o) v) : v = optional o := by
  cases o with
  | none =>
    cases v with
    | null => rfl
    | _ => exact h.elim
  | some s => exact eq_of_same_str h

section Record
variable {record : List (Str × Json)} {publicHex : Str} {signature keyId : Option Str}

theorem lookups_of_publishes (h : Publishes record (offer publicHex signature keyId)) :
    lookup (str "suite") record = some (.str hybridSuite) ∧
      lookup (str "hybrid_public_hex") record = some (.str publicHex) ∧
      lookup (str "signature") record = some (optional signature) ∧
      lookup (str "key_id") record = some (optional keyId) := by
  obtain ⟨⟨v, hv, hsuite⟩, ⟨w, hw, hhex⟩, ⟨x, hx, hsignature⟩, ⟨y, hy, hkeyId⟩, -⟩ := h
  rw [hv, hw, hx, hy, eq_of_same_str hsuite, eq_of_same_str hhex, eq_of_same_optional hsignature,
    eq_of_same_optional hkeyId]
  exact ⟨rfl, rfl, rfl, rfl⟩

/-- The bundle that is read is the one that was published. -/
theorem fromDict_of_publishes (h : Publishes record (offer publicHex signature keyId)) :
    PrekeyBundle.fromDict (some record) = offer publicHex signature keyId := by
  obtain ⟨hsuite, hhex, hsignature, hkeyId⟩ := lookups_of_publishes h
  have hempty : (if truthy (.str publicHex) then Json.str publicHex else .str []) = .str publicHex := by
    by_cases hne : publicHex = []
    · rw [hne, ite_self]
    · have htruthy : truthy (.str publicHex) = true := decide_eq_true hne
      rw [if_pos htruthy]
  cases record with
  | nil => cases hsuite
  | cons m ms =>
    simp only [PrekeyBundle.fromDict, Option.getD_some, hsuite, hhex, hsignature, hkeyId, hempty]
    rfl

theorem plain_optional {o : Option Str} (h : ∀ s ∈ o, Scalar s) : (optional o).Plain := by
  cases o with
  | none => trivial
  | some s => exact h s rfl

/-- The view printed as JSON is parsed as a record of the bundle. -/
theorem exists_publishes_of_text (P : Primitives) (hhex : Scalar publicHex) (hsignature : ∀ s ∈ signature, Scalar s)
    (hkeyId : ∀ s ∈ keyId, Scalar s) :
    ∃ record, P.jsonLoads (Json.dumps (.obj (offer publicHex signature keyId).toDict)) = .ok (.obj record) ∧
      Publishes record (offer publicHex signature keyId) := by
  have hplain : Json.Plain (.obj (offer publicHex signature keyId).toDict) := by
    refine ⟨by simp only [PrekeyBundle.toDict, List.map_cons, List.map_nil]; decide, ?_⟩
    simp only [PrekeyBundle.toDict, offer, Json.PlainMembers, and_true]
    exact ⟨⟨scalar_str _, scalar_str _⟩, ⟨scalar_str _, hhex⟩, ⟨scalar_str _, plain_optional hsignature⟩, scalar_str _,
      plain_optional hkeyId⟩
  refine ⟨_, ofOption_eq_ok.mpr (Json.loads_dumps P.floatText hplain), ?_⟩
  have hsame := (Json.same_iff_sortKeys_eq hplain hplain.sortKeys).mpr ?_
  · exact hsame.2
  · exact ((Json.same_iff_sortKeys_eq hplain.sortKeys hplain).mp (Json.same_sortKeys hplain)).symm

end Record

/-! ### The published key -/

theorem isAscii_hexDigit : ∀ n < 16, isAscii (hexDigit n) = true := by decide

theorem scalar_hex (b : Bytes) : Scalar (hex b) := by
  apply scalar_of_isAscii
  rw [List.all_eq_true]
  intro c hc
  obtain ⟨x, -, hc⟩ := List.mem_flatMap.mp hc
  have hx := x.toNat_lt
  simp only [List.mem_cons, List.not_mem_nil, or_false] at hc
  rcases hc with rfl | rfl
  · exact isAscii_hexDigit _ (by omega)
  · exact isAscii_hexDigit _ (by omega)

theorem generateHybridKeypair_eq_ok {P : Primitives} {coins : KeypairCoins} {publicHex privateHex : Str}
    (h : generateHybridKeypair P coins = .ok (publicHex, privateHex)) :
    ∃ pub priv, IsKeypair P priv pub ∧ publicHex = hex pub ∧ privateHex = hex priv := by
  obtain ⟨kp, hkp, hret⟩ := bind_eq_ok.mp h
  cases hret
  exact ⟨kp.publicKey, kp.privateKey, ⟨coins, hkp⟩, rfl, rfl⟩

section Published
variable {P : Primitives} {record : List (Str × Json)} {signature keyId : Option Str}

theorem advertisesKey_of_publishes {pub : BytesN publicKeyLen}
    (h : Publishes record (offer (hex pub) signature keyId)) : AdvertisesKey record pub := by
  obtain ⟨hsuite, hhex, -, -⟩ := lookups_of_publishes h
  exact ⟨hsuite, hex pub, hhex, fromHex_hex _⟩

/-- A seal to the key of a record is opened with the private key of that key. -/
theorem openSealed_of_advertises (hkem : P.KemCorrect) (haead : P.AeadCorrect) {pub : BytesN publicKeyLen}
    {priv : BytesN privateKeyLen} (hkey : IsKeypair P priv pub) {bundle : PrekeyBundle} (hpub : bundle.Advertises pub)
    {coins : SealCoins} {plaintext blob : Bytes} {sender recipient : Str}
    (hseal : Pqdm.seal P coins plaintext bundle sender recipient = .ok blob) :
    openSealed P (.bytes blob) (.bytes priv) sender recipient hybridSuite = .ok plaintext := by
  obtain ⟨pub', aad, ct, ss, body, -, hpub', haad, hencap, hbody, rfl⟩ := seal_eq_ok.mp hseal
  cases (PrekeyBundle.hybridPublic_of_advertises hpub).symm.trans hpub'
  have htag : aesgcmTagLen ≤ body.length := haead.tag_le hbody
  rw [openSealed_append ct coins.nonce htag, haad, ok_bind, hybridDecap_hybridEncap hkem hkey hencap, ok_bind,
    haead.decrypt_encrypt _ _ _ _ _ hbody, tryExcept_ok]

/-- A generated key is published as text and read by whoever wants to write to its owner: from the record, whatever
its order of members and whatever else it holds, the same bundle comes back, the hybrid suite is negotiated, and both a
seal to the bundle and a fanout seal to the record itself are opened with the private key. -/
theorem opens_of_published (hkem : P.KemCorrect) (haead : P.AeadCorrect) {kcoins : KeypairCoins}
    {publicHex privateHex : Str} (hgen : generateHybridKeypair P kcoins = .ok (publicHex, privateHex))
    (signature keyId : Option Str) :
    ((∀ s ∈ signature, Scalar s) → (∀ s ∈ keyId, Scalar s) → ∃ record,
        P.jsonLoads (Json.dumps (.obj (offer publicHex signature keyId).toDict)) = .ok (.obj record) ∧
        Publishes record (offer publicHex signature keyId)) ∧
      ∀ record, Publishes record (offer publicHex signature keyId) →
        PrekeyBundle.fromDict (some record) = offer publicHex signature keyId ∧
        negotiateSuite true (.fromDict (some record)) = hybridSuite ∧
        (∃ priv, bytesFromhex (.str privateHex) = .ok priv ∧ ∀ coins plaintext sender recipient blob,
          Pqdm.seal P coins plaintext (.fromDict (some record)) sender recipient = .ok blob →
          openSealed P (.bytes blob) (.bytes priv) sender recipient hybridSuite = .ok plaintext) ∧
        ∀ kid, keyId = some kid → ∀ recipients, recipients.find? (fun r => keyIdOf r = some kid) = some record →
          ∀ coins body sender recipientId token, sealMulti P coins body recipients sender recipientId = .ok token →
            openMulti P token kid privateHex sender recipientId = .ok (some body) := by
  obtain ⟨pub, priv, hkey, rfl, rfl⟩ := generateHybridKeypair_eq_ok hgen
  refine ⟨exists_publishes_of_text P (scalar_hex _), fun record h => ?_⟩
  have hpub : AdvertisesKey record pub := advertisesKey_of_publishes h
  have hadvertises := advertises_fromDict.mpr hpub
  refine ⟨fromDict_of_publishes h, ?_, ⟨priv, bytesFromhex_eq_ok.mpr ⟨_, rfl, fromHex_hex _⟩, ?_⟩, ?_⟩
  · exact negotiateSuite_eq_hybridSuite.mpr ⟨rfl, hadvertises.1⟩
  · intro coins plaintext sender recipient blob hseal
    exact openSealed_of_advertises hkem haead hkey hadvertises hseal
  · intro kid hkid recipients hfind coins body sender recipientId token hseal
    obtain ⟨e, rfl, hseals⟩ := exists_envelope haead hseal
    exact hseals.openMulti_admits hkem haead ⟨record, pub, priv, hfind, hpub.2, fromHex_hex _, hkey⟩

end Published

/-! ### Records of others -/

section Substituted
variable {P : Primitives} {record : List (Str × Json)} {coins : SealCoins}

/-- The encapsulation inside a seal to the key of a record. -/
def SealEncaps (P : Primitives) (coins : SealCoins) (record : List (Str × Json)) (pub : BytesN publicKeyLen)
    (ct : BytesN ciphertextLen) (ss : BytesN 32) : Prop :=
  HasPublicKey record pub ∧ hybridEncap P coins.encap (.bytes pub) hkdfInfo = .ok (ct, ss)

/-- What the wrap keys are derived from, in a seal to the key of a record and in an open of it. -/
def SealInputs (P : Primitives) (coins : SealCoins) (record : List (Str × Json)) (priv : BytesN privateKeyLen)
    (aad : Bytes) : Set HkdfInput :=
  {i | ∃ pub ct ss, SealEncaps P coins record pub ct ss ∧ (i = wrapKeyInput ss aad ∨
    ∃ ss', hybridDecap P (.bytes ct) (.bytes priv) hkdfInfo = .ok ss' ∧ i = wrapKeyInput ss' aad)}

/-- Whatever record a sender was given, what it seals under it goes to the key of the record: the owner of that key
opens it, and an open with any other private key, such as that of the peer whose record was replaced, detects it. -/
theorem openSealed_of_record (hkem : P.KemCorrect) (haead : P.AeadCorrect) {plaintext blob : Bytes}
    {sender recipient : Str}
    (hseal : Pqdm.seal P coins plaintext (.fromDict (some record)) sender recipient = .ok blob) :
    negotiateSuite true (.fromDict (some record)) = hybridSuite ∧
      ∃ pub, AdvertisesKey record pub ∧ ∀ priv : BytesN privateKeyLen,
        (IsKeypair P priv pub →
          openSealed P (.bytes blob) (.bytes priv) sender recipient hybridSuite = .ok plaintext) ∧
        (¬IsKeypair P priv pub →
          P.AeadSound (SealMakes P coins plaintext (.fromDict (some record)) sender recipient) →
          KemDiffers P (SealEncaps P coins record) priv →
          Set.InjOn P.hkdf (SealInputs P coins record priv (sealAad sender recipient)) →
          ∃ msg, openSealed P (.bytes blob) (.bytes priv) sender recipient hybridSuite
            = .error ⟨.downgradeDetected, msg⟩) := by
  obtain ⟨pub, aad, ct, ss, body, hhybrid, hpub, haad, hencap, hbody, hblob⟩ := seal_eq_ok.mp hseal
  cases (downgradeLockAad_eq_sealAad sender recipient).symm.trans haad
  have hadvertises : (PrekeyBundle.fromDict (some record)).Advertises pub := by
    obtain ⟨-, v, hv, htruthy⟩ := isHybrid_fromDict.mp hhybrid
    by_cases huntyped : (PrekeyBundle.fromDict (some record)).Untyped
    · rw [PrekeyBundle.hybridPublic_untyped huntyped] at hpub
      cases hpub
    · have hends := PrekeyBundle.ends_hybridPublic hhybrid huntyped
      rw [hpub] at hends
      exact hends.of_ok
  have hrecord : AdvertisesKey record pub := advertises_fromDict.mp hadvertises
  refine ⟨negotiateSuite_eq_hybridSuite.mpr ⟨rfl, hhybrid⟩, pub, hrecord, fun priv => ⟨?_, ?_⟩⟩
  · intro hkey
    exact openSealed_of_advertises hkem haead hkey hadvertises hseal
  · intro hnot hsound hdiffers hhkdf
    obtain ⟨ss', hdecap, hne⟩ := hdiffers pub ct ss ⟨hrecord.2, hencap⟩ hnot
    have htag : aesgcmTagLen ≤ body.length := haead.tag_le hbody
    rw [hblob, openSealed_append ct coins.nonce htag, haad, ok_bind, hdecap, ok_bind]
    cases hopen : P.decrypt (wrapKey P ss' (sealAad sender recipient)) coins.nonce body (sealAad sender recipient) with
    | error e =>
      rw [tryExcept_exception]
      exact ⟨_, rfl⟩
    | ok data =>
      -- the body opens under the wrap key of the encapsulated secret only
      obtain ⟨hkeys, -, -⟩ := hsound _ _ _ _ ⟨pub, ct, ss, hpub, haad, hencap, rfl, rfl, hbody⟩ _ _ _ _ hopen
      have hinput := hhkdf ⟨pub, ct, ss, ⟨hrecord.2, hencap⟩, .inr ⟨ss', hdecap, rfl⟩⟩
        ⟨pub, ct, ss, ⟨hrecord.2, hencap⟩, .inl rfl⟩ (BytesN.ext hkeys)
      exact absurd (BytesN.ext (congrArg HkdfInput.ikm hinput)) hne

end Substituted

/-! ### A listed key -/

namespace OneShotExample

open StandIn (aliceCoins bobCoins encapCoins)

/-- A record of alice's key, in another order than the view and with a name. -/
def listing : List (Str × Json) :=
  [(str "name", .str (str "alice")), (str "key_id", .null), (str "hybrid_public_hex", .str (hex keys.publicKey)),
    (str "signature", .null), (str "suite", .str hybridSuite)]

theorem publishes_listing : Publishes listing (offer (hex keys.publicKey) none none) :=
  ⟨⟨_, rfl, rfl⟩, ⟨_, rfl, rfl⟩, ⟨_, rfl, trivial⟩, ⟨_, rfl, trivial⟩, trivial⟩

theorem exists_sealed_listing :
    ∃ blob, Pqdm.seal P coins (ascii "hi") (.fromDict (some listing)) (str "bob") (str "alice") = .ok blob := by
  have hadvertises := advertises_fromDict.mpr (advertisesKey_of_publishes publishes_listing)
  exact ⟨_, seal_eq_ok.mpr ⟨keys.publicKey, sealedAad, _, _, _, hadvertises.1,
    PrekeyBundle.hybridPublic_of_advertises hadvertises, downgradeLockAad_sealed, hybridEncap_sealed, rfl, rfl⟩⟩

/-- Alice generates a key, bob reads it in the listing and seals two bytes, and she opens them. -/
theorem opens_of_published_run : ∃ blob priv,
    Pqdm.seal P coins (ascii "hi") (.fromDict (some listing)) (str "bob") (str "alice") = .ok blob ∧
      bytesFromhex (.str (hex keys.privateKey)) = .ok priv ∧
      openSealed P (.bytes blob) (.bytes priv) (str "bob") (str "alice") hybridSuite = .ok (ascii "hi") := by
  obtain ⟨kcoins, hkeypair⟩ : IsKeypair P keys.privateKey keys.publicKey := StandIn.isKeypair _ _ aliceCoins
  have hgen : generateHybridKeypair P kcoins = .ok (hex keys.publicKey, hex keys.privateKey) := by
    rw [generateHybridKeypair, hkeypair]
    rfl
  obtain ⟨-, hrecord⟩ := opens_of_published (StandIn.kemCorrect _) (StandIn.aeadCorrect _ _) hgen none none
  obtain ⟨-, -, ⟨priv, hpriv, hopens⟩, -⟩ := hrecord listing publishes_listing
  obtain ⟨blob, hseal⟩ := exists_sealed_listing
  exact ⟨blob, priv, hseal, hpriv, hopens _ _ _ _ _ hseal⟩

/-- The keys of a peer whose own record was replaced by the listing. -/
def other : HybridKeyPair := StandIn.keypair StandIn.sums bobCoins

theorem of_sealEncaps {pub : BytesN publicKeyLen} {ct : BytesN ciphertextLen} {ss : BytesN 32}
    (h : SealEncaps P coins listing pub ct ss) : pub = keys.publicKey ∧
      ct = StandIn.encapCt StandIn.sums encapCoins keys.publicKey ∧
      ss = StandIn.sumSecret encapCoins keys.publicKey hkdfInfo := by
  obtain ⟨hpub, hencap⟩ := h
  obtain rfl := hpub.unique (advertisesKey_of_publishes publishes_listing).2
  cases hybridEncap_sealed.symm.trans hencap
  exact ⟨rfl, rfl, rfl⟩

theorem not_isKeypair_other : ¬IsKeypair P other.privateKey keys.publicKey := by
  intro h
  have hsame := publicKey_unique (StandIn.kemCorrect _) h (StandIn.isKeypair _ _ bobCoins)
  exact absurd hsame (by decide)

theorem kemDiffers_other : KemDiffers P (SealEncaps P coins listing) other.privateKey := by
  intro pub ct ss h _
  obtain ⟨rfl, rfl, rfl⟩ := of_sealEncaps h
  exact ⟨StandIn.foreignSecret bobCoins encapCoins hkdfInfo,
    StandIn.hybridDecap_foreign _ _ _ _ _ (by decide), by decide⟩

theorem injOn_sealInputs (priv : BytesN privateKeyLen) (aad : Bytes) :
    Set.InjOn P.hkdf (SealInputs P coins listing priv aad) := by
  have hform : ∀ i ∈ SealInputs P coins listing priv aad, ∃ ss : BytesN 32, i = wrapKeyInput ss aad := by
    rintro i ⟨pub, ct, ss, -, rfl | ⟨ss', -, rfl⟩⟩
    · exact ⟨ss, rfl⟩
    · exact ⟨ss', rfl⟩
  intro i hi i' hi' heq
  obtain ⟨ss, rfl⟩ := hform i hi
  obtain ⟨ss', rfl⟩ := hform i' hi'
  have hfold : StandIn.fold ss.val = StandIn.fold ss'.val := heq
  rw [StandIn.fold_self, StandIn.fold_self] at hfold
  rw [hfold]

/-- What is sealed to the listing is opened with the listed key; a peer with another key detects it. -/
theorem openSealed_of_record_run : ∃ blob,
    Pqdm.seal P coins (ascii "hi") (.fromDict (some listing)) (str "bob") (str "alice") = .ok blob ∧
      openSealed P (.bytes blob) (.bytes keys.privateKey) (str "bob") (str "alice") hybridSuite = .ok (ascii "hi") ∧
      ∃ msg, openSealed P (.bytes blob) (.bytes other.privateKey) (str "bob") (str "alice") hybridSuite
        = .error ⟨.downgradeDetected, msg⟩ := by
  obtain ⟨blob, hseal⟩ := exists_sealed_listing
  obtain ⟨-, pub, hpub, hopens⟩ := openSealed_of_record (StandIn.kemCorrect _) (StandIn.aeadCorrect _ _) hseal
  obtain rfl := hpub.2.unique (advertisesKey_of_publishes publishes_listing).2
  refine ⟨blob, hseal, (hopens keys.privateKey).1 (StandIn.isKeypair _ _ aliceCoins), ?_⟩
  have hbundle : PrekeyBundle.fromDict (some listing) = .publish keys.publicKey :=
    fromDict_of_publishes publishes_listing
  exact (hopens other.privateKey).2 not_isKeypair_other (hbundle ▸ aeadSound) kemDiffers_other (injOn_sealInputs _ _)

end OneShotExample

end Pqdm
end SkPqc
