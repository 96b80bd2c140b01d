import SkPqc.Model.Pqdm
import SkPqc.Proof.StandIn
import SkPqc.Wire.JsonRoundTrip

/-!
# The one-shot seal

The AAD is the canonical text of an object, so it determines the suite and both parties
(`downgradeLockAad_inj`). A sealed blob is cut back at fixed offsets (`openSealed_append`), which
leaves one question to an open: whether the AAD rebuilt is the one that was sealed.
-/

namespace SkPqc
namespace Pqdm

open Wire Pqkem

/-! ### The downgrade lock -/

theorem nodup_downgradeLockHead {α : Type} (v suite sender recipient : α) :
    ([(str "v", v), (str "negotiated_suite", suite), (str "sender", sender), (str "recipient", recipient)].map
      Prod.fst).Nodup := by
  simp only [List.map_cons, List.map_nil]
  decide

theorem plain_downgradeLockHead {suite sender recipient : Str} (hsuite : Scalar suite) (hsender : Scalar sender)
    (hrecipient : Scalar recipient) : Json.Plain (downgradeLockHead suite sender recipient) := by
  refine ⟨nodup_downgradeLockHead .., ?_⟩
  simp only [Json.PlainMembers, Json.Plain, and_true]
  exact ⟨scalar_of_isAscii (by decide), ⟨scalar_of_isAscii (by decide), hsuite⟩,
    ⟨scalar_of_isAscii (by decide), hsender⟩, scalar_of_isAscii (by decide), hrecipient⟩

/-- The head of the AAD determines the suite and the parties. -/
theorem downgradeLockHead_inj {suite sender recipient suite' sender' recipient' : Str}
    (h : (downgradeLockHead suite sender recipient).sortKeys = (downgradeLockHead suite' sender' recipient').sortKeys) :
    suite = suite' ∧ sender = sender' ∧ recipient = recipient' := by
  have hlookup := Json.lookup_eq_of_sortKeys_eq (nodup_downgradeLockHead ..) (nodup_downgradeLockHead ..) h
  have hsuite : some (Json.str suite) = some (Json.str suite') := hlookup (str "negotiated_suite")
  have hsender : some (Json.str sender) = some (Json.str sender') := hlookup (str "sender")
  have hrecipient : some (Json.str recipient) = some (Json.str recipient') := hlookup (str "recipient")
  simp only [Option.some.injEq, Json.str.injEq] at hsuite hsender hrecipient
  exact ⟨hsuite, hsender, hrecipient⟩

/-- The AAD is always built, also from strings that are no scalar values. -/
theorem downgradeLockAad_eq (suite sender recipient : Str) (extra : Option Bytes) :
    downgradeLockAad suite sender recipient extra
      = .ok (utf8 (Json.dumps (downgradeLockHead suite sender recipient)) ++ extra.getD []) := by
  have hscalar : Scalar (Json.dumps (downgradeLockHead suite sender recipient)) := by
    apply Json.scalar_dumps_obj
    simp only [List.mem_cons, List.not_mem_nil, or_false]
    rintro m (rfl | rfl | rfl | rfl)
    · exact Json.printable_printInt 1
    · exact Json.printable_printStr suite
    · exact Json.printable_printStr sender
    · exact Json.printable_printStr recipient
  rw [downgradeLockAad, canonicalJson, strEncode_of_scalar hscalar]
  rfl

theorem downgradeLockAad_inj {suite sender recipient suite' sender' recipient' : Str} {extra extra' : Option Bytes}
    {aad : Bytes} (hsuite : Scalar suite) (hsender : Scalar sender) (hrecipient : Scalar recipient)
    (hsuite' : Scalar suite') (hsender' : Scalar sender') (hrecipient' : Scalar recipient')
    (h : downgradeLockAad suite sender recipient extra = .ok aad)
    (h' : downgradeLockAad suite' sender' recipient' extra' = .ok aad) :
    (suite = suite' ∧ sender = sender' ∧ recipient = recipient') ∧ extra.getD [] = extra'.getD [] := by
  rw [downgradeLockAad_eq] at h h'
  obtain ⟨hhead, hextra⟩ := Json.utf8_dumps_append_obj (plain_downgradeLockHead hsuite hsender hrecipient)
    (plain_downgradeLockHead hsuite' hsender' hrecipient') (Except.ok.inj (h.trans h'.symm))
  exact ⟨downgradeLockHead_inj hhead, hextra⟩

/-- Over strings of scalar values, two AADs are the same bytes exactly when all four components are the same. -/
theorem downgradeLockAad_eq_bytes_iff {suite sender recipient suite' sender' recipient' : Str} (extra extra' : Bytes)
    (hsuite : Scalar suite) (hsender : Scalar sender) (hrecipient : Scalar recipient)
    (hsuite' : Scalar suite') (hsender' : Scalar sender') (hrecipient' : Scalar recipient') :
    (∃ aad, downgradeLockAad suite sender recipient (some extra) = .ok aad ∧
        downgradeLockAad suite' sender' recipient' (some extra') = .ok aad) ↔
      suite = suite' ∧ sender = sender' ∧ recipient = recipient' ∧ extra = extra' := by
  constructor
  · rintro ⟨aad, h, h'⟩
    obtain ⟨⟨rfl, rfl, rfl⟩, hextra⟩ := downgradeLockAad_inj hsuite hsender hrecipient hsuite' hsender' hrecipient' h h'
    exact ⟨rfl, rfl, rfl, hextra⟩
  · rintro ⟨rfl, rfl, rfl, rfl⟩
    have haad := downgradeLockAad_eq suite sender recipient (some extra)
    exact ⟨_, haad, haad⟩

/-- A recipient that quotes the end of the head, with nothing after it, and the recipient it quotes, with the rest as
extra bytes. -/
theorem downgradeLockAad_quoted : ¬∃ aad,
    downgradeLockAad hybridSuite (str "bob") (str "alice\",\"sender\":\"bob\"\x7d") (some []) = .ok aad ∧
      downgradeLockAad hybridSuite (str "bob") (str "alice") (some (ascii "\",\"sender\":\"bob\"\x7d")) = .ok aad := by
  rw [downgradeLockAad_eq_bytes_iff _ _ (scalar_of_isAscii (by decide)) (scalar_of_isAscii (by decide))
    (scalar_of_isAscii (by decide)) (scalar_of_isAscii (by decide)) (scalar_of_isAscii (by decide))
    (scalar_of_isAscii (by decide))]
  rintro ⟨-, -, hrecipient, -⟩
  exact absurd hrecipient (by decide)

/-! ### Prekey bundles -/

theorem ne_nil_of_fromHex {text : Str} {pub : BytesN publicKeyLen} (h : fromHex text = some pub.val) : text ≠ [] := by
  rintro rfl
  have hlen := congrArg List.length (Option.some.inj h)
  rw [BytesN.length_val] at hlen
  exact absurd hlen (by decide)

namespace PrekeyBundle

variable {bundle : PrekeyBundle} {suite text : Str}

theorem isHybrid_iff (hsuite : bundle.suite = .str suite) (htext : bundle.hybridPublicHex = .str text) :
    bundle.isHybrid = true ↔ suite = hybridSuite ∧ text ≠ [] := by
  simp only [isHybrid, hsuite, htext, truthy, Bool.and_eq_true, decide_eq_true_eq]

theorem hybridPublic_eq_ok (htext : bundle.hybridPublicHex = .str text) {pub : BytesN publicKeyLen} :
    bundle.hybridPublic = .ok pub ↔ fromHex text = some pub.val := by
  rw [hybridPublic, htext, guard_eq_ok, bind_eq_ok]
  simp only [tryExcept_raise_eq_ok, bytesFromhex, ofOption_eq_ok]
  constructor
  · rintro ⟨-, b, hb, hreturn⟩
    by_cases hlen : b.length = publicKeyLen
    · rw [dif_pos hlen] at hreturn
      cases hreturn
      exact hb
    · rw [dif_neg hlen] at hreturn
      cases hreturn
  · intro hpub
    refine ⟨?_, pub.val, hpub, ?_⟩
    · simpa [truthy] using ne_nil_of_fromHex hpub
    · rw [dif_pos pub.length_val]
      rfl

/-- The bundle that publishes a public key. -/
def publish (pub : BytesN publicKeyLen) : PrekeyBundle :=
  { suite := .str hybridSuite, hybridPublicHex := .str (hex pub), signature := .null, keyId := .null }

theorem isHybrid_publish (pub : BytesN publicKeyLen) : (publish pub).isHybrid = true :=
  (isHybrid_iff rfl rfl).mpr ⟨rfl, ne_nil_of_fromHex (fromHex_hex pub.val)⟩

theorem hybridPublic_publish (pub : BytesN publicKeyLen) : (publish pub).hybridPublic = .ok pub :=
  (hybridPublic_eq_ok rfl).mpr (fromHex_hex pub.val)

end PrekeyBundle

/-! ### Sealing and opening -/

theorem seal_eq_ok {P : Primitives} {coins : SealCoins} {plaintext : Bytes} {bundle : PrekeyBundle}
    {sender recipient : Str} {blob : Bytes} :
    Pqdm.seal P coins plaintext bundle sender recipient = .ok blob ↔
      ∃ (pub : BytesN publicKeyLen) (aad : Bytes) (ct : BytesN ciphertextLen) (ss : BytesN 32) (body : Bytes),
        bundle.isHybrid = true ∧ bundle.hybridPublic = .ok pub ∧
        downgradeLockAad hybridSuite sender recipient none = .ok aad ∧
        hybridEncap P coins.encap (.bytes pub) hkdfInfo = .ok (ct, ss) ∧
        P.encrypt (wrapKey P ss aad) coins.nonce plaintext aad = .ok body ∧ blob = ct ++ coins.nonce ++ body := by
  cases hhybrid : bundle.isHybrid with
  | false => simp [Pqdm.seal, hhybrid, raise]
  | true =>
    simp only [Pqdm.seal, hhybrid, bind_eq_ok, Prod.exists, Bool.not_true, Bool.false_eq_true, if_false]
    constructor
    · rintro ⟨pub, hpub, aad, haad, ct, ss, hencap, body, hbody, hblob⟩
      exact ⟨pub, aad, ct, ss, body, trivial, hpub, haad, hencap, hbody, (Except.ok.inj hblob).symm⟩
    · rintro ⟨pub, aad, ct, ss, body, -, hpub, haad, hencap, hbody, rfl⟩
      exact ⟨pub, hpub, aad, haad, ct, ss, hencap, body, hbody, rfl⟩

/-- On a blob of three parts an open is a decapsulation of the first and a decryption of the last. -/
theorem openSealed_append {P : Primitives} (ct : BytesN ciphertextLen) (nonce : BytesN wrapNonceLen) {body : Bytes}
    (hbody : aesgcmTagLen ≤ body.length) (priv : PyVal) (sender recipient expectedSuite : Str) :
    openSealed P (.bytes (ct ++ nonce ++ body)) priv sender recipient expectedSuite = (do
      let aad ← downgradeLockAad expectedSuite sender recipient none
      let shared ← hybridDecap P (.bytes ct) priv hkdfInfo
      tryExcept [.exception] (P.decrypt (wrapKey P shared aad) nonce body aad)
        (raiseDowngradeDetected expectedSuite)) := by
  have hct := ct.length_val
  have hnonce := nonce.length_val
  have hlen : ¬(ct.val ++ nonce.val ++ body).length < sealedMinLen := by
    have hmin : sealedMinLen = ciphertextLen + wrapNonceLen + aesgcmTagLen := rfl
    simp only [List.length_append]
    omega
  have hcut : ct.val.length + nonce.val.length = ciphertextLen + wrapNonceLen := by rw [hct, hnonce]
  simp only [openSealed, PyVal.data?_bytes, if_neg hlen, take_append_append hct, slice_append_append hct hcut,
    drop_append_append hcut]

/-- The AES-GCM ciphertext that a call of `seal` makes. -/
def SealMakes (P : Primitives) (coins : SealCoins) (plaintext : Bytes) (bundle : PrekeyBundle)
    (sender recipient : Str) (key nonce aad ciphertext : Bytes) : Prop :=
  ∃ (pub : BytesN publicKeyLen) (ct : BytesN ciphertextLen) (ss : BytesN 32), bundle.hybridPublic = .ok pub ∧
    downgradeLockAad hybridSuite sender recipient none = .ok aad ∧
    hybridEncap P coins.encap (.bytes pub) hkdfInfo = .ok (ct, ss) ∧ key = wrapKey P ss aad ∧ nonce = coins.nonce ∧
    P.encrypt key nonce plaintext aad = .ok ciphertext

/-- A seal of less than `2 ^ 31` bytes to a generated public key returns. -/
theorem seal_returns {P : Primitives} (hkem : P.KemCorrect) (hkemReturns : P.KemReturns)
    (haeadReturns : P.AeadReturns) {priv : BytesN privateKeyLen} {pub : BytesN publicKeyLen}
    (hkey : IsKeypair P priv pub) {bundle : PrekeyBundle} (hhybrid : bundle.isHybrid = true)
    (hpub : bundle.hybridPublic = .ok pub) (coins : SealCoins) {plaintext aad : Bytes} {sender recipient : Str}
    (hplaintext : plaintext.length < 2 ^ 31) (haad : downgradeLockAad hybridSuite sender recipient none = .ok aad)
    (hshort : aad.length < 2 ^ 31) :
    ∃ blob, Pqdm.seal P coins plaintext bundle sender recipient = .ok blob := by
  obtain ⟨ct, ss, hencap⟩ := hybridEncap_returns hkem hkemReturns hkey coins.encap hkdfInfo
  obtain ⟨body, hbody⟩ := haeadReturns.encrypt (wrapKey P ss aad) coins.nonce plaintext aad hplaintext hshort
  exact ⟨_, seal_eq_ok.mpr ⟨pub, aad, ct, ss, body, hhybrid, hpub, haad, hencap, hbody, rfl⟩⟩

theorem length_seal {P : Primitives} (haead : P.AeadCorrect) {coins : SealCoins} {plaintext : Bytes}
    {bundle : PrekeyBundle} {sender recipient : Str} {blob : Bytes}
    (hseal : Pqdm.seal P coins plaintext bundle sender recipient = .ok blob) :
    blob.length = 1148 + plaintext.length := by
  obtain ⟨pub, aad, ct, ss, body, -, -, -, -, hbody, rfl⟩ := seal_eq_ok.mp hseal
  have hlen := haead.length_encrypt _ _ _ _ _ hbody
  rw [List.length_append, List.length_append, ct.length_val, coins.nonce.length_val, hlen]
  simp only [ciphertextLen, x25519PubLen, mlkemCtLen, wrapNonceLen]
  omega

/-- A seal returns, and the sealed blob opens, to what was sealed, under the suite and the parties it was sealed for.
Every other open detects a downgrade. -/
theorem openSealed_seal {P : Primitives} (hkem : P.KemCorrect) (haead : P.AeadCorrect)
    {priv : BytesN privateKeyLen} {pub : BytesN publicKeyLen} (hkey : IsKeypair P priv pub)
    {bundle : PrekeyBundle} (hpub : bundle.hybridPublic = .ok pub) {coins : SealCoins} {plaintext : Bytes}
    {sender recipient : Str} (hsender : Scalar sender) (hrecipient : Scalar recipient)
    (hsound : P.AeadSound (SealMakes P coins plaintext bundle sender recipient)) :
    (P.KemReturns → P.AeadReturns → bundle.isHybrid = true → plaintext.length < 2 ^ 31 →
        (∀ aad, downgradeLockAad hybridSuite sender recipient none = .ok aad → aad.length < 2 ^ 31) →
        ∃ blob, Pqdm.seal P coins plaintext bundle sender recipient = .ok blob) ∧
      ∀ blob, Pqdm.seal P coins plaintext bundle sender recipient = .ok blob →
        blob.length = 1148 + plaintext.length ∧
          ∀ expectedSuite sender' recipient' : Str, Scalar expectedSuite → Scalar sender' → Scalar recipient' →
            (expectedSuite = hybridSuite ∧ sender' = sender ∧ recipient' = recipient →
              openSealed P (.bytes blob) (.bytes priv) sender' recipient' expectedSuite = .ok plaintext) ∧
            (¬(expectedSuite = hybridSuite ∧ sender' = sender ∧ recipient' = recipient) →
              ∃ msg, openSealed P (.bytes blob) (.bytes priv) sender' recipient' expectedSuite
                = .error ⟨.downgradeDetected, msg⟩) := by
  have hsealed := downgradeLockAad_eq hybridSuite sender recipient none
  refine ⟨fun hkemReturns haeadReturns hhybrid hplaintext hshort => ?_, fun blob hseal => ?_⟩
  · exact seal_returns hkem hkemReturns haeadReturns hkey hhybrid hpub coins hplaintext hsealed (hshort _ hsealed)
  refine ⟨length_seal haead hseal, fun expectedSuite sender' recipient' hsuite' hsender' hrecipient' => ?_⟩
  obtain ⟨pub', aad, ct, ss, body, -, hpub', haad, hencap, hbody, rfl⟩ := seal_eq_ok.mp hseal
  obtain rfl : pub = pub' := Except.ok.inj (hpub.symm.trans hpub')
  rw [openSealed_append ct coins.nonce (haead.tag_le hbody), downgradeLockAad_eq, ok_bind,
    hybridDecap_hybridEncap hkem hkey hencap, ok_bind]
  have hhybrid : Scalar hybridSuite := scalar_of_isAscii (by decide)
  constructor
  · rintro ⟨rfl, rfl, rfl⟩
    rw [← Except.ok.inj (haad.symm.trans hsealed), haead.decrypt_encrypt _ _ _ _ _ hbody, tryExcept_ok]
  · intro hne
    -- an open that returned would have rebuilt the sealed AAD
    cases hopen : P.decrypt (wrapKey P ss _) coins.nonce body _ with
    | error e =>
      rw [tryExcept_exception]
      exact ⟨_, rfl⟩
    | ok data =>
      obtain ⟨-, -, heq⟩ := hsound _ _ _ _ ⟨pub, ct, ss, hpub, haad, hencap, rfl, rfl, hbody⟩ _ _ _ _ hopen
      obtain ⟨hparties, -⟩ := downgradeLockAad_inj hsuite' hsender' hrecipient' hhybrid hsender hrecipient
        (downgradeLockAad_eq expectedSuite sender' recipient' none) (heq ▸ haad)
      exact absurd hparties hne

/-! ### One run -/

namespace OneShotExample

open StandIn (aliceCoins encapCoins)

def keys : HybridKeyPair := StandIn.keypair StandIn.sums aliceCoins

def coins : SealCoins := { encap := encapCoins, nonce := .zero 12 }

def sealedAad : Bytes := utf8 (Json.dumps (downgradeLockHead hybridSuite (str "bob") (str "alice")))

def sealedKey : BytesN 32 :=
  wrapKey (StandIn.primitives StandIn.sums []) (StandIn.sumSecret encapCoins keys.publicKey hkdfInfo) sealedAad

def P : Primitives := StandIn.primitives StandIn.sums [(sealedKey.val, coins.nonce.val, sealedAad)]

theorem downgradeLockAad_sealed : downgradeLockAad hybridSuite (str "bob") (str "alice") none = .ok sealedAad := by
  rw [downgradeLockAad_eq, Option.getD_none, List.append_nil, sealedAad]

theorem hybridEncap_sealed : hybridEncap P encapCoins (.bytes keys.publicKey) hkdfInfo
    = .ok (StandIn.encapCt StandIn.sums encapCoins keys.publicKey,
      StandIn.sumSecret encapCoins keys.publicKey hkdfInfo) :=
  StandIn.hybridEncap_sums _ _ _ _

theorem aeadSound : P.AeadSound
    (SealMakes P coins (ascii "hi") (.publish keys.publicKey) (str "bob") (str "alice")) := by
  refine StandIn.aeadSound StandIn.sums (by decide) ?_
  rintro key nonce aad c ⟨pub, ct, ss, hpub, haad, hencap, rfl, rfl, hc⟩
  rw [PrekeyBundle.hybridPublic_publish] at hpub
  cases hpub
  cases downgradeLockAad_sealed.symm.trans haad
  cases hybridEncap_sealed.symm.trans hencap
  exact ⟨List.mem_singleton.mpr rfl, _, hc⟩

/-- Two bytes sealed from bob to alice, and opened. -/
theorem openSealed_seal_run : ∃ blob,
    Pqdm.seal P coins (ascii "hi") (.publish keys.publicKey) (str "bob") (str "alice") = .ok blob ∧
      blob.length = 1150 ∧
      openSealed P (.bytes blob) (.bytes keys.privateKey) (str "bob") (str "alice") hybridSuite = .ok (ascii "hi") ∧
      ∃ msg, openSealed P (.bytes blob) (.bytes keys.privateKey) (str "bob") (str "alice") classicalSuite
        = .error ⟨.downgradeDetected, msg⟩ := by
  have hscalar : ∀ {s : Str}, s.all isAscii = true → Scalar s := scalar_of_isAscii
  obtain ⟨hreturns, hseals⟩ := openSealed_seal (StandIn.kemCorrect _) (StandIn.aeadCorrect _ _)
    (StandIn.isKeypair _ _ aliceCoins) (PrekeyBundle.hybridPublic_publish _) (hscalar (by decide))
    (hscalar (by decide)) aeadSound
  have hshort : sealedAad.length < 2 ^ 31 := by decide
  obtain ⟨blob, hseal⟩ := hreturns (StandIn.kemReturns _) (StandIn.aeadReturns _ _) (PrekeyBundle.isHybrid_publish _)
    (by decide) fun aad haad => by
      rw [downgradeLockAad_sealed] at haad
      cases haad
      exact hshort
  obtain ⟨hlen, hopen⟩ := hseals blob hseal
  refine ⟨blob, hseal, hlen, ?_, ?_⟩
  · exact (hopen _ _ _ (hscalar (by decide)) (hscalar (by decide)) (hscalar (by decide))).1 ⟨rfl, rfl, rfl⟩
  · refine (hopen _ _ _ (hscalar (by decide)) (hscalar (by decide)) (hscalar (by decide))).2 fun h => ?_
    exact absurd h.1 (by decide)

end OneShotExample

end Pqdm
end SkPqc
