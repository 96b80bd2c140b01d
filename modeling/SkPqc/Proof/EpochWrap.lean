import SkPqc.Proof.Domains
import SkPqc.Proof.RatchetRuns

/-!
# Wrapped epoch secrets

A wrap is a KEM ciphertext, a nonce and 48 bytes that AES-GCM makes of the secret, and an unwrap cuts at the
same places. The two modules share the layout and differ in the label of the wrap key, so an unwrap gives the
secret back exactly when the private key and the label are the sender's.
-/

namespace SkPqc

open Wire Pqkem Runs

/-- The two ratchet modules. -/
def ratchetModules : List RatchetLayer := [GroupRatchet.layer, DmRatchet.layer]

theorem mem_ratchetModules {L : RatchetLayer} : L ∈ ratchetModules ↔ L = GroupRatchet.layer ∨ L = DmRatchet.layer := by
  simp [ratchetModules]

namespace RatchetLayer

variable {L L' : RatchetLayer} {P : Primitives}

/-! ### Wrapping -/

theorem wrapEpochSecret_eq_ok {coins : WrapCoins} {secret : Bytes} {pub : BytesN publicKeyLen} {payload : Bytes} :
    L.wrapEpochSecret P coins secret pub = .ok payload ↔
      ∃ (ct : BytesN ciphertextLen) (ss : BytesN 32) (wrapped : Bytes), secret.length = epochSecretLen ∧
        hybridEncap P coins.encap (.bytes pub) hkdfInfo = .ok (ct, ss) ∧
        P.encrypt (P.hkdf (L.epochWrapInput ss)) coins.nonce secret [] = .ok wrapped ∧
        payload = ct ++ coins.nonce ++ wrapped := by
  by_cases hlen : secret.length = epochSecretLen
  · simp only [wrapEpochSecret, checkEpochSecret, hlen, pub.length_val, ne_eq, not_true_eq_false, if_false, bind_eq_ok,
      Prod.exists]
    constructor
    · rintro ⟨-, -, ct, ss, hencap, wrapped, hwrapped, hpayload⟩
      exact ⟨ct, ss, wrapped, trivial, hencap, hwrapped, (Except.ok.inj hpayload).symm⟩
    · rintro ⟨ct, ss, wrapped, -, hencap, hwrapped, rfl⟩
      exact ⟨(), rfl, ct, ss, hencap, wrapped, hwrapped, rfl⟩
  · simp only [wrapEpochSecret, checkEpochSecret, if_pos hlen, raise, error_bind]
    constructor
    · intro h
      cases h
    · rintro ⟨-, -, -, hlen', -⟩
      exact absurd hlen' hlen

/-- What AES-GCM makes in a call of the wrap. -/
def WrapMakes (L : RatchetLayer) (P : Primitives) (coins : WrapCoins) (secret : Bytes) (pub : BytesN publicKeyLen)
    (key nonce aad ciphertext : Bytes) : Prop :=
  ∃ ct ss, hybridEncap P coins.encap (.bytes pub) hkdfInfo = .ok (ct, ss) ∧ key = P.hkdf (L.epochWrapInput ss) ∧
    nonce = coins.nonce ∧ aad = [] ∧ P.encrypt key nonce secret aad = .ok ciphertext

/-! ### Unwrapping -/

/-- What an unwrap feeds HKDF for the wrap key. -/
def unwrapInputs (L : RatchetLayer) (P : Primitives) (payload : Bytes) (priv : BytesN privateKeyLen) : Set HkdfInput :=
  {i | ∃ ss, hybridDecap P (.bytes (payload.take ciphertextLen)) (.bytes priv) hkdfInfo = .ok ss ∧
    i = L.epochWrapInput ss}

/-- On a payload of three parts an unwrap is a decapsulation of the first and a decryption of the last. -/
theorem unwrapEpochSecret_append (ct : BytesN ciphertextLen) (nonce : BytesN wrapNonceLen) {wrapped : Bytes}
    (hwrapped : wrapped.length = wrappedSecretLen) {priv : Bytes} {ss : BytesN 32}
    (hdecap : hybridDecap P (.bytes ct) (.bytes priv) hkdfInfo = .ok ss) :
    L.unwrapEpochSecret P (ct ++ nonce ++ wrapped) priv
      = tryExcept [.exception] (P.decrypt (P.hkdf (L.epochWrapInput ss)) nonce wrapped []) fun exc =>
          raise L.error ([.lit L.unwrapText, .lit " unwrap failed: "] ++ exc.msg) := by
  have hct := ct.length_val
  have hnonce := nonce.length_val
  have hlen : (ct.val ++ nonce.val ++ wrapped).length = wrappedPayloadLen := by
    rw [List.length_append, List.length_append, hct, hnonce, hwrapped]
  have hcut : ct.val.length + nonce.val.length = ciphertextLen + wrapNonceLen := by rw [hct, hnonce]
  simp only [unwrapEpochSecret, hlen, ne_eq, not_true_eq_false, if_false, take_append_append hct,
    slice_append_append hct hcut, drop_append_append hcut, hdecap, ok_bind]

/-- Whatever an unwrap returns is 32 bytes long: the payload's last part is always 48. -/
theorem length_of_unwrapEpochSecret (htag : P.DecryptDropsTag) {payload priv secret : Bytes}
    (h : L.unwrapEpochSecret P payload priv = .ok secret) : secret.length = epochSecretLen := by
  simp only [unwrapEpochSecret, guard_eq_ok, bind_eq_ok, tryExcept_raise_eq_ok] at h
  obtain ⟨hlen, ss, -, hdecrypt⟩ := h
  have hwrapped := htag _ _ _ _ _ hdecrypt
  rw [List.length_drop, not_ne_iff.mp hlen] at hwrapped
  simp only [wrappedPayloadLen, wrappedSecretLen, epochSecretLen] at hwrapped ⊢
  omega

theorem epochWrapInput_inj (hL : L ∈ ratchetModules) (hL' : L' ∈ ratchetModules) {shared shared' : Bytes}
    (h : L.epochWrapInput shared = L'.epochWrapInput shared') : L = L' ∧ shared = shared' := by
  have hlabel : GroupRatchet.layer.infoEpochWrap ≠ DmRatchet.layer.infoEpochWrap := by decide
  have hinfo : L.infoEpochWrap = L'.infoEpochWrap := congrArg HkdfInput.info h
  refine ⟨?_, congrArg HkdfInput.ikm h⟩
  rw [mem_ratchetModules] at hL hL'
  rcases hL with rfl | rfl <;> rcases hL' with rfl | rfl
  · rfl
  · exact absurd hinfo hlabel
  · exact absurd hinfo.symm hlabel
  · rfl

/-- The encapsulation inside a wrap. -/
def WrapEncaps (P : Primitives) (coins : WrapCoins) (pub pub' : BytesN publicKeyLen) (ct : BytesN ciphertextLen)
    (ss : BytesN 32) : Prop :=
  pub' = pub ∧ hybridEncap P coins.encap (.bytes pub) hkdfInfo = .ok (ct, ss)

/-- An unwrap with another label or another secret raises the module's error. -/
theorem unwrapEpochSecret_rejects (hL : L ∈ ratchetModules) (hL' : L' ∈ ratchetModules) {coins : WrapCoins}
    {secret wrapped : Bytes} {pub : BytesN publicKeyLen} {ct : BytesN ciphertextLen} {ss ss' : BytesN 32}
    (hencap : hybridEncap P coins.encap (.bytes pub) hkdfInfo = .ok (ct, ss))
    (hencrypt : P.encrypt (P.hkdf (L.epochWrapInput ss)) coins.nonce secret [] = .ok wrapped)
    (hwrapped : wrapped.length = wrappedSecretLen) (hsound : P.AeadSound (WrapMakes L P coins secret pub))
    {priv' : Bytes} (hdecap : hybridDecap P (.bytes ct) (.bytes priv') hkdfInfo = .ok ss')
    (hne : L' ≠ L ∨ ss' ≠ ss) (hhkdf : Set.InjOn P.hkdf {L.epochWrapInput ss, L'.epochWrapInput ss'}) :
    ∃ msg, L'.unwrapEpochSecret P (ct ++ coins.nonce ++ wrapped) priv' = .error ⟨L'.error, msg⟩ := by
  rw [unwrapEpochSecret_append ct coins.nonce hwrapped hdecap]
  cases hopen : P.decrypt (P.hkdf (L'.epochWrapInput ss')) coins.nonce wrapped [] with
  | error e =>
    rw [tryExcept_exception]
    exact ⟨_, rfl⟩
  | ok data =>
    -- the ciphertext opens under the wrap key it was made with only, and that key has one input
    obtain ⟨hkeys, -, -⟩ := hsound _ _ _ _ ⟨ct, ss, hencap, rfl, rfl, rfl, hencrypt⟩ _ _ _ _ hopen
    have hinput := hhkdf (.inr rfl) (.inl rfl) (BytesN.ext hkeys)
    obtain ⟨hlayer, hshared⟩ := epochWrapInput_inj hL' hL hinput
    rcases hne with hne | hne
    · exact absurd hlayer hne
    · exact absurd (BytesN.ext hshared) hne

/-- A wrap to a keypair returns 1180 bytes, which the keypair unwraps in the same module; any other unwrap, in the
other module or with a key that does not match, raises the error of its module. And whatever an unwrap returns, of any
payload, is a 32-byte secret, with which no call of the ratchet fails. -/
theorem epochWrap_runs (hkem : P.KemCorrect) (hkemReturns : P.KemReturns) (haead : P.AeadCorrect)
    (haeadReturns : P.AeadReturns) :
    (∀ L ∈ ratchetModules, ∀ priv pub, IsKeypair P priv pub → ∀ (coins : WrapCoins) (secret : BytesN 32),
      ∃ payload, L.wrapEpochSecret P coins secret pub = .ok payload ∧ payload.length = 1180 ∧
        L.unwrapEpochSecret P payload priv = .ok secret ∧
        ∀ L' ∈ ratchetModules, ∀ priv' : BytesN privateKeyLen, L' ≠ L ∨ ¬IsKeypair P priv' pub →
          P.AeadSound (WrapMakes L P coins secret pub) → KemDiffers P (WrapEncaps P coins pub) priv' →
          Set.InjOn P.hkdf (L.unwrapInputs P payload priv ∪ L'.unwrapInputs P payload priv') →
          ∃ msg, L'.unwrapEpochSecret P payload priv' = .error ⟨L'.error, msg⟩) ∧
    ∀ L ∈ ratchetModules, ∀ payload priv secret : Bytes, L.unwrapEpochSecret P payload priv = .ok secret →
      secret.length = 32 ∧ ∀ r : RatchetState, r.epochSecret = secret → ∀ calls,
        ∀ entry ∈ history (L.exec P) r calls, ∃ reply, entry.2 = .ok reply := by
  constructor
  · intro L hL priv pub hkey coins secret
    obtain ⟨ct, ss, hencap⟩ := hybridEncap_returns hkem hkemReturns hkey coins.encap hkdfInfo
    have hdecap := hybridDecap_hybridEncap hkem hkey hencap
    have hshort : secret.val.length < 2 ^ 31 := by
      rw [secret.length_val]
      decide
    obtain ⟨wrapped, hencrypt⟩ := haeadReturns.encrypt (P.hkdf (L.epochWrapInput ss)) coins.nonce secret.val [] hshort
      (by decide)
    have hwrapped : wrapped.length = wrappedSecretLen := by
      rw [haead.length_encrypt _ _ _ _ _ hencrypt, secret.length_val]
    refine ⟨ct ++ coins.nonce ++ wrapped, ?_, ?_, ?_, ?_⟩
    · exact wrapEpochSecret_eq_ok.mpr ⟨ct, ss, wrapped, secret.length_val, hencap, hencrypt, rfl⟩
    · rw [List.length_append, List.length_append, ct.length_val, coins.nonce.length_val, hwrapped]
      rfl
    · rw [unwrapEpochSecret_append ct coins.nonce hwrapped hdecap, haead.decrypt_encrypt _ _ _ _ _ hencrypt,
        tryExcept_ok]
    · intro L' hL' priv' hne hsound hdiffers hhkdf
      have htake : (ct.val ++ coins.nonce.val ++ wrapped).take ciphertextLen = ct.val :=
        take_append_append ct.length_val
      obtain ⟨ss', hdecap', hother⟩ : ∃ ss', hybridDecap P (.bytes ct) (.bytes priv') hkdfInfo = .ok ss' ∧
          (L' ≠ L ∨ ss' ≠ ss) := by
        by_cases hmatch : IsKeypair P priv' pub
        · exact ⟨ss, hybridDecap_hybridEncap hkem hmatch hencap, .inl (hne.resolve_right (not_not.mpr hmatch))⟩
        · obtain ⟨ss', hdecap', hss⟩ := hdiffers pub ct ss ⟨rfl, hencap⟩ hmatch
          exact ⟨ss', hdecap', .inr hss⟩
      refine unwrapEpochSecret_rejects hL hL' hencap hencrypt hwrapped hsound hdecap' hother (hhkdf.mono ?_)
      rintro i (rfl | rfl)
      · exact .inl ⟨ss, by rw [htake, hdecap], rfl⟩
      · exact .inr ⟨ss', by rw [htake, hdecap'], rfl⟩
  · intro L _ payload priv secret h
    have hlen := length_of_unwrapEpochSecret haeadReturns.length_decrypt h
    refine ⟨hlen, fun r hr calls => ?_⟩
    exact history_returns (by rw [hr, hlen]) calls

end RatchetLayer

/-! ### One wrap -/

namespace WrapExample

open RatchetLayer
open StandIn (aliceCoins bobCoins encapCoins)

/-- A key derivation that shows the label as well as the input. -/
def hkdf (i : HkdfInput) : BytesN 32 := StandIn.fold (i.ikm ++ i.info)

def alice : HybridKeyPair := StandIn.keypair StandIn.sums aliceCoins

def bob : HybridKeyPair := StandIn.keypair StandIn.sums bobCoins

def coins : WrapCoins := { encap := encapCoins, nonce := .zero 12 }

/-- The X25519 secret of an exchange with a private key. -/
def xSs (seed : BytesN 32) (u : BytesN 32) : BytesN 32 :=
  Rfc7748.encodeUCoordinate (Rfc7748.decodeUCoordinate seed + Rfc7748.decodeUCoordinate u)

def ss : BytesN 32 :=
  let pub : BytesN x25519PubLen := alice.publicKey.left
  hkdf (combineInput (xSs encapCoins.ephemeral pub) (StandIn.seed encapCoins.mlkem alice.publicKey.right.val) hkdfInfo)

/-- What bob's key makes of the encapsulation to alice. -/
def bobSs : BytesN 32 :=
  hkdf (combineInput (xSs bobCoins.seed (StandIn.sums.publicKey encapCoins.ephemeral)) (BytesN.zero 32) hkdfInfo)

def wrapKey : BytesN 32 := hkdf (GroupRatchet.layer.epochWrapInput ss)

def P : Primitives := { StandIn.primitives StandIn.sums [(wrapKey.val, coins.nonce.val, [])] with hkdf := hkdf }

theorem kemCorrect : P.KemCorrect := ⟨StandIn.sums_correct, (StandIn.kemCorrect []).oqs⟩

theorem kemReturns : P.KemReturns := by
  have hreturns := StandIn.kemReturns [(wrapKey.val, coins.nonce.val, [])]
  exact ⟨hreturns.exchange, hreturns.fresh, hreturns.encap⟩

theorem aeadCorrect : P.AeadCorrect := by
  have haead := StandIn.aeadCorrect [(wrapKey.val, coins.nonce.val, [])] StandIn.sums
  exact ⟨haead.decrypt_encrypt, haead.length_encrypt⟩

theorem aeadReturns : P.AeadReturns := by
  have hreturns := StandIn.aeadReturns [(wrapKey.val, coins.nonce.val, [])] StandIn.sums
  exact ⟨hreturns.encrypt, hreturns.length_decrypt⟩

theorem isKeypair_alice : IsKeypair P alice.privateKey alice.publicKey := StandIn.isKeypair [] StandIn.sums aliceCoins

theorem isKeypair_bob : IsKeypair P bob.privateKey bob.publicKey := StandIn.isKeypair [] StandIn.sums bobCoins

theorem hybridEncap_alice : hybridEncap P encapCoins (.bytes alice.publicKey) hkdfInfo
    = .ok (StandIn.encapCt StandIn.sums encapCoins alice.publicKey, ss) :=
  hybridEncap_eq_ok.mpr ⟨StandIn.oqs, alice.publicKey, _, _, _, _, rfl, rfl, rfl, rfl, rfl, rfl, rfl, rfl⟩

theorem hybridDecap_bob : hybridDecap P (.bytes (StandIn.encapCt StandIn.sums encapCoins alice.publicKey))
    (.bytes bob.privateKey) hkdfInfo = .ok bobSs :=
  hybridDecap_bytes_eq_ok.mpr ⟨StandIn.oqs, _, _, rfl, StandIn.x25519Leg_foreign [] bobCoins encapCoins _,
    StandIn.mlkemLeg_foreign bobCoins encapCoins _ (by decide), rfl⟩

theorem not_isKeypair_bob : ¬IsKeypair P bob.privateKey alice.publicKey := by
  intro h
  have hne : alice.publicKey ≠ bob.publicKey := by decide
  exact hne (publicKey_unique kemCorrect h isKeypair_bob)

theorem aeadSound : P.AeadSound (WrapMakes GroupRatchet.layer P coins (BytesN.zero 32) alice.publicKey) := by
  refine StandIn.aeadSound StandIn.sums (by decide) ?_
  rintro _ _ _ c ⟨ct, ss', hencap, rfl, rfl, rfl, hc⟩
  cases hybridEncap_alice.symm.trans hencap
  exact ⟨List.mem_singleton.mpr rfl, _, hc⟩

theorem kemDiffers_bob : KemDiffers P (WrapEncaps P coins alice.publicKey) bob.privateKey := by
  rintro _ _ _ ⟨rfl, hencap⟩ _
  cases hybridEncap_alice.symm.trans hencap
  exact ⟨bobSs, hybridDecap_bob, by decide⟩

theorem kemDiffers_alice : KemDiffers P (WrapEncaps P coins alice.publicKey) alice.privateKey := by
  rintro _ _ _ ⟨rfl, -⟩ hnot
  exact absurd isKeypair_alice hnot

/-- The two wrap keys that an open compares. -/
theorem injOn_hkdf {L' : RatchetLayer} {payload : Bytes} {priv' : BytesN privateKeyLen} {ss' : BytesN 32}
    (htake : payload.take ciphertextLen = (StandIn.encapCt StandIn.sums encapCoins alice.publicKey).val)
    (hdecap : hybridDecap P (.bytes (StandIn.encapCt StandIn.sums encapCoins alice.publicKey)) (.bytes priv') hkdfInfo
      = .ok ss')
    (hne : P.hkdf (L'.epochWrapInput ss') ≠ wrapKey) :
    Set.InjOn P.hkdf
      (GroupRatchet.layer.unwrapInputs P payload alice.privateKey ∪ L'.unwrapInputs P payload priv') := by
  have hpair : Set.InjOn P.hkdf {GroupRatchet.layer.epochWrapInput ss, L'.epochWrapInput ss'} :=
    Set.injOn_pair.mpr fun h => absurd h.symm hne
  refine hpair.mono ?_
  rintro i (⟨ss₁, h, rfl⟩ | ⟨ss₁, h, rfl⟩)
  · rw [htake, hybridDecap_hybridEncap kemCorrect isKeypair_alice hybridEncap_alice] at h
    cases h
    exact .inl rfl
  · rw [htake, hdecap] at h
    cases h
    exact .inr rfl

/-- A group secret wrapped to alice. The DM module rejects it, and the group module under bob's key. -/
theorem epochWrap_runs_example : ∃ payload,
    GroupRatchet.wrapEpochSecret P coins (BytesN.zero 32) alice.publicKey = .ok payload ∧ payload.length = 1180 ∧
      GroupRatchet.unwrapEpochSecret P payload alice.privateKey = .ok (BytesN.zero 32).val ∧
      (∃ msg, DmRatchet.unwrapDmEpochSecret P payload alice.privateKey = .error ⟨.dmRatchetError, msg⟩) ∧
      ∃ msg, GroupRatchet.unwrapEpochSecret P payload bob.privateKey = .error ⟨.groupRatchetError, msg⟩ := by
  have hgroup : GroupRatchet.layer ∈ ratchetModules := mem_ratchetModules.mpr (.inl rfl)
  have hdm : DmRatchet.layer ∈ ratchetModules := mem_ratchetModules.mpr (.inr rfl)
  have hlayer : DmRatchet.layer ≠ GroupRatchet.layer := by
    intro h
    exact absurd (congrArg RatchetLayer.error h) (by decide)
  obtain ⟨payload, hwrap, hlen, hunwrap, hrejects⟩ := (epochWrap_runs kemCorrect kemReturns aeadCorrect
    aeadReturns).1 _ hgroup _ _ isKeypair_alice coins (.zero 32)
  have htake : payload.take ciphertextLen = (StandIn.encapCt StandIn.sums encapCoins alice.publicKey).val := by
    obtain ⟨ct, ss₁, wrapped, -, hencap, -, rfl⟩ := wrapEpochSecret_eq_ok.mp hwrap
    cases hybridEncap_alice.symm.trans hencap
    exact take_append_append (BytesN.length_val _)
  refine ⟨payload, hwrap, hlen, hunwrap, ?_, ?_⟩
  · have hdecap := hybridDecap_hybridEncap kemCorrect isKeypair_alice hybridEncap_alice
    exact hrejects _ hdm _ (.inl hlayer) aeadSound kemDiffers_alice (injOn_hkdf htake hdecap (by decide))
  · exact hrejects _ hgroup _ (.inr not_isKeypair_bob) aeadSound kemDiffers_bob
      (injOn_hkdf htake hybridDecap_bob (by decide))

end WrapExample
end SkPqc
