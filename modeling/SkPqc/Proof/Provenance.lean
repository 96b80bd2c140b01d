import SkPqc.Proof.OneShot
import SkPqc.Proof.RouteHeaders
import SkPqc.Proof.Sealings

/-!
# What the openers accept

Every opener decapsulates a secret, derives a key from it and decrypts. Given a list of sealing calls of all
layers, each opener returns exactly what one of the calls of its own layer sealed, with the same nonce and
ciphertext, and in the same context: the parties, the route header, the ratchet module. What is left free is
the KEM ciphertext, as long as it gives the same secret (`Repeats`).
-/

namespace SkPqc

open Wire Pqkem Schemes

/-- `blob` carries, behind its KEM ciphertext, what `made` carries behind its own, and a private key gets the
secret of the encapsulation out of it. -/
def Repeats (P : Primitives) (coins : EncapCoins) (pub : BytesN publicKeyLen) (priv : BytesN privateKeyLen)
    (blob made : Bytes) : Prop :=
  blob.drop ciphertextLen = made.drop ciphertextLen ∧
    ∃ ct ss, hybridEncap P coins (.bytes pub) hkdfInfo = .ok (ct, ss) ∧
      hybridDecap P (.bytes (blob.take ciphertextLen)) (.bytes priv) hkdfInfo = .ok ss

section Repeated
variable {P : Primitives} {calls : List SealCall} {priv : BytesN privateKeyLen}

theorem length_of_hybridDecap {ct : Bytes} {key : PyVal} {ss : BytesN 32}
    (h : hybridDecap P (.bytes ct) key hkdfInfo = .ok ss) : ct.length = ciphertextLen := by
  obtain ⟨_, ct', _, _, _, _, hct, _⟩ := hybridDecap_eq_ok.mp h
  rw [Option.some.inj hct, ct'.length_val]

/-- Behind the KEM ciphertext of what was made stand the nonce and the body. -/
theorem repeats_iff {coins : EncapCoins} {pub : BytesN publicKeyLen} {ct : BytesN ciphertextLen} {ss : BytesN 32}
    (hencap : hybridEncap P coins (.bytes pub) hkdfInfo = .ok (ct, ss)) {blob rest : Bytes} :
    Repeats P coins pub priv blob (ct ++ rest) ↔ ∃ ct' : BytesN ciphertextLen, blob = ct' ++ rest ∧
      hybridDecap P (.bytes ct') (.bytes priv) hkdfInfo = .ok ss := by
  have hdrop : (ct.val ++ rest).drop ciphertextLen = rest := List.drop_left' ct.length_val
  constructor
  · rintro ⟨hrest, ct₁, ss₁, hencap₁, hdecap⟩
    cases hencap.symm.trans hencap₁
    refine ⟨⟨blob.take ciphertextLen, length_of_hybridDecap hdecap⟩, ?_, hdecap⟩
    rw [← hdrop, ← hrest, List.take_append_drop]
  · rintro ⟨ct', rfl, hdecap⟩
    refine ⟨?_, ct, ss, hencap, ?_⟩
    · rw [hdrop, List.drop_left' ct'.length_val]
    · rwa [List.take_left' ct'.length_val]

/-- What stands behind some bytes is cut in two again. -/
theorem slice_append_drop (b : Bytes) (i n : Nat) : slice b i (i + n) ++ b.drop (i + n) = b.drop i := by
  rw [slice, List.drop_take, Nat.add_sub_cancel_left]
  show (b.drop i).take n ++ b.drop (i + n) = b.drop i
  rw [← List.drop_drop, List.take_append_drop]

/-- What was made repeats itself for the recipient. -/
theorem repeats_self (hkem : P.KemCorrect) {coins : EncapCoins} {pub : BytesN publicKeyLen}
    (hkey : IsKeypair P priv pub) {ct : BytesN ciphertextLen} {ss : BytesN 32}
    (hencap : hybridEncap P coins (.bytes pub) hkdfInfo = .ok (ct, ss))
    (rest : Bytes) : Repeats P coins pub priv (ct ++ rest) (ct ++ rest) :=
  (repeats_iff hencap).mpr ⟨ct, rfl, hybridDecap_hybridEncap hkem hkey hencap⟩

end Repeated

/-! ### One-shot seals -/

namespace Pqdm

section OneShot
variable {P : Primitives} {calls : List SealCall} {priv : BytesN privateKeyLen}

/-- What `open_sealed` decrypts. -/
def openTries (P : Primitives) (blob : Bytes) (priv : BytesN privateKeyLen) (sender recipient expectedSuite : Str) :
    Set (Attempt KeySource Bytes Bytes Bytes) :=
  {a | ∃ ss aad, hybridDecap P (.bytes (blob.take ciphertextLen)) (.bytes priv) hkdfInfo = .ok ss ∧
    downgradeLockAad expectedSuite sender recipient none = .ok aad ∧
    a = wrapAttempt (.pqdmWrap ss aad) (slice blob ciphertextLen (ciphertextLen + wrapNonceLen)) aad
      (blob.drop (ciphertextLen + wrapNonceLen))}

theorem raiseDowngradeDetected_eq_ok {x : Py Bytes} {expectedSuite : Str} {data : Bytes} :
    tryExcept [.exception] x (raiseDowngradeDetected expectedSuite) = .ok data ↔ x = .ok data :=
  tryExcept_raise_eq_ok

theorem openSealed_eq_ok {blob : Bytes} {key : PyVal} {sender recipient expectedSuite : Str} {data : Bytes} :
    openSealed P (.bytes blob) key sender recipient expectedSuite = .ok data ↔
      sealedMinLen ≤ blob.length ∧ ∃ ss aad,
        hybridDecap P (.bytes (blob.take ciphertextLen)) key hkdfInfo = .ok ss ∧
        downgradeLockAad expectedSuite sender recipient none = .ok aad ∧
        P.decrypt (wrapKey P ss aad) (slice blob ciphertextLen (ciphertextLen + wrapNonceLen))
          (blob.drop (ciphertextLen + wrapNonceLen)) aad = .ok data := by
  simp only [openSealed, PyVal.data?_bytes, guard_eq_ok, bind_eq_ok, raiseDowngradeDetected_eq_ok, Nat.not_lt]
  constructor
  · rintro ⟨hlen, aad, haad, ss, hdecap, hopen⟩
    exact ⟨hlen, ss, aad, hdecap, haad, hopen⟩
  · rintro ⟨hlen, ss, aad, hdecap, haad, hopen⟩
    exact ⟨hlen, aad, haad, ss, hdecap, hopen⟩

/-- Whatever `open_sealed` returns was sealed, under the hybrid suite and between the same parties, in a call of
`seal`; the blob repeats what that call returned, up to the KEM ciphertext. -/
theorem openSealed_eq_ok_iff_sealed (haead : P.AeadCorrect) {blob : Bytes} {sender recipient expectedSuite : Str}
    (hsender : Scalar sender) (hrecipient : Scalar recipient) (hsuite : Scalar expectedSuite)
    (hcalls : ∀ coins plaintext bundle s r, .oneShot coins plaintext bundle s r ∈ calls → Scalar s ∧ Scalar r)
    (hguards : P.cipher.Guards (sealings P calls) (openTries P blob priv sender recipient expectedSuite))
    {data : Bytes} :
    openSealed P (.bytes blob) (.bytes priv) sender recipient expectedSuite = .ok data ↔
      expectedSuite = hybridSuite ∧ ∃ coins bundle pub made, .oneShot coins data bundle sender recipient ∈ calls ∧
        bundle.hybridPublic = .ok pub ∧ Pqdm.seal P coins data bundle sender recipient = .ok made ∧
        Repeats P coins.encap pub priv blob made := by
  have hhybrid : Scalar hybridSuite := scalar_str _
  rw [openSealed_eq_ok]
  constructor
  · rintro ⟨hlen, ss, aad, hdecap, haad, hopen⟩
    obtain ⟨hencrypt, call, hcall, hlayer, d, hinput, hwraps⟩ := exists_call_of_decrypt haead hguards
      (d := .pqdmWrap ss aad) Layer.noConfusion ⟨ss, aad, hdecap, haad, rfl⟩ hopen
    cases call with
    | fanout => cases hlayer
    | routed => cases hlayer
    | wrap M => cases M <;> cases hlayer
    | oneShot coins plaintext bundle s r =>
      obtain ⟨pub, ct, ss', hhybridBundle, hpub, haad', hencap, rfl, hnonce, rfl⟩ := hwraps
      obtain rfl : ss' = ss := BytesN.ext (congrArg HkdfInput.ikm hinput)
      obtain ⟨hs, hr⟩ := hcalls _ _ _ _ _ hcall
      obtain ⟨⟨rfl, rfl, rfl⟩, -⟩ := downgradeLockAad_inj hsuite hsender hrecipient hhybrid hs hr haad haad'
      refine ⟨rfl, coins, bundle, pub, _, hcall, hpub,
        seal_eq_ok.mpr ⟨pub, _, ct, _, _, hhybridBundle, hpub, haad', hencap, hnonce ▸ hencrypt, rfl⟩, ?_⟩
      rw [List.append_assoc, repeats_iff hencap]
      refine ⟨⟨_, length_of_hybridDecap hdecap⟩, ?_, hdecap⟩
      rw [← hnonce, slice_append_drop, List.take_append_drop]
  · rintro ⟨rfl, coins, bundle, pub, made, -, hpub, hseal, hrepeats⟩
    obtain ⟨pub', aad, ct, ss, body, -, hpub', haad, hencap, hencrypt, rfl⟩ := seal_eq_ok.mp hseal
    cases hpub.symm.trans hpub'
    rw [List.append_assoc, repeats_iff hencap] at hrepeats
    obtain ⟨ct', rfl, hdecap⟩ := hrepeats
    have htag : aesgcmTagLen ≤ body.length := haead.tag_le hencrypt
    rw [← openSealed_eq_ok, ← List.append_assoc, openSealed_append ct' coins.nonce htag, haad, ok_bind, hdecap, ok_bind,
      haead.decrypt_encrypt _ _ _ _ _ hencrypt, tryExcept_ok]

/-- The recipient's own open of a sealed blob decrypts what was sealed. -/
theorem openTries_of_seal (hkem : P.KemCorrect) {pub : BytesN publicKeyLen} (hkey : IsKeypair P priv pub)
    {coins : SealCoins} {plaintext blob : Bytes} {bundle : PrekeyBundle} {sender recipient : Str}
    (hcall : .oneShot coins plaintext bundle sender recipient ∈ calls) (hpub : bundle.hybridPublic = .ok pub)
    (hseal : Pqdm.seal P coins plaintext bundle sender recipient = .ok blob) {a : Attempt KeySource Bytes Bytes Bytes}
    (ha : a ∈ openTries P blob priv sender recipient hybridSuite) : ∃ data, ⟨a, data⟩ ∈ sealings P calls := by
  obtain ⟨pub', aad, ct, ss, body, hhybrid, hpub', haad, hencap, hencrypt, rfl⟩ := seal_eq_ok.mp hseal
  obtain rfl : pub = pub' := Except.ok.inj (hpub.symm.trans hpub')
  obtain ⟨ss', aad', hdecap, haad', rfl⟩ := ha
  have hcut : ct.val.length + coins.nonce.val.length = ciphertextLen + wrapNonceLen := by
    rw [ct.length_val, coins.nonce.length_val]
  rw [take_append_append ct.length_val, hybridDecap_hybridEncap hkem hkey hencap] at hdecap
  cases hdecap
  cases haad.symm.trans haad'
  rw [slice_append_append ct.length_val hcut, drop_append_append hcut]
  exact ⟨plaintext, (mem_sealings_wrap Layer.noConfusion).mpr ⟨hencrypt, _, hcall, rfl, _, rfl, pub, ct, ss, hhybrid,
    hpub, haad, hencap, rfl, rfl, rfl⟩⟩

end OneShot

namespace OneShotExample

open StandIn (aliceCoins encapCoins)

def call : SealCall := .oneShot coins (ascii "hi") (.publish keys.publicKey) (str "bob") (str "alice")

/-- The seal, and a call of another layer to the same key. -/
def calls : List SealCall := [StandIn.memberWrap keys.publicKey, call]

theorem from_call : call.From P [.derived (Derivation.pqdmWrap
    (StandIn.sumSecret encapCoins keys.publicKey hkdfInfo) sealedAad).input] where
  wraps := by
    rintro _ _ _ _ ⟨pub, ct, ss, -, hpub, haad, hencap, rfl, -⟩
    rw [PrekeyBundle.hybridPublic_publish] at hpub
    cases hpub
    cases downgradeLockAad_sealed.symm.trans haad
    cases hybridEncap_sealed.symm.trans hencap
    exact List.mem_singleton_self _
  draws _ _ _ _ hdraws := hdraws.elim

theorem injOn_key : Set.InjOn P.cipher.key (Cipher.sourcesOf (sealings P calls)) := by
  have hmember := StandIn.from_memberWrap [(sealedKey.val, coins.nonce.val, sealedAad)] keys.publicKey
  apply injOn_of_from (List.forall_mem_cons.mpr ⟨hmember.mono (List.subset_append_left _ _),
    List.forall_mem_singleton.mpr (from_call.mono (List.subset_append_right _ _))⟩)
  decide

/-- With the seal from bob to alice and an epoch wrap as the calls, the blob opens to what was sealed and to nothing
else. -/
theorem openSealed_eq_ok_iff_sealed_run : ∃ blob,
    Pqdm.seal P coins (ascii "hi") (.publish keys.publicKey) (str "bob") (str "alice") = .ok blob ∧
      ∀ data, openSealed P (.bytes blob) (.bytes keys.privateKey) (str "bob") (str "alice") hybridSuite = .ok data ↔
        data = ascii "hi" := by
  have hkey : IsKeypair P keys.privateKey keys.publicKey := StandIn.isKeypair _ _ aliceCoins
  have hpub := PrekeyBundle.hybridPublic_publish keys.publicKey
  have hcall : call ∈ calls := List.mem_cons_of_mem _ List.mem_cons_self
  have honly : ∀ {coins plaintext bundle s r}, .oneShot coins plaintext bundle s r ∈ calls →
      SealCall.oneShot coins plaintext bundle s r = call := by
    intro _ _ _ _ _ hmem
    rcases List.mem_pair.mp hmem with hmember | hsame
    · cases hmember
    · exact hsame
  obtain ⟨blob, hseal, hrepeats⟩ : ∃ blob,
      Pqdm.seal P coins (ascii "hi") (.publish keys.publicKey) (str "bob") (str "alice") = .ok blob ∧
        Repeats P encapCoins keys.publicKey keys.privateKey blob blob := by
    refine ⟨_, seal_eq_ok.mpr ⟨_, _, _, _, _, PrekeyBundle.isHybrid_publish _, hpub, downgradeLockAad_sealed,
      hybridEncap_sealed, rfl, rfl⟩, ?_⟩
    rw [List.append_assoc]
    exact repeats_self (StandIn.kemCorrect _) hkey hybridEncap_sealed _
  have htried : ∀ a ∈ openTries P blob keys.privateKey (str "bob") (str "alice") hybridSuite,
      ∃ data, ⟨a, data⟩ ∈ sealings P calls := fun _ =>
    openTries_of_seal (StandIn.kemCorrect _) hkey hcall hpub hseal
  have haead : P.AeadCorrect := StandIn.aeadCorrect _ _
  have hhybrid : Scalar hybridSuite := scalar_str _
  refine ⟨blob, hseal, fun data => ?_⟩
  rw [openSealed_eq_ok_iff_sealed haead (scalar_str _) (scalar_str _) hhybrid ?_
    (.of_made htried injOn_key)]
  · constructor
    · rintro ⟨-, _, _, _, _, hmem, -⟩
      cases honly hmem
      rfl
    · rintro rfl
      exact ⟨rfl, coins, _, keys.publicKey, _, hcall, hpub, hseal, hrepeats⟩
  · intro _ _ _ _ _ hmem
    cases honly hmem
    exact ⟨scalar_str _, scalar_str _⟩

end OneShotExample

end Pqdm

/-! ### Epoch wraps -/

namespace RatchetModule

section Wraps
variable {P : Primitives} {calls : List SealCall} {priv : BytesN privateKeyLen}
variable (M : RatchetModule)

/-- What an unwrap decrypts. -/
def unwrapTries (P : Primitives) (payload : Bytes) (priv : BytesN privateKeyLen) :
    Set (Attempt KeySource Bytes Bytes Bytes) :=
  {a | ∃ ss, hybridDecap P (.bytes (payload.take ciphertextLen)) (.bytes priv) hkdfInfo = .ok ss ∧
    a = wrapAttempt (M.wrapKey ss) (slice payload ciphertextLen (ciphertextLen + RatchetLayer.wrapNonceLen)) []
      (payload.drop (ciphertextLen + RatchetLayer.wrapNonceLen))}

variable {M}

theorem unwrapEpochSecret_eq_ok {payload secret : Bytes} :
    M.ratchet.unwrapEpochSecret P payload priv = .ok secret ↔
      payload.length = RatchetLayer.wrappedPayloadLen ∧ ∃ ss,
        hybridDecap P (.bytes (payload.take ciphertextLen)) (.bytes priv) hkdfInfo = .ok ss ∧
        P.decrypt (P.hkdf (M.wrapKey ss).input)
          (slice payload ciphertextLen (ciphertextLen + RatchetLayer.wrapNonceLen))
          (payload.drop (ciphertextLen + RatchetLayer.wrapNonceLen)) [] = .ok secret := by
  simp only [RatchetLayer.unwrapEpochSecret, guard_eq_ok, bind_eq_ok, tryExcept_raise_eq_ok, not_ne_iff, input_wrapKey]

theorem layer_wrapKey_ne_combiner (ss : BytesN 32) : (M.wrapKey ss).layer ≠ .combiner := by
  cases M <;> exact Layer.noConfusion

/-- A wrap is made by the module whose label its key has. -/
theorem eq_of_layer_eq {M' : RatchetModule} {coins : WrapCoins} {secret : Bytes} {pub : BytesN publicKeyLen}
    {ss : BytesN 32} (h : (SealCall.wrap M' coins secret pub).layer = (M.wrapKey ss).layer) : M' = M := by
  cases M <;> cases M' <;> first | rfl | cases h

/-- What repeats a wrap unwraps to the same secret. -/
theorem unwrapEpochSecret_of_repeats (haead : P.AeadCorrect) {coins : WrapCoins} {pub : BytesN publicKeyLen}
    {secret made payload : Bytes} (hwrap : M.ratchet.wrapEpochSecret P coins secret pub = .ok made)
    (hrepeats : Repeats P coins.encap pub priv payload made) :
    M.ratchet.unwrapEpochSecret P payload priv = .ok secret := by
  obtain ⟨ct, ss, wrapped, hlen, hencap, hencrypt, rfl⟩ := RatchetLayer.wrapEpochSecret_eq_ok.mp hwrap
  rw [List.append_assoc, repeats_iff hencap] at hrepeats
  obtain ⟨ct', rfl, hdecap⟩ := hrepeats
  have hwrapped : wrapped.length = RatchetLayer.wrappedSecretLen := by
    rw [haead.length_encrypt _ _ _ _ _ hencrypt, hlen]
  rw [← List.append_assoc, RatchetLayer.unwrapEpochSecret_append ct' coins.nonce hwrapped hdecap,
    haead.decrypt_encrypt _ _ _ _ _ hencrypt, tryExcept_ok]

/-- Whatever an unwrap returns was wrapped by a call of the same module; the payload repeats what that call
returned, up to the KEM ciphertext. -/
theorem unwrapEpochSecret_eq_ok_iff_wrapped (haead : P.AeadCorrect) {payload : Bytes}
    (hguards : P.cipher.Guards (sealings P calls) (M.unwrapTries P payload priv)) {secret : Bytes} :
    M.ratchet.unwrapEpochSecret P payload priv = .ok secret ↔
      ∃ coins, ∃ pub : BytesN publicKeyLen, ∃ made, .wrap M coins secret pub ∈ calls ∧
        M.ratchet.wrapEpochSecret P coins secret pub = .ok made ∧ Repeats P coins.encap pub priv payload made := by
  constructor
  · rw [unwrapEpochSecret_eq_ok]
    rintro ⟨hlen, ss, hdecap, hopen⟩
    obtain ⟨hencrypt, call, hcall, hlayer, d, hinput, hwraps⟩ := exists_call_of_decrypt haead hguards
      (layer_wrapKey_ne_combiner ss) ⟨ss, hdecap, rfl⟩ hopen
    cases call with
    | oneShot => cases M <;> cases hlayer
    | fanout => cases M <;> cases hlayer
    | routed => cases M <;> cases hlayer
    | wrap M' coins secret' pub =>
      obtain rfl := eq_of_layer_eq hlayer
      obtain ⟨ct, ss', hlen', hencap, rfl, hnonce, -, rfl⟩ := hwraps
      rw [input_wrapKey, input_wrapKey] at hinput
      obtain rfl : ss' = ss := BytesN.ext (congrArg HkdfInput.ikm hinput)
      rw [input_wrapKey, hnonce] at hencrypt
      refine ⟨coins, pub, _, hcall, RatchetLayer.wrapEpochSecret_eq_ok.mpr ⟨ct, ss', _, hlen', hencap,
        hencrypt, rfl⟩, ?_⟩
      rw [List.append_assoc, repeats_iff hencap]
      refine ⟨⟨_, length_of_hybridDecap hdecap⟩, ?_, hdecap⟩
      rw [← hnonce, slice_append_drop, List.take_append_drop]
  · rintro ⟨coins, pub, made, -, hwrap, hrepeats⟩
    exact unwrapEpochSecret_of_repeats haead hwrap hrepeats

/-- The member's own unwrap decrypts what was wrapped. -/
theorem unwrapTries_of_wrap (hkem : P.KemCorrect) {pub : BytesN publicKeyLen} (hkey : IsKeypair P priv pub)
    {coins : WrapCoins} {secret payload : Bytes} (hcall : .wrap M coins secret pub ∈ calls)
    (hwrap : M.ratchet.wrapEpochSecret P coins secret pub = .ok payload) {a : Attempt KeySource Bytes Bytes Bytes}
    (ha : a ∈ M.unwrapTries P payload priv) : ∃ data, ⟨a, data⟩ ∈ sealings P calls := by
  obtain ⟨ct, ss, wrapped, hlen, hencap, hencrypt, rfl⟩ := RatchetLayer.wrapEpochSecret_eq_ok.mp hwrap
  obtain ⟨ss', hdecap, rfl⟩ := ha
  have hcut : ct.val.length + coins.nonce.val.length = ciphertextLen + RatchetLayer.wrapNonceLen := by
    rw [ct.length_val, coins.nonce.length_val]
  rw [take_append_append ct.length_val, hybridDecap_hybridEncap hkem hkey hencap] at hdecap
  cases hdecap
  rw [slice_append_append ct.length_val hcut, drop_append_append hcut]
  rw [← input_wrapKey] at hencrypt
  have hlayer : (SealCall.wrap M coins secret pub).layer = (M.wrapKey ss).layer := by
    cases M <;> rfl
  exact ⟨secret, (mem_sealings_wrap (layer_wrapKey_ne_combiner ss)).mpr ⟨hencrypt, _, hcall, hlayer, _, rfl, ct, ss,
    hlen, hencap, rfl, rfl, rfl, rfl⟩⟩

end Wraps

end RatchetModule

namespace WrapExample

open StandIn (encapCoins)

def call : SealCall := .wrap .group coins (BytesN.zero 32).val alice.publicKey

/-- The wrap, and another secret wrapped in the DM module with the same random choices. -/
def calls : List SealCall := [.wrap .dm coins (List.replicate 32 9) alice.publicKey, call]

theorem injOn_key : Set.InjOn P.cipher.key (Cipher.sourcesOf (sealings P calls)) := by
  have hfrom : ∀ (M : RatchetModule) (secret : Bytes),
      (SealCall.wrap M coins secret alice.publicKey).From P [.derived (M.wrapKey ss).input] :=
    fun _ _ => SealCall.from_wrap hybridEncap_alice
  apply injOn_of_from (List.forall_mem_cons.mpr ⟨(hfrom .dm _).mono (List.subset_append_left _ _),
    List.forall_mem_singleton.mpr ((hfrom .group _).mono (List.subset_append_right _ _))⟩)
  decide

/-- One group wrap for alice, which she can unwrap. -/
theorem exists_payload : ∃ payload,
    RatchetModule.group.ratchet.wrapEpochSecret P coins (BytesN.zero 32).val alice.publicKey.val = .ok payload ∧
      Repeats P encapCoins alice.publicKey alice.privateKey payload payload ∧
      P.cipher.Guards (sealings P calls) (RatchetModule.group.unwrapTries P payload alice.privateKey) := by
  have hlen := (BytesN.zero 32).length_val
  have hwrap : RatchetModule.group.ratchet.wrapEpochSecret P coins (BytesN.zero 32).val alice.publicKey.val = .ok _ :=
    RatchetLayer.wrapEpochSecret_eq_ok.mpr ⟨_, _, _, hlen, hybridEncap_alice, rfl, rfl⟩
  have hcall : call ∈ calls := List.mem_cons_of_mem _ List.mem_cons_self
  refine ⟨_, hwrap, ?_, .of_made (fun a ha => ?_) injOn_key⟩
  · rw [List.append_assoc]
    exact repeats_self kemCorrect isKeypair_alice hybridEncap_alice _
  · exact RatchetModule.unwrapTries_of_wrap kemCorrect isKeypair_alice hcall hwrap ha

/-- With one wrap for alice in each module, the payload of the group module unwraps there to what was wrapped, and to
nothing else. -/
theorem unwrapEpochSecret_eq_ok_iff_wrapped_run : ∃ payload,
    GroupRatchet.wrapEpochSecret P coins (BytesN.zero 32) alice.publicKey = .ok payload ∧
      ∀ secret, GroupRatchet.unwrapEpochSecret P payload alice.privateKey = .ok secret ↔
      secret = (BytesN.zero 32).val := by
  obtain ⟨payload, hwrap, hrepeats, hguards⟩ := exists_payload
  have hcall : call ∈ calls := List.mem_cons_of_mem _ List.mem_cons_self
  refine ⟨payload, hwrap, fun secret => ?_⟩
  refine (RatchetModule.unwrapEpochSecret_eq_ok_iff_wrapped aeadCorrect hguards).trans ?_
  constructor
  · rintro ⟨_, _, _, hmem, -⟩
    rcases List.mem_pair.mp hmem with hdm | hgroup
    · cases hdm
    · cases hgroup
      rfl
  · rintro rfl
    exact ⟨coins, alice.publicKey, payload, hcall, hwrap, hrepeats⟩

end WrapExample
end SkPqc
