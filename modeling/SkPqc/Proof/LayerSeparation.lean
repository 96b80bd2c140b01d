import SkPqc.Proof.ProvenanceRouted

/-!
# The layers under one key

A hybrid keypair may serve every layer at once: a prekey of `pqdm`, a device of a fanout token, a destination
of `pqroute`, a member of a ratchet. Whatever an attacker cuts and pastes from the artefacts of all layers, an
opener accepts nothing unless a call of its own layer sealed something.
-/

namespace SkPqc

open Wire Pqkem Schemes

/-- An opener with the bytes it is given and the arguments of the call. -/
inductive Opener where
  | openSealed (blob : Bytes) (sender recipient expectedSuite : Str)
  | openMulti (token myKeyId sender recipientId : Str)
  | openRouted (blob : Bytes)
  | unwrap (M : RatchetModule) (payload : Bytes)

namespace Opener

def layer : Opener → Layer
  | openSealed .. => .pqdmWrap
  | openMulti .. => .pqdm2SlotWrap
  | openRouted .. => .pqrouteWrap
  | unwrap .group _ => .groupEpochWrap
  | unwrap .dm _ => .dmEpochWrap

/-- The opener returns data under a private key. -/
def Accepts (P : Primitives) (priv : BytesN privateKeyLen) : Opener → Prop
  | openSealed blob sender recipient expectedSuite =>
    ∃ data, Pqdm.openSealed P (.bytes blob) (.bytes priv) sender recipient expectedSuite = .ok data
  | openMulti token myKeyId sender recipientId =>
    ∃ data, Pqdm.openMulti P token myKeyId (hex priv) sender recipientId = .ok (some data)
  | openRouted blob => ∃ opened, Pqroute.openRouted P (.bytes blob) (.bytes priv) = .ok opened
  | unwrap M payload => ∃ secret, M.ratchet.unwrapEpochSecret P payload priv = .ok secret

/-- What the opener decrypts. -/
def tries (P : Primitives) (priv : BytesN privateKeyLen) : Opener → Set (Attempt KeySource Bytes Bytes Bytes)
  | openSealed blob sender recipient expectedSuite => Pqdm.openTries P blob priv sender recipient expectedSuite
  | openMulti token myKeyId sender recipientId => Pqdm.multiTries P token myKeyId priv sender recipientId
  | openRouted blob => Pqroute.openTries P blob priv
  | unwrap M payload => M.unwrapTries P payload priv

/-- The first decryption of an opener that accepts is under a wrap key of its layer. -/
theorem exists_decrypt_of_accepts {P : Primitives} {priv : BytesN privateKeyLen} {o : Opener} (h : o.Accepts P priv) :
    ∃ d nonce aad body data, d.layer = o.layer ∧ d.layer ≠ .combiner ∧ wrapAttempt d nonce aad body ∈ o.tries P priv ∧
      P.decrypt (P.hkdf d.input) nonce body aad = .ok data := by
  cases o with
  | openSealed =>
    obtain ⟨data, hopen⟩ := h
    obtain ⟨-, ss, aad, hdecap, haad, hdecrypt⟩ := Pqdm.openSealed_eq_ok.mp hopen
    exact ⟨.pqdmWrap ss aad, _, aad, _, data, rfl, Layer.noConfusion, ⟨ss, aad, hdecap, haad, rfl⟩, hdecrypt⟩
  | openMulti =>
    obtain ⟨data, hopen⟩ := h
    obtain ⟨header, slots, blob, _, priv', slot, ss, K, hcarries, -, hpriv, hfind, hdecap, hK, -⟩ :=
      Pqdm.openMulti_eq_some.mp hopen
    obtain rfl : priv.val = priv' := Option.some.inj ((fromHex_hex priv.val).symm.trans hpriv)
    exact ⟨.pqdm2SlotWrap ss, _, [], _, K, rfl, Layer.noConfusion,
      ⟨header, slot, ss, blob, ⟨slots, hcarries, hfind, hdecap⟩, .inl rfl⟩, hK⟩
  | openRouted =>
    obtain ⟨⟨header, metadata, content⟩, hopen⟩ := h
    obtain ⟨-, inner, hopens, -⟩ := Pqroute.openRouted_eq_ok.mp hopen
    obtain ⟨hdrLen, routeBytes, ct, nonce, body, _, ss, hlen, hblob, -, hpriv, hdecap, hinner⟩ := hopens
    cases hpriv
    exact ⟨.pqrouteWrap ss routeBytes, nonce, _, body, inner, rfl, Layer.noConfusion,
      ⟨hdrLen, routeBytes, ct, nonce, body, ss, hlen, hblob, hdecap, rfl⟩, hinner⟩
  | unwrap M =>
    obtain ⟨secret, hunwrap⟩ := h
    obtain ⟨-, ss, hdecap, hdecrypt⟩ := RatchetModule.unwrapEpochSecret_eq_ok.mp hunwrap
    refine ⟨M.wrapKey ss, _, [], _, secret, ?_, RatchetModule.layer_wrapKey_ne_combiner ss, ⟨ss, hdecap, rfl⟩, hdecrypt⟩
    cases M <;> rfl

end Opener

/-- An opener that accepts, whatever bytes it is given and under whatever private key, owes it to a sealing call of
its own layer. -/
theorem exists_call_of_accepts {P : Primitives} (haead : P.AeadCorrect) {calls : List SealCall}
    {priv : BytesN privateKeyLen} {o : Opener} (hguards : P.cipher.Guards (sealings P calls) (o.tries P priv))
    (h : o.Accepts P priv) : ∃ call ∈ calls, call.layer = o.layer := by
  obtain ⟨d, nonce, aad, body, data, hlayer, hcombiner, htried, hdecrypt⟩ := o.exists_decrypt_of_accepts h
  obtain ⟨-, call, hcall, hsame, -⟩ := exists_call_of_decrypt haead hguards hcombiner htried hdecrypt
  exact ⟨call, hcall, hsame.trans hlayer⟩

namespace WrapExample

/-- A wrap for alice in the DM module does not account for what the group module accepts under her key, the one in the
group module does. -/
theorem exists_call_of_accepts_run : ∃ payload, (Opener.unwrap .group payload).Accepts P alice.privateKey ∧
    ∃ c ∈ calls, c.layer = .groupEpochWrap := by
  obtain ⟨payload, hwrap, hrepeats, hguards⟩ := exists_payload
  have haccepts : (Opener.unwrap .group payload).Accepts P alice.privateKey :=
    ⟨_, RatchetModule.unwrapEpochSecret_of_repeats aeadCorrect hwrap hrepeats⟩
  exact ⟨payload, haccepts, exists_call_of_accepts aeadCorrect hguards haccepts⟩

end WrapExample
end SkPqc
