import SkPqc.Model.Ratchet
import SkPqc.Proof.Fanout
import SkPqc.Proof.OneShot
import SkPqc.Proof.Routing

/-!
# Without the backend

The same call on a machine where `oqs` does not import. Everything before the KEM runs as with the
backend, and the KEM's first step raises `PqKemUnavailable`; the three calls that run the KEM under a
`try` of their own turn it into something else.
-/

namespace SkPqc
namespace Backend

open Wire Pqkem

/-! ### The KEM -/

section Kem
variable {P : Primitives} {exc : Exc}

theorem hybridKeypair_of_importOqs (h : importOqs P = .error exc) (coins : KeypairCoins) :
    hybridKeypair P coins = .error exc := by
  rw [hybridKeypair, h, error_bind]

theorem hybridEncap_of_importOqs (h : importOqs P = .error exc) (coins : EncapCoins) (peer : PyVal) (info : Bytes) :
    hybridEncap P coins peer info = .error exc := by
  rw [hybridEncap, h, error_bind]

theorem hybridDecap_of_importOqs (h : importOqs P = .error exc) (ct priv : PyVal) (info : Bytes) :
    hybridDecap P ct priv info = .error exc := by
  rw [hybridDecap, h, error_bind]

end Kem

/-! ### Calls that let the error through -/

section LetThrough
variable {P : Primitives} {e exc : Exc} (h : importOqs (P.withoutOqs e) = .error exc)
include h

theorem seal_withoutOqs {coins : Pqdm.SealCoins} {plaintext : Bytes} {bundle : Pqdm.PrekeyBundle}
    {sender recipient : Str} {blob : Bytes} (hok : Pqdm.seal P coins plaintext bundle sender recipient = .ok blob) :
    Pqdm.seal (P.withoutOqs e) coins plaintext bundle sender recipient = .error exc := by
  obtain ⟨pub, aad, -, -, -, hhybrid, hpub, haad, -⟩ := Pqdm.seal_eq_ok.mp hok
  simp only [Pqdm.seal, hhybrid, hpub, haad, ok_bind, hybridEncap_of_importOqs h, error_bind, Bool.not_true,
    Bool.false_eq_true, if_false]

theorem openSealed_withoutOqs {blob priv : PyVal} {sender recipient suite : Str} {plaintext : Bytes}
    (hok : Pqdm.openSealed P blob priv sender recipient suite = .ok plaintext) :
    Pqdm.openSealed (P.withoutOqs e) blob priv sender recipient suite = .error exc := by
  cases hdata : blob.data? with
  | none =>
    simp only [Pqdm.openSealed, hdata, raise] at hok
    cases hok
  | some b =>
    by_cases hlen : b.length < Pqdm.sealedMinLen
    · simp only [Pqdm.openSealed, hdata, if_pos hlen, raise, error_bind] at hok
      cases hok
    · simp only [Pqdm.openSealed, hdata, if_neg hlen, bind_eq_ok] at hok
      obtain ⟨aad, haad, -⟩ := hok
      simp only [Pqdm.openSealed, hdata, if_neg hlen, haad, ok_bind, hybridDecap_of_importOqs h, error_bind]

theorem sealSlot_withoutOqs {coins : Pqdm.SealMultiCoins} {i : Nat} {r : Pqdm.Recipient} {slot : Bytes}
    (hok : Pqdm.sealSlot P coins i r = .ok slot) : Pqdm.sealSlot (P.withoutOqs e) coins i r = .error exc := by
  obtain ⟨keyId, pub, -, -, -, hkeyId, hscalar, hlen, ⟨text, htext, hpub⟩, -⟩ := Pqdm.sealSlot_eq_ok.mp hok
  have hpubHex : getItem (str "hybrid_public_hex") r = .ok (.str text) := getItem_eq_ok.mpr htext
  have hpubBytes : bytesFromhex (.str text) = .ok pub.val := bytesFromhex_eq_ok.mpr ⟨text, rfl, hpub⟩
  have hkidBytes : jsonEncode (.str keyId) = .ok (utf8 keyId) := strEncode_of_scalar hscalar
  have hshort : ¬(utf8 keyId).length > 255 := Nat.not_lt.mpr hlen
  rw [Pqdm.sealSlot, Pqdm.keyIdOf_eq_some.mp hkeyId, ok_bind, hkidBytes, ok_bind, if_neg hshort, hpubHex, ok_bind,
    hpubBytes, tryExcept_ok, ok_bind, hybridEncap_of_importOqs h, error_bind]

/-- The loop stops at its first encapsulation. -/
theorem sealMulti_withoutOqs {coins : Pqdm.SealMultiCoins} {body : Bytes} {recipients : List Pqdm.Recipient}
    {sender recipientId token : Str} (hok : Pqdm.sealMulti P coins body recipients sender recipientId = .ok token) :
    Pqdm.sealMulti (P.withoutOqs e) coins body recipients sender recipientId = .error exc := by
  obtain ⟨kids, aad, ct, region, -, hne, hkids, haad, hct, hregion, -⟩ := Pqdm.sealMulti_eq_ok.mp hok
  have haad' : Pqdm.pqdm2Aad (P.withoutOqs e) (.str Pqdm.hybridSuite) sender recipientId (.arr kids) = .ok aad := haad
  have hct' : (P.withoutOqs e).encrypt coins.messageKey coins.nonce body aad = .ok ct := hct
  cases recipients with
  | nil => exact absurd rfl hne
  | cons r rs =>
    simp only [Pqdm.sealSlots, bind_eq_ok] at hregion
    obtain ⟨slot, hslot, -⟩ := hregion
    simp only [Pqdm.sealMulti, List.isEmpty_cons, Bool.false_eq_true, if_false, hkids, ok_bind, haad', hct',
      Pqdm.sealSlots, sealSlot_withoutOqs h hslot, error_bind]

theorem wrapEpochSecret_withoutOqs (L : RatchetLayer) {coins : WrapCoins} {epochSecret pub payload : Bytes}
    (hok : L.wrapEpochSecret P coins epochSecret pub = .ok payload) :
    L.wrapEpochSecret (P.withoutOqs e) coins epochSecret pub = .error exc := by
  simp only [RatchetLayer.wrapEpochSecret, bind_eq_ok, guard_eq_ok] at hok
  obtain ⟨⟨⟩, hcheck, hlen, -⟩ := hok
  simp only [RatchetLayer.wrapEpochSecret, hcheck, ok_bind, if_neg hlen, hybridEncap_of_importOqs h, error_bind]

theorem unwrapEpochSecret_withoutOqs (L : RatchetLayer) {payload priv epochSecret : Bytes}
    (hok : L.unwrapEpochSecret P payload priv = .ok epochSecret) :
    L.unwrapEpochSecret (P.withoutOqs e) payload priv = .error exc := by
  simp only [RatchetLayer.unwrapEpochSecret, guard_eq_ok] at hok
  obtain ⟨hlen, -⟩ := hok
  simp only [RatchetLayer.unwrapEpochSecret, if_neg hlen, hybridDecap_of_importOqs h, error_bind]

end LetThrough

/-! ### Calls that rename the error -/

/-- `PqKemUnavailable` is a `PqKemError`, and both route calls catch those. -/
theorem tryExcept_pqKemUnavailable {α : Type} (msg : List Part) (handler : Exc → Py α) :
    tryExcept [.pqKemError] (.error ⟨.pqKemUnavailable, msg⟩) handler = handler ⟨.pqKemUnavailable, msg⟩ := rfl

section Rename
variable {P : Primitives} {e : Exc} {msg : List Part} (h : importOqs (P.withoutOqs e) = .error ⟨.pqKemUnavailable, msg⟩)
include h

theorem sealRouted_withoutOqs {coins : Pqroute.SealCoins} {innerMetadata routeHdr : Json} {content blob : Bytes}
    {pub : PyVal} (hok : Pqroute.sealRouted P coins innerMetadata content pub routeHdr = .ok blob) :
    Pqroute.sealRouted (P.withoutOqs e) coins innerMetadata content pub routeHdr
      = .error ⟨.pqRouteFormatError, [.lit "hybrid encapsulation failed: "] ++ msg⟩ := by
  obtain ⟨key, routeBytes, metaBytes, metaLen, -, -, -, -, hpub, hroute, hmeta, hmetaLen, -⟩ :=
    Pqroute.sealRouted_eq_ok.mp hok
  have hlen : ¬key.val.length ≠ publicKeyLen := not_not.mpr key.length_val
  have hbytes : tryExcept [.typeError, .valueError] (do return (← Pqroute.canonical routeHdr,
      ← Pqroute.canonical innerMetadata)) (fun exc => raise .pqRouteFormatError
        ([.lit "header not JSON-serialisable: "] ++ exc.msg)) = .ok (routeBytes, metaBytes) := by
    rw [hroute, ok_bind, hmeta]
    rfl
  simp only [Pqroute.sealRouted, hpub, if_neg hlen, hbytes, hmetaLen, ofOption_some, ok_bind,
    hybridEncap_of_importOqs h, tryExcept_pqKemUnavailable]
  rfl

theorem openRouted_withoutOqs {blob priv : PyVal} {r : Json × Json × Bytes}
    (hok : Pqroute.openRouted P blob priv = .ok r) :
    Pqroute.openRouted (P.withoutOqs e) blob priv
      = .error ⟨.pqRouteOpenError, [.lit "hybrid decapsulation failed: "] ++ msg⟩ := by
  simp only [Pqroute.openRouted, Pqroute.openRoutedWith, bind_eq_ok, guard_eq_ok, tryExcept_raise_eq_ok,
    Prod.exists] at hok
  obtain ⟨routeBytes, sealedInner, hsplit, hlen, routeHdr, hroute, shared, ⟨key, hkey, -⟩, -⟩ := hok
  have hroute' : Pqroute.loadsHeader (P.withoutOqs e).jsonLoads .pqRouteFormatError "route header not valid JSON: "
      routeBytes = .ok routeHdr := hroute
  simp only [Pqroute.openRouted, Pqroute.openRoutedWith, hsplit, if_neg hlen, hroute', hkey, ok_bind,
    hybridDecap_of_importOqs h, tryExcept_pqKemUnavailable, raise, error_bind]

end Rename

/-! ### All calls -/

/-- The calls that need the KEM, with their arguments. -/
inductive Call where
  | hybridKeypair (coins : KeypairCoins)
  | hybridEncap (coins : EncapCoins) (peerPublicKey : PyVal) (info : Bytes)
  | hybridDecap (ciphertext privateKey : PyVal) (info : Bytes)
  | seal (coins : Pqdm.SealCoins) (plaintext : Bytes) (bundle : Pqdm.PrekeyBundle) (sender recipient : Str)
  | openSealed (sealedBlob hybridPrivate : PyVal) (sender recipient expectedSuite : Str)
  | sealMulti (coins : Pqdm.SealMultiCoins) (body : Bytes) (recipients : List Pqdm.Recipient)
      (sender recipientId : Str)
  | openMulti (token myKeyId myPrivateHex sender recipientId : Str)
  | sealRouted (coins : Pqroute.SealCoins) (innerMetadata : Json) (content : Bytes) (destHybridPub : PyVal)
      (routeHdr : Json)
  | openRouted (blob destHybridPriv : PyVal)
  | wrapEpochSecret (coins : WrapCoins) (epochSecret memberHybridPub : Bytes)
  | unwrapEpochSecret (payload memberHybridPriv : Bytes)
  | wrapDmEpochSecret (coins : WrapCoins) (epochSecret peerHybridPub : Bytes)
  | unwrapDmEpochSecret (payload peerHybridPriv : Bytes)

namespace Call

/-- The type of what a call returns. -/
def Result : Call → Type
  | hybridKeypair _ => HybridKeyPair
  | hybridEncap .. => BytesN ciphertextLen × BytesN 32
  | hybridDecap .. => BytesN 32
  | sealMulti .. => Str
  | openMulti .. => Option Bytes
  | openRouted .. => Json × Json × Bytes
  | _ => Bytes

def run (P : Primitives) : (c : Call) → Py c.Result
  | hybridKeypair coins => Pqkem.hybridKeypair P coins
  | hybridEncap coins peer info => Pqkem.hybridEncap P coins peer info
  | hybridDecap ct priv info => Pqkem.hybridDecap P ct priv info
  | .seal coins plaintext bundle sender recipient => Pqdm.seal P coins plaintext bundle sender recipient
  | openSealed blob priv sender recipient suite => Pqdm.openSealed P blob priv sender recipient suite
  | sealMulti coins body recipients sender recipientId => Pqdm.sealMulti P coins body recipients sender recipientId
  | openMulti token keyId privateHex sender recipientId => Pqdm.openMulti P token keyId privateHex sender recipientId
  | sealRouted coins innerMetadata content pub routeHdr => Pqroute.sealRouted P coins innerMetadata content pub routeHdr
  | openRouted blob priv => Pqroute.openRouted P blob priv
  | wrapEpochSecret coins epochSecret pub => GroupRatchet.wrapEpochSecret P coins epochSecret pub
  | unwrapEpochSecret payload priv => GroupRatchet.unwrapEpochSecret P payload priv
  | wrapDmEpochSecret coins epochSecret pub => DmRatchet.wrapDmEpochSecret P coins epochSecret pub
  | unwrapDmEpochSecret payload priv => DmRatchet.unwrapDmEpochSecret P payload priv

/-- A call that returns a result; for `openMulti`, a body. -/
def Returns (P : Primitives) : Call → Prop
  | openMulti token keyId privateHex sender recipientId =>
    ∃ body, Pqdm.openMulti P token keyId privateHex sender recipientId = .ok (some body)
  | c => ∃ r, c.run P = .ok r

/-- The calls that run the KEM under a `try` of their own. -/
def CatchesKem : Call → Prop
  | openMulti .. | sealRouted .. | openRouted .. => True
  | _ => False

end Call

/-- A call that returns with the backend raises `PqKemUnavailable` without it exactly when it does not run
the KEM under a `try` of its own. -/
theorem unavailable_iff {P : Primitives} {c : Call} (hreturns : c.Returns P) (e : Exc) :
    (∃ msg, c.run (P.withoutOqs e) = .error ⟨.pqKemUnavailable, msg⟩) ↔ ¬c.CatchesKem := by
  obtain ⟨msg, h⟩ := importOqs_withoutOqs P e
  cases c with
  | hybridKeypair coins => exact iff_of_true ⟨msg, hybridKeypair_of_importOqs h coins⟩ id
  | hybridEncap coins peer info => exact iff_of_true ⟨msg, hybridEncap_of_importOqs h coins peer info⟩ id
  | hybridDecap ct priv info => exact iff_of_true ⟨msg, hybridDecap_of_importOqs h ct priv info⟩ id
  | «seal» => exact iff_of_true ⟨msg, seal_withoutOqs h hreturns.choose_spec⟩ id
  | openSealed => exact iff_of_true ⟨msg, openSealed_withoutOqs h hreturns.choose_spec⟩ id
  | sealMulti => exact iff_of_true ⟨msg, sealMulti_withoutOqs h hreturns.choose_spec⟩ id
  | wrapEpochSecret => exact iff_of_true ⟨msg, wrapEpochSecret_withoutOqs h _ hreturns.choose_spec⟩ id
  | unwrapEpochSecret => exact iff_of_true ⟨msg, unwrapEpochSecret_withoutOqs h _ hreturns.choose_spec⟩ id
  | wrapDmEpochSecret => exact iff_of_true ⟨msg, wrapEpochSecret_withoutOqs h _ hreturns.choose_spec⟩ id
  | unwrapDmEpochSecret => exact iff_of_true ⟨msg, unwrapEpochSecret_withoutOqs h _ hreturns.choose_spec⟩ id
  | openMulti token keyId privateHex sender recipientId =>
    -- whatever happens inside, the call returns
    refine iff_of_false ?_ (not_not.mpr trivial)
    rintro ⟨msg, hrun⟩
    obtain ⟨o, ho⟩ := Pqdm.openMulti_returns (P.withoutOqs e) token keyId privateHex sender recipientId
    cases ho.symm.trans hrun
  | sealRouted =>
    refine iff_of_false ?_ (not_not.mpr trivial)
    rintro ⟨msg', hrun⟩
    cases (sealRouted_withoutOqs h hreturns.choose_spec).symm.trans hrun
  | openRouted =>
    refine iff_of_false ?_ (not_not.mpr trivial)
    rintro ⟨msg', hrun⟩
    cases (openRouted_withoutOqs h hreturns.choose_spec).symm.trans hrun

/-! ### Runs -/

def missing : Exc := ⟨.importError, [.lib]⟩

/-- An encapsulation to alice on a machine without the backend. -/
theorem unavailable_run : ∃ msg,
    (Call.hybridEncap StandIn.encapCoins (.bytes Pqroute.Example.keys.publicKey) hkdfInfo).run
      (Pqroute.Example.P.withoutOqs missing) = .error ⟨.pqKemUnavailable, msg⟩ := by
  have hreturns : (Call.hybridEncap StandIn.encapCoins (.bytes Pqroute.Example.keys.publicKey) hkdfInfo).Returns
      Pqroute.Example.P := ⟨_, StandIn.hybridEncap_sums [] _ _ _⟩
  exact (unavailable_iff hreturns missing).mpr id

/-- A routed seal that returns with the backend raises `PqRouteFormatError` without it. -/
theorem exists_renamed_unavailable : ∃ c : Call, c.Returns Pqroute.Example.P ∧ ∃ msg,
    c.run (Pqroute.Example.P.withoutOqs missing) = .error ⟨.pqRouteFormatError, msg⟩ := by
  obtain ⟨blob, hseal⟩ := Pqroute.Example.exists_sealed
  obtain ⟨msg, h⟩ := importOqs_withoutOqs Pqroute.Example.P missing
  have hrun := sealRouted_withoutOqs h hseal
  exact ⟨.sealRouted Pqroute.Example.coins (.obj []) (ascii "hi") (.bytes Pqroute.Example.keys.publicKey)
    (.obj Pqroute.Example.routeHdr), ⟨blob, hseal⟩, _, hrun⟩

end Backend
end SkPqc
